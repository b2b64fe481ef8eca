import Backref.Proofs.Reference.Descent
import Backref.Reference.Placement

/-!
# What the rules for string references see of a tree

`Node.skeleton` deletes from a tree what neither sets nor reads a group, and forgets identifiers and
positions. Two trees with the same skeleton can be walked in step: `Node.Pairs` relates the nodes
that stand at the same address, and `Node.Pairs.groupSites` the sites that set or read a group.
-/

namespace Backref

/-- An ordered tree of kinds. -/
inductive Skeleton
  | mk (kind : Kind) (children : List Skeleton)

mutual

/-- Skeletons can be compared. -/
def Skeleton.decEq : (first second : Skeleton) → Decidable (first = second)
  | .mk kind children, .mk kind' children' =>
      have := Skeleton.decEqAll children children'
      decidable_of_iff (kind = kind' ∧ children = children') (by rw [Skeleton.mk.injEq])

/-- Lists of skeletons can be compared. -/
def Skeleton.decEqAll : (first second : List Skeleton) → Decidable (first = second)
  | [], [] => isTrue rfl
  | [], _ :: _ => isFalse nofun
  | _ :: _, [] => isFalse nofun
  | first :: firsts, second :: seconds =>
      have := Skeleton.decEq first second
      have := Skeleton.decEqAll firsts seconds
      decidable_of_iff (first = second ∧ firsts = seconds) (by rw [List.cons.injEq])

end

instance : DecidableEq Skeleton := Skeleton.decEq

/-- Whether a child remains when irrelevant children are deleted; an alternation and a repetition
keep all of theirs. -/
def Kind.keeps (kind : Kind) (child : Node) : Bool := kind.isOptional || child.isRelevant

/-- The children that remain when irrelevant ones are deleted. -/
def Node.kept (node : Node) : List Node := node.children.filter node.kind.keeps

mutual

/-- The tree of kinds that remains when irrelevant children are deleted. -/
def Node.skeleton : Node → Skeleton
  | ⟨_, kind, children⟩ => .mk kind (Node.skeletons kind children)

/-- The trees of the children that remain below a node of the given kind. -/
def Node.skeletons (kind : Kind) : List Node → List Skeleton
  | [] => []
  | node :: nodes =>
      if kind.keeps node then node.skeleton :: Node.skeletons kind nodes
      else Node.skeletons kind nodes

end

/-- The node at an address, where each number counts the children that remain. -/
def Node.keptAt? (node : Node) : List Nat → Option Node
  | [] => some node
  | index :: address => node.kept[index]?.bind fun child => child.keptAt? address

/-- Related members of two lists are members. -/
theorem forall₂_mem {α β : Type} {relation : α → β → Prop} {first : List α} {second : List β}
    (h : List.Forall₂ relation first second) :
    List.Forall₂ (fun a b => a ∈ first ∧ b ∈ second ∧ relation a b) first second := by
  rw [List.forall₂_iff_zip] at h ⊢
  refine ⟨h.1, fun hzip => ?_⟩
  obtain ⟨hfirst, hsecond⟩ := List.of_mem_zip hzip
  exact ⟨hfirst, hsecond, h.2 hzip⟩

/-- A member of the first list is related to a member of the second. -/
theorem exists_right_of_forall₂ {α β : Type} {relation : α → β → Prop} {first : List α}
    {second : List β} (h : List.Forall₂ relation first second) {a : α} (ha : a ∈ first) :
    ∃ b ∈ second, relation a b := by
  induction h with
  | nil => cases ha
  | @cons head head' _ _ hhead _ ih =>
      rcases List.mem_cons.1 ha with rfl | ha
      · exact ⟨head', List.mem_cons_self, hhead⟩
      · obtain ⟨b, hb, hrelated⟩ := ih ha
        exact ⟨b, List.mem_cons_of_mem _ hb, hrelated⟩

/-- A member of the second list is related to a member of the first. -/
theorem exists_left_of_forall₂ {α β : Type} {relation : α → β → Prop} {first : List α}
    {second : List β} (h : List.Forall₂ relation first second) {b : β} (hb : b ∈ second) :
    ∃ a ∈ first, relation a b :=
  exists_right_of_forall₂ (List.Forall₂.flip (R := flip relation) h) hb

namespace Node

/-- The skeleton of a node has those of the children that remain. -/
theorem skeleton_eq (node : Node) : node.skeleton = .mk node.kind (node.kept.map skeleton) := by
  obtain ⟨label, kind, children⟩ := node
  have hskeletons : ∀ nodes : List Node,
      skeletons kind nodes = (nodes.filter kind.keeps).map skeleton := by
    intro nodes
    induction nodes with
    | nil => rfl
    | cons node nodes ih =>
        rw [skeletons, ih, List.filter_cons]
        split <;> rfl
  rw [skeleton, hskeletons]
  rfl

/-- An address can be extended by a child. -/
theorem keptAt?_snoc {root node child : Node} {address : List Nat} {index : Nat}
    (h : root.keptAt? address = some node) (hchild : node.kept[index]? = some child) :
    root.keptAt? (address ++ [index]) = some child := by
  induction address generalizing root with
  | nil =>
      obtain rfl := Option.some.inj h
      rw [List.nil_append, keptAt?, hchild]
      rfl
  | cons first address ih =>
      obtain ⟨middle, hmiddle, h⟩ := Option.bind_eq_some_iff.1 h
      rw [List.cons_append, keptAt?, hmiddle]
      exact ih h

/-- What holds of a node when it holds of its children holds of every node. -/
@[elab_as_elim]
theorem child_induction {motive : Node → Prop}
    (step : ∀ node : Node, (∀ child ∈ node.children, motive child) → motive node) (node : Node) :
    motive node := by
  obtain ⟨label, kind, children⟩ := node
  exact step _ fun child hchild => child_induction step child
termination_by sizeOf node
decreasing_by
  have hlt := List.sizeOf_lt_of_mem hchild
  simp only [Node.mk.sizeOf_spec] at hlt ⊢
  omega

/-- Below an alternation and a repetition all children remain. -/
theorem kept_eq_children {node : Node} (h : node.kind.isOptional) : node.kept = node.children := by
  refine List.filter_eq_self.2 fun child _ => ?_
  rw [Kind.keeps, h, Bool.true_or]

/-- The relevant children are those of the children that remain. -/
theorem filter_isRelevant_kept (node : Node) :
    node.kept.filter isRelevant = node.children.filter isRelevant := by
  rw [kept, List.filter_filter]
  refine List.filter_congr fun child _ => ?_
  rw [Kind.keeps, Bool.and_or_distrib_left, Bool.and_self, Bool.or_eq_right_iff_imp]
  exact fun h => (Bool.and_eq_true_iff.1 h).1

/-- A node is relevant when it uses a group itself or one of the children that remain is. -/
theorem isRelevant_iff (node : Node) :
    node.isRelevant ↔ node.kind.usesGroup ∨ true ∈ node.kept.map isRelevant := by
  have hkept : true ∈ node.kept.map isRelevant ↔ ∃ child ∈ node.children, child.UsesGroups := by
    rw [List.mem_map]
    constructor
    · rintro ⟨child, hkept, hrelevant⟩
      exact ⟨child, (List.mem_filter.1 hkept).1, of_decide_eq_true hrelevant⟩
    · rintro ⟨child, hchild, huses⟩
      have hrelevant : child.isRelevant = true := decide_eq_true huses
      refine ⟨child, List.mem_filter.2 ⟨hchild, ?_⟩, hrelevant⟩
      rw [Kind.keeps, hrelevant, Bool.or_true]
  rw [hkept, isRelevant, decide_eq_true_eq, UsesGroups, node.subtree_eq, List.exists_mem_cons_iff]
  refine or_congr_right ?_
  constructor
  · rintro ⟨inner, hinner, huses⟩
    obtain ⟨child, hchild, hinner⟩ := mem_subtrees.1 hinner
    exact ⟨child, hchild, inner, hinner, huses⟩
  · rintro ⟨child, hchild, inner, hinner, huses⟩
    exact ⟨inner, mem_subtrees.2 ⟨child, hchild, hinner⟩, huses⟩

/-- Whether a node can be part of what remains of a parsed tree. -/
def CanRemain (node : Node) : Prop :=
  node.kind = .sequence ∨ node.kind = .branch ∨ node.isRelevant

/-- What remains below an alternation are branches, and what remains below a repetition is
relevant if the repetition is. -/
theorem CanRemain.child {node child : Node} (h : node.CanRemain) (hformed : node.IsFormed)
    (hchild : child ∈ node.kept) : child.CanRemain := by
  obtain ⟨hmem, hkeeps⟩ := List.mem_filter.1 hchild
  rcases Bool.or_eq_true_iff.1 hkeeps with hoptional | hrelevant
  · obtain ⟨label, kind, children⟩ := node
    cases kind with
    | alternation => exact .inr (.inl (hformed.2 child hmem))
    | repetition =>
        obtain ⟨only, rfl : children = [only], _⟩ := hformed
        obtain rfl := List.mem_singleton.1 hmem
        obtain hkind | hkind | hrelevant := h
        · cases hkind
        · cases hkind
        · rcases (isRelevant_iff _).1 hrelevant with huses | hkept
          · cases huses
          · rw [kept_eq_children rfl] at hkept
            exact .inr (.inr (List.mem_singleton.1 hkept).symm)
    | _ => cases hoptional
  · exact .inr (.inr hrelevant)

/-- What stands at an address of a formed tree can remain. -/
theorem CanRemain.keptAt? {root node : Node} (h : root.CanRemain)
    (hformed : ∀ inner ∈ root.subtree, inner.IsFormed) {address : List Nat}
    (hnode : root.keptAt? address = some node) : node.CanRemain ∧ node.IsFormed := by
  induction address generalizing root with
  | nil =>
      obtain rfl := Option.some.inj hnode
      exact ⟨h, hformed root root.mem_subtree_self⟩
  | cons index address ih =>
      obtain ⟨child, hchild, hnode⟩ := Option.bind_eq_some_iff.1 hnode
      have hkept : child ∈ root.kept := List.mem_of_getElem? hchild
      have hmem : child ∈ root.children := (List.mem_filter.1 hkept).1
      exact ih (h.child (hformed root root.mem_subtree_self) hkept)
        (fun inner hinner => hformed inner (mem_subtree_of_child hmem hinner)) hnode

/-- Two nodes stand at the same address of two trees, with the same skeleton. -/
structure Pairs (root root' node node' : Node) : Prop where
  skeleton_eq : node.skeleton = node'.skeleton
  exists_address : ∃ address, root.keptAt? address = some node ∧
    root'.keptAt? address = some node'

/-- The roots of two trees with the same skeleton stand at the same address. -/
theorem Pairs.root {root root' : Node} (h : root.skeleton = root'.skeleton) :
    Pairs root root' root root' := ⟨h, [], rfl, rfl⟩

namespace Pairs

variable {root root' node node' : Node} (h : Pairs root root' node node')
include h

/-- Nodes at the same address have the same kind. -/
theorem kind_eq : node.kind = node'.kind := by
  have hskeleton := h.skeleton_eq
  rw [node.skeleton_eq, node'.skeleton_eq] at hskeleton
  exact (Skeleton.mk.inj hskeleton).1

/-- The children that remain stand at the same addresses. -/
theorem kept : List.Forall₂ (Pairs root root') node.kept node'.kept := by
  have hskeleton := h.skeleton_eq
  rw [node.skeleton_eq, node'.skeleton_eq] at hskeleton
  have hchildren := (Skeleton.mk.inj hskeleton).2
  obtain ⟨address, hnode, hnode'⟩ := h.exists_address
  refine List.forall₂_iff_get.2 ⟨?_, fun index hlt hlt' => ⟨?_, address ++ [index], ?_, ?_⟩⟩
  · simpa using congrArg List.length hchildren
  · have hindex := congrArg (fun children => children[index]?) hchildren
    simpa [List.getElem?_eq_getElem hlt, List.getElem?_eq_getElem hlt'] using hindex
  · exact keptAt?_snoc hnode (List.getElem?_eq_getElem hlt)
  · exact keptAt?_snoc hnode' (List.getElem?_eq_getElem hlt')

/-- Facts about the children that remain carry over when they are proved child by child. -/
theorem kept_of_children {relation : Node → Node → Prop}
    (hchild : ∀ child ∈ node.children, ∀ child', Pairs root root' child child' →
      relation child child') : List.Forall₂ relation node.kept node'.kept := by
  refine (forall₂_mem h.kept).imp fun child child' ⟨hkept, _, hpairs⟩ => ?_
  exact hchild child (List.mem_filter.1 hkept).1 child' hpairs

/-- Of nodes at the same address, either both use a group or neither does. -/
theorem isRelevant_eq : node.isRelevant = node'.isRelevant := by
  induction node using Node.child_induction generalizing node' with
  | step node ih =>
      have hsame : node.kept.map isRelevant = node'.kept.map isRelevant := by
        rw [← List.forall₂_eq_eq_eq, List.forall₂_map_left_iff, List.forall₂_map_right_iff]
        exact h.kept_of_children fun child hchild child' hpairs => ih child hchild hpairs
      rw [Bool.eq_iff_iff, isRelevant_iff, isRelevant_iff, h.kind_eq, hsame]

end Pairs

/-! ## Sites -/

/-- The sites at a node and below it that set or read a group. -/
def groupSites (node : Node) (ancestors : List Node) : List Site :=
  (node.sitesOnto ancestors []).filter fun site => site.kind.usesGroup

/-- Nothing is set or read below a node that is not relevant. -/
theorem groupSites_eq_nil {node : Node} (h : ¬ node.isRelevant) (ancestors : List Node) :
    node.groupSites ancestors = [] := by
  refine List.filter_eq_nil_iff.2 fun site hsite huses => h (decide_eq_true ⟨site.node, ?_, huses⟩)
  have hmem := List.mem_map_of_mem (f := Site.node) hsite
  rwa [map_node_sitesOnto, List.map_nil, List.append_nil] at hmem

/-- What is set and read at a node and below the children that remain. -/
theorem groupSites_eq (node : Node) (ancestors : List Node) :
    node.groupSites ancestors =
      (if node.kind.usesGroup then [⟨node, ancestors⟩] else []) ++
        (node.kept.map fun child => child.groupSites (node :: ancestors)).flatten := by
  have hchildren : ∀ nodes : List Node,
      ((childSitesOnto nodes (node :: ancestors) []).filter fun site => site.kind.usesGroup) =
        ((nodes.filter node.kind.keeps).map
          fun child => child.groupSites (node :: ancestors)).flatten := by
    intro nodes
    induction nodes with
    | nil => rfl
    | cons child nodes ih =>
        rw [childSitesOnto_cons, List.filter_append, ih, List.filter_cons, ← groupSites]
        by_cases hkeeps : node.kind.keeps child
        · rw [if_pos hkeeps, List.map_cons, List.flatten_cons]
        · have hrelevant : ¬ child.isRelevant := fun hrelevant =>
            hkeeps (Bool.or_eq_true_iff.2 (.inr hrelevant))
          rw [if_neg hkeeps, groupSites_eq_nil hrelevant, List.nil_append]
  rw [groupSites, sitesOnto_eq_cons, List.filter_cons, hchildren]
  show (if node.kind.usesGroup then _ else _) = _
  by_cases huses : node.kind.usesGroup
  · rw [if_pos huses, if_pos huses]
    rfl
  · rw [if_neg huses, if_neg huses]
    rfl

end Node

/-- The nodes of two sites stand at the same address, below nodes of the same kinds. -/
structure Site.Pairs (root root' : Node) (site site' : Site) : Prop where
  node : Node.Pairs root root' site.node site'.node
  ancestors : site.ancestors.map Node.kind = site'.ancestors.map Node.kind

/-- What is set and read below nodes at the same address stands at the same addresses. -/
theorem Node.Pairs.groupSites {root root' node node' : Node} (h : Pairs root root' node node')
    {ancestors ancestors' : List Node}
    (hancestors : ancestors.map Node.kind = ancestors'.map Node.kind) :
    List.Forall₂ (Site.Pairs root root') (node.groupSites ancestors)
      (node'.groupSites ancestors') := by
  induction node using Node.child_induction generalizing node' ancestors ancestors' with
  | step node ih =>
      have hpath : (node :: ancestors).map Node.kind = (node' :: ancestors').map Node.kind := by
        rw [List.map_cons, List.map_cons, h.kind_eq, hancestors]
      rw [groupSites_eq, groupSites_eq, h.kind_eq]
      refine List.rel_append ?_ (List.rel_flatten ?_)
      · split
        · exact .cons ⟨h, hancestors⟩ .nil
        · exact .nil
      · rw [List.forall₂_map_left_iff, List.forall₂_map_right_iff]
        exact h.kept_of_children fun child hchild child' hpairs => ih child hchild hpairs hpath

/-- Sites at the same address have the same kind. -/
theorem Site.Pairs.kind_eq {root root' : Node} {site site' : Site}
    (h : Site.Pairs root root' site site') : site.kind = site'.kind := h.node.kind_eq

/-- Sites below nodes of the same kinds lie in the same alternations and repetitions. -/
theorem Site.isConditional_eq {site site' : Site}
    (h : site.ancestors.map Node.kind = site'.ancestors.map Node.kind) :
    site.isConditional = site'.isConditional := by
  have hmap (nodes : List Node) : (nodes.any fun node => node.kind.isOptional) =
      (nodes.map Node.kind).any Kind.isOptional := by
    rw [List.any_map]
    rfl
  rw [isConditional, isConditional, hmap, hmap, h]

/-- What two patterns with the same skeleton set and read stands at the same addresses. -/
theorem Pattern.pairs_groupSites {pattern pattern' : Pattern}
    (h : pattern.root.skeleton = pattern'.root.skeleton) :
    List.Forall₂ (Site.Pairs pattern.root pattern'.root) (pattern.root.groupSites [])
      (pattern'.root.groupSites []) :=
  (Node.Pairs.root h).groupSites rfl

/-- What is collected from the sites that use a group is all there is to collect, when the others
give nothing. -/
theorem Pattern.filterMap_groupSites {α : Type} {collect : Site → Option α}
    (h : ∀ site, ¬ site.kind.usesGroup → collect site = none) (pattern : Pattern) :
    (pattern.root.groupSites []).filterMap collect = pattern.sites.filterMap collect := by
  rw [Node.groupSites, List.filterMap_filter]
  refine List.filterMap_congr fun site _ => ?_
  split
  · rfl
  · next huses => exact (h site huses).symm

/-- No letter and no expression reference remains, so it makes no difference that skeletons tell
letters apart. -/
theorem Pattern.kind_of_keptAt? {text : String} {pattern : Pattern}
    (h : Pattern.parse text = .ok pattern) {address : List Nat} {node : Node}
    (hnode : pattern.root.keptAt? address = some node) :
    (∀ letter, node.kind ≠ .literal letter) ∧ ∀ group, node.kind ≠ .expressionRef group := by
  have hroot : pattern.root.CanRemain := .inl (Pattern.root_of_parse h).2
  obtain ⟨hremains, hformed⟩ := hroot.keptAt? (fun _ => Pattern.isFormed_of_parse h) hnode
  have hleaf {kind : Kind} (hkind : node.kind = kind) (hsequence : kind ≠ .sequence)
      (hbranch : kind ≠ .branch) (huses : ¬ kind.usesGroup) (hchildren : node.children = []) :
      False := by
    subst hkind
    obtain hkind | hkind | hrelevant := hremains
    · exact hsequence hkind
    · exact hbranch hkind
    · rw [Node.isRelevant_iff, Node.kept, hchildren] at hrelevant
      exact hrelevant.elim huses fun hmem => nomatch hmem
  rw [Node.IsFormed] at hformed
  constructor
  · intro letter hkind
    rw [hkind] at hformed
    exact hleaf hkind nofun nofun nofun hformed
  · intro group hkind
    rw [hkind] at hformed
    exact hleaf hkind nofun nofun nofun hformed

end Backref
