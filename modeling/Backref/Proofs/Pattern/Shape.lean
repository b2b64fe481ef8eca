import Backref.Proofs.Pattern.Draft
import Backref.Proofs.Pattern.Layout

/-!
# The shape of a parsed tree

Which children the nodes of a parsed tree have (`Node.IsFormed`), and which identifiers and group
numbers they have: the theorems of `Pattern` collect what later proofs use of a parsed tree.
-/

namespace Backref

/-- Whether a node of this kind is an item of a sequence. -/
def Kind.isItem : Kind → Bool
  | .literal _ | .group _ | .expressionRef _ | .stringRef _ | .repetition => true
  | .sequence | .alternation | .branch => false

/-- What may have a star is an item. -/
theorem Kind.isItem_of_isRepeatable {kind : Kind} (h : kind.isRepeatable) : kind.isItem := by
  cases kind with
  | literal _ | group _ | expressionRef _ => rfl
  | sequence | alternation | branch | repetition | stringRef _ => cases h

/-- The nodes are a sequence of items, or nothing but an alternation. -/
def Node.AreBody (nodes : List Node) : Prop :=
  (∀ node ∈ nodes, node.kind.isItem) ∨ ∃ node, nodes = [node] ∧ node.kind = .alternation

/-- The children suit the kind of the node: the root and a group have a body, a branch has items, an
alternation has at least two branches, a repetition has one child that may have a star, and letters
and references have no child. -/
def Node.IsFormed (node : Node) : Prop :=
  match node.kind with
  | .sequence | .group _ => AreBody node.children
  | .branch => ∀ child ∈ node.children, child.kind.isItem
  | .alternation =>
      2 ≤ node.children.length ∧ ∀ child ∈ node.children, child.kind = .branch
  | .repetition => ∃ child, node.children = [child] ∧ child.kind.isRepeatable
  | .literal _ | .expressionRef _ | .stringRef _ => node.children = []

/-- The place of a child: it is an item, or it is a branch of an alternation, or it is an
alternation and the only child of the root or of a group. -/
theorem Node.IsFormed.child_cases {node child : Node} (h : node.IsFormed)
    (hchild : child ∈ node.children) :
    child.kind.isItem ∨ (child.kind = .branch ∧ node.kind = .alternation) ∨
      (child.kind = .alternation ∧ node.children = [child] ∧
        (node.kind = .sequence ∨ ∃ number, node.kind = .group number)) := by
  have hbody : AreBody node.children →
      child.kind.isItem ∨ (child.kind = .alternation ∧ node.children = [child]) := by
    rintro (hitem | ⟨alternation, hchildren, hkind⟩)
    · exact .inl (hitem child hchild)
    · rw [hchildren] at hchild
      obtain rfl := List.mem_singleton.1 hchild
      exact .inr ⟨hkind, hchildren⟩
  obtain ⟨label, kind, children⟩ := node
  cases kind with
  | sequence => exact (hbody h).imp_right fun hchild => .inr ⟨hchild.1, hchild.2, .inl rfl⟩
  | group number =>
      exact (hbody h).imp_right fun hchild => .inr ⟨hchild.1, hchild.2, .inr ⟨number, rfl⟩⟩
  | branch => exact .inl (h child hchild)
  | alternation => exact .inr (.inl ⟨h.2 child hchild, rfl⟩)
  | repetition =>
      obtain ⟨only, rfl, honly⟩ := h
      obtain rfl := List.mem_singleton.1 hchild
      exact .inl (Kind.isItem_of_isRepeatable honly)
  | literal _ | expressionRef _ | stringRef _ =>
      obtain rfl : children = [] := h
      cases hchild

/-- The nodes and all nodes below them are formed. -/
def Node.AllFormed (nodes : List Node) : Prop := ∀ inner ∈ Node.subtrees nodes, inner.IsFormed

namespace Node.AllFormed

variable {nodes nodes' : List Node}

/-- No nodes are formed. -/
theorem nil : AllFormed [] := fun _ h => nomatch h

/-- Two lists of formed nodes are formed together. -/
theorem append (h : AllFormed nodes) (h' : AllFormed nodes') : AllFormed (nodes ++ nodes') := by
  intro inner hinner
  rw [subtrees_append, List.mem_append] at hinner
  rcases hinner with hinner | hinner
  · exact h inner hinner
  · exact h' inner hinner

/-- A list of nodes is formed when its first node and the others are. -/
theorem of_cons {node : Node} (h : AllFormed (node :: nodes)) :
    (∀ inner ∈ node.subtree, inner.IsFormed) ∧ AllFormed nodes :=
  ⟨fun inner hinner => h inner (List.mem_append_left _ hinner),
    fun inner hinner => h inner (List.mem_append_right _ hinner)⟩

/-- A node is formed with its children. -/
theorem parent {node : Node} (hnode : node.IsFormed) (h : AllFormed node.children) :
    AllFormed [node] := by
  intro inner hinner
  rw [subtrees, subtrees, List.append_nil, subtree_eq, List.mem_cons] at hinner
  rcases hinner with rfl | hinner
  · exact hnode
  · exact h inner hinner

/-- A repetition is formed when it stands around a node that may have a star. -/
theorem starIf {node : Node} (h : AllFormed [node]) (hnode : node.kind.isRepeatable)
    (starred : Bool) (cursor : Cursor) : AllFormed [(Node.starIf starred node cursor).1] := by
  cases starred with
  | false => exact h
  | true => exact parent ⟨node, rfl, hnode⟩ h

/-- A branch is formed around formed items. -/
theorem branch (h : AllFormed nodes) (hitem : ∀ node ∈ nodes, node.kind.isItem) (label : Label) :
    AllFormed [⟨label, .branch, nodes⟩] :=
  parent hitem h

/-- The children of a node around a sequence and some branches are formed. -/
theorem alternate (h : AllFormed nodes) (hitem : ∀ node ∈ nodes, node.kind.isItem)
    {branches : List Node} (h' : AllFormed branches)
    (hkind : ∀ branch ∈ branches, branch.kind = .branch) (cursor : Cursor) :
    AllFormed (Node.alternate nodes cursor branches) := by
  cases branches with
  | nil => exact h
  | cons branch branches =>
      refine parent ⟨?_, ?_⟩ ((h.branch hitem _).append h')
      · show 2 ≤ branches.length + 1 + 1
        omega
      · intro child hchild
        rcases List.mem_cons.1 hchild with rfl | hchild
        · rfl
        · exact hkind child hchild

end Node.AllFormed

/-- A sequence and some branches are the body of a node. -/
theorem Node.areBody_alternate {nodes : List Node} (h : ∀ node ∈ nodes, node.kind.isItem)
    (cursor : Cursor) (branches : List Node) : AreBody (Node.alternate nodes cursor branches) := by
  cases branches with
  | nil => exact .inl h
  | cons branch branches => exact .inr ⟨_, rfl, rfl⟩

open Node

/-- A repetition is an item, and so is what it stands around. -/
theorem Node.isItem_starIf {node : Node} (h : node.kind.isItem) (starred : Bool)
    (cursor : Cursor) : (Node.starIf starred node cursor).1.kind.isItem := by
  cases starred with
  | false => exact h
  | true => rfl

/-- The node of an item is an item. -/
theorem Item.isItem_build (item : Item) (cursor : Cursor) : (item.build cursor).1.kind.isItem := by
  cases item with
  | letter c starred => exact isItem_starIf rfl starred _
  | group captures first others starred =>
      rw [Item.build]
      exact isItem_starIf rfl starred _
  | expressionRef number starred => exact isItem_starIf rfl starred _
  | stringRef number => rfl

/-- The nodes of a sequence are items. -/
theorem Item.isItem_of_mem_buildSequence {items : List Item} {cursor : Cursor} {node : Node}
    (h : node ∈ (Item.buildSequence items cursor).1) : node.kind.isItem := by
  induction items generalizing cursor with
  | nil => cases h
  | cons item items ih =>
      rcases List.mem_cons.1 h with rfl | h
      · exact item.isItem_build cursor
      · exact ih h

/-- The sequences after the first one are built as branches. -/
theorem Item.kind_of_mem_buildBranches {others : List (List Item)} {cursor : Cursor}
    {branch : Node} (h : branch ∈ (Item.buildBranches others cursor).1) :
    branch.kind = .branch := by
  induction others generalizing cursor with
  | nil => cases h
  | cons items others ih =>
      rcases List.mem_cons.1 h with rfl | h
      · rfl
      · exact ih h

mutual

/-- The node of an item is formed. -/
theorem Item.formed_build : ∀ (item : Item) (cursor : Cursor),
    AllFormed [(item.build cursor).1]
  | .letter c starred, cursor => (AllFormed.parent (by rfl) .nil).starIf rfl starred _
  | .group captures first others starred, cursor => by
      rw [Item.build]
      have hitem : ∀ node ∈ (Item.buildSequence first (cursor.enter captures)).1,
          node.kind.isItem := fun _ => Item.isItem_of_mem_buildSequence
      refine AllFormed.starIf (.parent ?_ ?_) rfl starred _
      · exact areBody_alternate hitem _ _
      · exact (Item.formed_buildSequence first _).alternate hitem
          (Item.formed_buildBranches others _) (fun _ => Item.kind_of_mem_buildBranches) _
  | .expressionRef number starred, cursor => (AllFormed.parent (by rfl) .nil).starIf rfl starred _
  | .stringRef _, _ => .parent (by rfl) .nil

/-- The nodes of a sequence are formed. -/
theorem Item.formed_buildSequence : ∀ (items : List Item) (cursor : Cursor),
    AllFormed (Item.buildSequence items cursor).1
  | [], _ => .nil
  | item :: items, cursor =>
      (Item.formed_build item cursor).append (Item.formed_buildSequence items _)

/-- The branches of some sequences are formed. -/
theorem Item.formed_buildBranches : ∀ (others : List (List Item)) (cursor : Cursor),
    AllFormed (Item.buildBranches others cursor).1
  | [], _ => .nil
  | items :: others, cursor => by
      have hitem : ∀ node ∈ (Item.buildSequence items (cursor.skip 1 1)).1, node.kind.isItem :=
        fun _ => Item.isItem_of_mem_buildSequence
      exact ((Item.formed_buildSequence items _).branch hitem _).append
        (Item.formed_buildBranches others _)

end

/-- The tree of an abstract pattern is formed. -/
theorem Regex.formed_build (regex : Regex) : AllFormed [regex.build.root] := by
  have hitem : ∀ node ∈ (Item.buildSequence regex.first .start).1, node.kind.isItem :=
    fun _ => Item.isItem_of_mem_buildSequence
  refine .parent (areBody_alternate hitem _ _) ?_
  exact (Item.formed_buildSequence regex.first _).alternate hitem
    (Item.formed_buildBranches regex.others _) (fun _ => Item.kind_of_mem_buildBranches) _

namespace Pattern

variable {text : String} {pattern : Pattern}

/-- The nodes of a parsed tree are formed. -/
theorem isFormed_of_parse (h : Pattern.parse text = .ok pattern) {node : Node}
    (hnode : node ∈ pattern.root.subtree) : node.IsFormed := by
  obtain ⟨regex, _, _, rfl⟩ := Pattern.parse_eq_ok_iff.1 h
  exact regex.formed_build node (Node.mem_subtrees.2 ⟨_, List.mem_singleton.2 rfl, hnode⟩)

/-- The root of a parsed tree is a sequence with the first identifier. -/
theorem root_of_parse (h : Pattern.parse text = .ok pattern) :
    pattern.root.id = 0 ∧ pattern.root.kind = .sequence := by
  obtain ⟨regex, _, _, rfl⟩ := Pattern.parse_eq_ok_iff.1 h
  exact ⟨rfl, rfl⟩

/-- The identifiers of a parsed tree are the numbers below its size. -/
theorem hasDenseIds_of_parse (h : Pattern.parse text = .ok pattern) : pattern.HasDenseIds := by
  obtain ⟨regex, _, _, rfl⟩ := Pattern.parse_eq_ok_iff.1 h
  exact regex.hasDenseIds_build

/-- The groups of a parsed tree have numbers that a digit can name. -/
theorem group_le_of_parse (h : Pattern.parse text = .ok pattern) {node : Node} {number : Nat}
    (hnode : node ∈ pattern.root.subtree) (hkind : node.kind = .group (some number)) :
    number ≤ maxGroups := by
  obtain ⟨regex, hvalid, _, rfl⟩ := Pattern.parse_eq_ok_iff.1 h
  have hcapture : node.capture? = some (node.position, number) := by
    simp [Node.capture?, hkind]
  have hmem := List.mem_filterMap.2 ⟨node, hnode, hcapture⟩
  rw [regex.captures_build] at hmem
  obtain ⟨_, hlt, _⟩ := List.mem_zipIdx hmem
  have hcount : (captureIndices 0 regex.text).length = regex.tokens.count (.opening true) :=
    Token.capturingCount_spellAll regex.tokens
  have hle := hvalid.groups_le
  omega

/-- A string reference of a parsed tree comes after the group that it names. -/
theorem exists_group_of_stringRef (h : Pattern.parse text = .ok pattern) {node : Node}
    {front back : List Node} {number : Nat} (hnodes : pattern.root.subtree = front ++ node :: back)
    (hkind : node.kind = .stringRef number) :
    ∃ group ∈ front, group.kind = .group (some number) := by
  obtain ⟨regex, hvalid, _, rfl⟩ := Pattern.parse_eq_ok_iff.1 h
  have hatom : node.atom? = some (node.position, .stringRef number) := by
    simp [Node.atom?, hkind, Kind.isAtom]
  have hatoms := regex.atoms_build
  rw [hnodes, List.filterMap_append, List.filterMap_cons_some hatom] at hatoms
  -- The reference comes from a token, before which the text opens at least as many groups.
  obtain ⟨before, group, after, htokens, hvalue, hfront⟩ :=
    Token.exists_of_atoms_eq_stringRef hatoms.symm
  have hpos := group.pos
  have hle := hvalid.stringRef_le before group after htokens
  obtain ⟨start, hmem⟩ : ∃ start, (start, .group (some number)) ∈ Token.atoms 0 0 before :=
    Token.mem_atoms_group (by omega) (by omega)
  rw [hfront] at hmem
  obtain ⟨opened, hopened, hopenedAtom⟩ := List.mem_filterMap.1 hmem
  exact ⟨opened, hopened, Node.kind_of_atom? hopenedAtom⟩

end Pattern

end Backref
