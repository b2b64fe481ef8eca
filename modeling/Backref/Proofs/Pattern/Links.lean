import Backref.Proofs.Pattern.Shape
import Mathlib.Logic.Relation

/-!
# The links between nodes

Whoever asks about a pattern names its nodes by their identifiers: `Pattern.kind?`,
`Pattern.parent?`, `Pattern.childIds` and `Pattern.ancestorIds` answer from the sites.
`Pattern.IsLinked` says that the answers are those of one ordered tree, whatever identifiers are
asked for. The links themselves agree because the identifiers are dense; which kinds of nodes stand
next to each other is read off the shape of a parsed tree (`Pattern.place_cases`).
-/

namespace Backref

namespace Pattern

/-- The kind of the node with the given identifier. -/
def kind? (pattern : Pattern) (id : Nat) : Option Kind := (pattern.site? id).map Site.kind

/-- The identifier of its parent. -/
def parent? (pattern : Pattern) (id : Nat) : Option Nat := (pattern.site? id).bind Site.parent?

/-- The identifiers of its children, from left to right. -/
def childIds (pattern : Pattern) (id : Nat) : List Nat :=
  (pattern.site? id).elim [] Site.childIds

/-- The identifiers of its ancestors, from the parent up to the root. -/
def ancestorIds (pattern : Pattern) (id : Nat) : List Nat :=
  (pattern.site? id).elim [] Site.ancestorIds

/-- The nodes are linked to one ordered tree, in which each kind of node has its place. -/
structure IsLinked (pattern : Pattern) : Prop where
  /-- The identifiers are the numbers below the size. -/
  isSome_kind?_iff (id : Nat) : (pattern.kind? id).isSome ↔ id < pattern.size
  root_id : pattern.root.id = 0
  /-- Only the root is a sequence. -/
  kind?_eq_sequence_iff (id : Nat) : pattern.kind? id = some .sequence ↔ id = 0
  /-- Only the root has no parent. -/
  parent?_eq_none_iff (id : Nat) (hid : id < pattern.size) :
    pattern.parent? id = none ↔ id = 0
  /-- A node stands once among the children of its parent, and among no other children. -/
  count_childIds (owner id : Nat) :
    (pattern.childIds owner).count id = if pattern.parent? id = some owner then 1 else 0
  /-- Every node can be reached from the root through lists of children. -/
  reachable (id : Nat) (hid : id < pattern.size) :
    Relation.ReflTransGen (fun owner child => child ∈ pattern.childIds owner) 0 id
  /-- The links to the parents lead from a node past its ancestors. -/
  isChain_ancestorIds (id : Nat) (hid : id < pattern.size) :
    List.IsChain (fun child owner => pattern.parent? child = some owner)
      (id :: pattern.ancestorIds id)
  /-- The way up ends at the root. -/
  getLast?_ancestorIds (id : Nat) (hid : id < pattern.size) :
    (id :: pattern.ancestorIds id).getLast? = some 0
  /-- The way up meets no node twice. -/
  nodup_ancestorIds (id : Nat) (hid : id < pattern.size) :
    (id :: pattern.ancestorIds id).Nodup
  /-- An alternation has at least two children, all of them branches, and is the only child of the
  root or of a group. -/
  alternation (id : Nat) (hkind : pattern.kind? id = some .alternation) :
    2 ≤ (pattern.childIds id).length ∧
      (∀ child ∈ pattern.childIds id, pattern.kind? child = some .branch) ∧
      ∃ owner, pattern.parent? id = some owner ∧ pattern.childIds owner = [id] ∧
        (owner = 0 ∨ ∃ number, pattern.kind? owner = some (.group number))
  /-- A branch stands in an alternation. -/
  branch (id : Nat) (hkind : pattern.kind? id = some .branch) :
    ∃ owner, pattern.parent? id = some owner ∧ pattern.kind? owner = some .alternation
  /-- A repetition stands around one letter, group or expression reference. -/
  repetition (id : Nat) (hkind : pattern.kind? id = some .repetition) :
    ∃ child, pattern.childIds id = [child] ∧
      ((∃ letter, pattern.kind? child = some (.literal letter)) ∨
        (∃ number, pattern.kind? child = some (.group number)) ∨
        ∃ group, pattern.kind? child = some (.expressionRef group))

variable {text : String} {pattern : Pattern} {site : Site} {id owner : Nat}

/-! ## Sites next to each other -/

/-- The root is a site. -/
theorem mem_sites_root (pattern : Pattern) : ⟨pattern.root, []⟩ ∈ pattern.sites :=
  mem_sites.2 (.self _ _)

/-- Only the root has nothing above it. -/
theorem eq_root_of_ancestors_eq_nil (hsite : site ∈ pattern.sites) (h : site.ancestors = []) :
    site = ⟨pattern.root, []⟩ := by
  obtain ⟨node, ancestors⟩ := site
  subst h
  have hsuffix : [pattern.root] <:+ [node] := (mem_sites.1 hsite).suffix
  obtain rfl := List.singleton_inj.1 (hsuffix.eq_of_length rfl)
  rfl

/-- A child of a site is a site. -/
theorem mem_sites_of_child (hsite : site ∈ pattern.sites) {child : Node}
    (hchild : child ∈ site.node.children) : ⟨child, site.path⟩ ∈ pattern.sites :=
  mem_sites.2 ((mem_sites.1 hsite).trans (.child hchild (.self _ _)))

/-- The parent of a site is a site. -/
theorem mem_sites_of_parent (hsite : site ∈ pattern.sites) {parent : Node} {up : List Node}
    (h : site.ancestors = parent :: up) :
    ⟨parent, up⟩ ∈ pattern.sites ∧ site.node ∈ parent.children := by
  rcases (mem_sites.1 hsite).parent h with rfl | ⟨hparent, hchild⟩
  · cases h
  · exact ⟨mem_sites.2 hparent, hchild⟩

/-- The way up from a site ends at the root. -/
theorem getLast?_path_ids (hsite : site ∈ pattern.sites) :
    (site.id :: site.ancestorIds).getLast? = some pattern.root.id := by
  obtain ⟨node, ancestors⟩ := site
  induction ancestors generalizing node with
  | nil =>
      obtain ⟨rfl, _⟩ := Site.mk.inj (eq_root_of_ancestors_eq_nil hsite rfl)
      rfl
  | cons parent up ih =>
      exact List.getLast?_cons_cons.trans (ih parent (mem_sites_of_parent hsite rfl).1)

/-- An identifier names the site that is found for it. -/
theorem mem_sites_of_site? (h : pattern.site? id = some site) :
    site ∈ pattern.sites ∧ site.id = id :=
  ⟨List.mem_of_find?_eq_some h, by simpa using List.find?_some h⟩

/-- Only a site has a kind. -/
theorem exists_of_kind? {kind : Kind} (h : pattern.kind? id = some kind) :
    ∃ site ∈ pattern.sites, site.id = id ∧ site.kind = kind := by
  obtain ⟨site, hfound, hkind⟩ := Option.map_eq_some_iff.1 h
  obtain ⟨hsite, hid⟩ := mem_sites_of_site? hfound
  exact ⟨site, hsite, hid, hkind⟩

/-! ## Answers -/

namespace HasDenseIds

/-- A site is found by its identifier. -/
theorem site?_id (h : pattern.HasDenseIds) (hsite : site ∈ pattern.sites) :
    pattern.site? site.id = some site := by
  obtain ⟨found, hfound⟩ : ∃ found, pattern.site? site.id = some found :=
    Option.isSome_iff_exists.1 (List.find?_isSome.2 ⟨site, hsite, beq_self_eq_true _⟩)
  obtain ⟨hmem, hid⟩ := mem_sites_of_site? hfound
  rw [hfound, h.eq_of_id_eq hmem hsite hid]

/-- The kind of a site. -/
theorem kind?_id (h : pattern.HasDenseIds) (hsite : site ∈ pattern.sites) :
    pattern.kind? site.id = some site.kind := by
  rw [kind?, h.site?_id hsite, Option.map_some]

/-- The parent of a site. -/
theorem parent?_id (h : pattern.HasDenseIds) (hsite : site ∈ pattern.sites) :
    pattern.parent? site.id = site.parent? := by
  rw [parent?, h.site?_id hsite, Option.bind_some]

/-- The children of a site. -/
theorem childIds_id (h : pattern.HasDenseIds) (hsite : site ∈ pattern.sites) :
    pattern.childIds site.id = site.childIds := by
  rw [childIds, h.site?_id hsite, Option.elim_some]

/-- The ancestors of a site. -/
theorem ancestorIds_id (h : pattern.HasDenseIds) (hsite : site ∈ pattern.sites) :
    pattern.ancestorIds site.id = site.ancestorIds := by
  rw [ancestorIds, h.site?_id hsite, Option.elim_some]

/-- The numbers below the size have a kind. -/
theorem isSome_kind?_iff (h : pattern.HasDenseIds) (id : Nat) :
    (pattern.kind? id).isSome ↔ id < pattern.size := by
  constructor
  · intro hsome
    obtain ⟨kind, hkind⟩ := Option.isSome_iff_exists.1 hsome
    obtain ⟨site, hsite, rfl, _⟩ := exists_of_kind? hkind
    exact h.id_lt hsite
  · intro hid
    obtain ⟨site, hsite, rfl⟩ := h.exists_site hid
    rw [h.kind?_id hsite]
    rfl

/-- The nodes whose parent is a node are its children. -/
theorem mem_childIds_iff (h : pattern.HasDenseIds) :
    id ∈ pattern.childIds owner ↔ pattern.parent? id = some owner := by
  constructor
  · intro hid
    cases hfound : pattern.site? owner with
    | none =>
        rw [childIds, hfound] at hid
        cases hid
    | some site =>
        rw [childIds, hfound] at hid
        obtain ⟨hsite, rfl⟩ := mem_sites_of_site? hfound
        obtain ⟨child, hchild, rfl⟩ := List.mem_map.1 hid
        exact h.parent?_id (mem_sites_of_child hsite hchild)
  · intro hparent
    obtain ⟨site, hfound, hup⟩ := Option.bind_eq_some_iff.1 hparent
    obtain ⟨hsite, rfl⟩ := mem_sites_of_site? hfound
    obtain ⟨parent, hhead, rfl⟩ := Option.map_eq_some_iff.1 hup
    obtain ⟨up, hancestors⟩ := List.head?_eq_some_iff.1 hhead
    obtain ⟨hparentSite, hchild⟩ := mem_sites_of_parent hsite hancestors
    have hchildren : pattern.childIds parent.id = parent.children.map Node.id :=
      h.childIds_id hparentSite
    rw [hchildren]
    exact List.mem_map_of_mem hchild

/-- The children of a node are all different. -/
theorem nodup_childIds (h : pattern.HasDenseIds) (owner : Nat) :
    (pattern.childIds owner).Nodup := by
  cases hfound : pattern.site? owner with
  | none =>
      rw [childIds, hfound]
      exact List.nodup_nil
  | some site =>
      rw [childIds, hfound]
      have hnode : site.node ∈ pattern.root.subtree :=
        mem_subtree_root.2 ⟨site, (mem_sites_of_site? hfound).1, rfl⟩
      have hchildren : site.node.children.Sublist site.node.subtree := by
        rw [site.node.subtree_eq]
        exact (Node.sublist_subtrees _).cons _
      exact h.nodup.sublist ((hchildren.trans (Node.subtree_sublist hnode)).map Node.id)

/-- A node stands once among the children of its parent, and among no other children. -/
theorem count_childIds (h : pattern.HasDenseIds) (owner id : Nat) :
    (pattern.childIds owner).count id = if pattern.parent? id = some owner then 1 else 0 := by
  split
  · next hparent =>
      exact List.count_eq_one_of_mem (h.nodup_childIds owner) (h.mem_childIds_iff.2 hparent)
  · next hparent => exact List.count_eq_zero.2 (mt h.mem_childIds_iff.1 hparent)

/-- What occurs below a node can be reached from it through lists of children. -/
theorem reachable_of_occurs (h : pattern.HasDenseIds) {node : Node} {ancestors : List Node}
    (hoccurs : node.Occurs ancestors site) (hnode : ⟨node, ancestors⟩ ∈ pattern.sites) :
    Relation.ReflTransGen (fun owner child => child ∈ pattern.childIds owner) node.id site.id := by
  induction hoccurs with
  | self => exact .refl
  | @child node child ancestors site hchild _ ih =>
      have hstep : child.id ∈ pattern.childIds node.id := by
        have hids : pattern.childIds node.id = node.children.map Node.id := h.childIds_id hnode
        rw [hids]
        exact List.mem_map_of_mem hchild
      exact .head hstep (ih (mem_sites_of_child hnode hchild))

/-- No node has its own identifier above it. -/
theorem id_notMem_ancestorIds (h : pattern.HasDenseIds) (hsite : site ∈ pattern.sites) :
    site.id ∉ site.ancestorIds := by
  intro hid
  obtain ⟨inner, hinner, hsame⟩ := List.mem_map.1 hid
  obtain ⟨front, up, hancestors⟩ := List.append_of_mem hinner
  have hpath : site.path = (site.node :: front) ++ inner :: up := by
    rw [Site.path, hancestors, List.cons_append]
  have heq := h.eq_of_id_eq (mem_sites_of_path hsite hpath).1 hsite hsame
  -- The site would have as many ancestors as one of them.
  have hlength := congrArg (fun site => site.ancestors.length) heq
  simp only [hancestors, List.length_append, List.length_cons] at hlength
  omega

/-- The links to the parents go up along the ancestors of a site. -/
theorem isChain_ancestorIds (h : pattern.HasDenseIds) (hsite : site ∈ pattern.sites) :
    List.IsChain (fun child owner => pattern.parent? child = some owner)
      (site.id :: site.ancestorIds) := by
  obtain ⟨node, ancestors⟩ := site
  induction ancestors generalizing node with
  | nil => exact .singleton _
  | cons parent up ih =>
      exact .cons_cons (h.parent?_id hsite) (ih parent (mem_sites_of_parent hsite rfl).1)

/-- The ancestors of a site are all different. -/
theorem nodup_ancestorIds (h : pattern.HasDenseIds) (hsite : site ∈ pattern.sites) :
    (site.id :: site.ancestorIds).Nodup := by
  refine List.nodup_cons.2 ⟨h.id_notMem_ancestorIds hsite, ?_⟩
  obtain ⟨node, ancestors⟩ := site
  induction ancestors generalizing node with
  | nil => exact List.nodup_nil
  | cons parent up ih =>
      have hparent := (mem_sites_of_parent hsite rfl).1
      exact List.nodup_cons.2 ⟨h.id_notMem_ancestorIds hparent, ih parent hparent⟩

end HasDenseIds

/-! ## Parsed patterns -/

section Parsed

variable (h : Pattern.parse text = .ok pattern) (hsite : site ∈ pattern.sites)
include h hsite

/-- The node of a site is formed. -/
theorem isFormed_of_mem_sites : site.node.IsFormed :=
  isFormed_of_parse h (mem_subtree_root.2 ⟨site, hsite, rfl⟩)

/-- Only the root has the first identifier. -/
theorem ancestors_eq_nil_of_id_eq_zero (hid : site.id = 0) : site.ancestors = [] := by
  have hsame : site.id = pattern.root.id := hid.trans (root_of_parse h).1.symm
  obtain rfl := (hasDenseIds_of_parse h).eq_of_id_eq hsite pattern.mem_sites_root hsame
  rfl

/-- The place of a site: it is the root, or it has a parent that suits its kind. -/
theorem place_cases :
    (site.id = 0 ∧ site.kind = .sequence ∧ site.parent? = none) ∨
      (site.id ≠ 0 ∧ ∃ parent ∈ pattern.sites, site.parent? = some parent.id ∧
        (site.kind.isItem ∨ (site.kind = .branch ∧ parent.kind = .alternation) ∨
          (site.kind = .alternation ∧ parent.childIds = [site.id] ∧
            (parent.kind = .sequence ∨ ∃ number, parent.kind = .group number)))) := by
  cases hup : site.ancestors with
  | nil =>
      obtain rfl := eq_root_of_ancestors_eq_nil hsite hup
      exact .inl ⟨(root_of_parse h).1, (root_of_parse h).2, rfl⟩
  | cons parent up =>
      obtain ⟨hparent, hchild⟩ := mem_sites_of_parent hsite hup
      have hid : site.id ≠ 0 := fun hid => by
        rw [ancestors_eq_nil_of_id_eq_zero h hsite hid] at hup
        cases hup
      refine .inr ⟨hid, ⟨parent, up⟩, hparent, ?_, ?_⟩
      · rw [Site.parent?, hup]
        rfl
      · have hcases := (isFormed_of_mem_sites h hparent).child_cases hchild
        refine hcases.imp_right (Or.imp_right fun ⟨hkind, hchildren, howner⟩ => ?_)
        exact ⟨hkind, congrArg (List.map Node.id) hchildren, howner⟩

/-- Only the root is a sequence. -/
theorem kind_eq_sequence_iff : site.kind = .sequence ↔ site.id = 0 := by
  rcases place_cases h hsite with ⟨hid, hkind, _⟩ | ⟨hid, _, _, _, hplace⟩
  · exact iff_of_true hkind hid
  · refine iff_of_false (fun hkind => ?_) hid
    rw [hkind] at hplace
    rcases hplace with hitem | ⟨hbranch, _⟩ | ⟨halternation, _⟩
    · cases hitem
    · cases hbranch
    · cases halternation

/-- Only the root has no parent. -/
theorem parent?_eq_none_iff : site.parent? = none ↔ site.id = 0 := by
  rcases place_cases h hsite with ⟨hid, _, hparent⟩ | ⟨hid, parent, _, hparent, _⟩
  · exact iff_of_true hparent hid
  · exact iff_of_false (fun hnone => nomatch hparent.symm.trans hnone) hid

/-- A branch stands in an alternation. -/
theorem exists_parent_of_branch (hkind : site.kind = .branch) :
    ∃ parent ∈ pattern.sites, site.parent? = some parent.id ∧ parent.kind = .alternation := by
  rcases place_cases h hsite with ⟨_, hroot, _⟩ | ⟨_, parent, hparent, hlink, hplace⟩
  · cases hroot.symm.trans hkind
  · rw [hkind] at hplace
    rcases hplace with hitem | ⟨_, halternation⟩ | ⟨halternation, _⟩
    · cases hitem
    · exact ⟨parent, hparent, hlink, halternation⟩
    · cases halternation

/-- An alternation is the only child of the root or of a group. -/
theorem exists_parent_of_alternation (hkind : site.kind = .alternation) :
    ∃ parent ∈ pattern.sites, site.parent? = some parent.id ∧ parent.childIds = [site.id] ∧
      (parent.id = 0 ∨ ∃ number, parent.kind = .group number) := by
  rcases place_cases h hsite with ⟨_, hroot, _⟩ | ⟨_, parent, hparent, hlink, hplace⟩
  · cases hroot.symm.trans hkind
  · rw [hkind] at hplace
    rcases hplace with hitem | ⟨hbranch, _⟩ | ⟨_, honly, howner⟩
    · cases hitem
    · cases hbranch
    · exact ⟨parent, hparent, hlink, honly,
        howner.imp_left (kind_eq_sequence_iff h hparent).1⟩

/-- The node around an alternation has no other child. -/
theorem exists_owner_of_alternation (hkind : site.kind = .alternation) :
    ∃ owner ∈ pattern.sites, site.ancestors = owner.path ∧ owner.node.children = [site.node] ∧
      (owner.kind = .sequence ∨ ∃ number, owner.kind = .group number) := by
  cases hup : site.ancestors with
  | nil =>
      obtain rfl := eq_root_of_ancestors_eq_nil hsite hup
      cases hkind.symm.trans (root_of_parse h).2
  | cons parent up =>
      obtain ⟨hparent, hchild⟩ := mem_sites_of_parent hsite hup
      refine ⟨⟨parent, up⟩, hparent, rfl, ?_⟩
      rcases (isFormed_of_mem_sites h hparent).child_cases hchild with hitem | hbranch | hplace
      · rw [show site.node.kind = .alternation from hkind] at hitem
        cases hitem
      · cases hkind.symm.trans hbranch.1
      · exact hplace.2

/-- An alternation has at least two children, all of them branches. -/
theorem branches_of_alternation (hkind : site.kind = .alternation) :
    2 ≤ site.childIds.length ∧ ∀ child ∈ site.childIds, pattern.kind? child = some .branch := by
  have hformed := isFormed_of_mem_sites h hsite
  rw [Node.IsFormed, show site.node.kind = .alternation from hkind] at hformed
  refine ⟨(List.length_map Node.id).symm ▸ hformed.1, fun id hid => ?_⟩
  obtain ⟨child, hchild, rfl⟩ := List.mem_map.1 hid
  have hkind := (hasDenseIds_of_parse h).kind?_id (mem_sites_of_child hsite hchild)
  exact hkind.trans (congrArg some (hformed.2 child hchild))

/-- A repetition has one child, which may have a star. -/
theorem exists_child_of_repetition (hkind : site.kind = .repetition) :
    ∃ child kind, site.childIds = [child] ∧ pattern.kind? child = some kind ∧
      kind.isRepeatable := by
  have hformed := isFormed_of_mem_sites h hsite
  rw [Node.IsFormed, show site.node.kind = .repetition from hkind] at hformed
  obtain ⟨child, hchildren, hrepeatable⟩ := hformed
  have hchild : child ∈ site.node.children := hchildren ▸ List.mem_cons_self
  refine ⟨child.id, child.kind, congrArg (List.map Node.id) hchildren, ?_, hrepeatable⟩
  exact (hasDenseIds_of_parse h).kind?_id (mem_sites_of_child hsite hchild)

end Parsed

/-- The nodes of a parsed pattern are linked to one ordered tree. -/
theorem isLinked_of_parse (h : Pattern.parse text = .ok pattern) : pattern.IsLinked := by
  have hids := hasDenseIds_of_parse h
  have hroot := pattern.mem_sites_root
  have hrootId : pattern.root.id = 0 := (root_of_parse h).1
  refine
    { isSome_kind?_iff := hids.isSome_kind?_iff
      root_id := hrootId
      kind?_eq_sequence_iff := fun id => ?_
      parent?_eq_none_iff := fun id hid => ?_
      count_childIds := hids.count_childIds
      reachable := fun id hid => ?_
      isChain_ancestorIds := fun id hid => ?_
      getLast?_ancestorIds := fun id hid => ?_
      nodup_ancestorIds := fun id hid => ?_
      alternation := fun id hfound => ?_
      branch := fun id hfound => ?_
      repetition := fun id hfound => ?_ }
  · constructor
    · intro hkind
      obtain ⟨site, hsite, rfl, hsequence⟩ := exists_of_kind? hkind
      exact (kind_eq_sequence_iff h hsite).1 hsequence
    · rintro rfl
      have hkind := hids.kind?_id hroot
      rw [show Site.id ⟨pattern.root, []⟩ = 0 from hrootId] at hkind
      exact hkind.trans (congrArg some (root_of_parse h).2)
  · obtain ⟨site, hsite, rfl⟩ := hids.exists_site hid
    rw [hids.parent?_id hsite]
    exact parent?_eq_none_iff h hsite
  · obtain ⟨site, hsite, rfl⟩ := hids.exists_site hid
    rw [← hrootId]
    exact hids.reachable_of_occurs (mem_sites.1 hsite) hroot
  · obtain ⟨site, hsite, rfl⟩ := hids.exists_site hid
    rw [hids.ancestorIds_id hsite]
    exact hids.isChain_ancestorIds hsite
  · obtain ⟨site, hsite, rfl⟩ := hids.exists_site hid
    rw [hids.ancestorIds_id hsite, ← hrootId]
    exact getLast?_path_ids hsite
  · obtain ⟨site, hsite, rfl⟩ := hids.exists_site hid
    rw [hids.ancestorIds_id hsite]
    exact hids.nodup_ancestorIds hsite
  · obtain ⟨site, hsite, rfl, hkind⟩ := exists_of_kind? hfound
    obtain ⟨hlength, hbranch⟩ := branches_of_alternation h hsite hkind
    obtain ⟨parent, hparent, hlink, honly, howner⟩ := exists_parent_of_alternation h hsite hkind
    rw [hids.childIds_id hsite, hids.parent?_id hsite]
    refine ⟨hlength, hbranch, parent.id, hlink, (hids.childIds_id hparent).trans honly, ?_⟩
    exact howner.imp_right fun ⟨number, hgroup⟩ =>
      ⟨number, (hids.kind?_id hparent).trans (congrArg some hgroup)⟩
  · obtain ⟨site, hsite, rfl, hkind⟩ := exists_of_kind? hfound
    obtain ⟨parent, hparent, hlink, halternation⟩ := exists_parent_of_branch h hsite hkind
    rw [hids.parent?_id hsite]
    exact ⟨parent.id, hlink, (hids.kind?_id hparent).trans (congrArg some halternation)⟩
  · obtain ⟨site, hsite, rfl, hkind⟩ := exists_of_kind? hfound
    obtain ⟨child, kind, hchildren, hchild, hrepeatable⟩ :=
      exists_child_of_repetition h hsite hkind
    rw [hids.childIds_id hsite]
    refine ⟨child, hchildren, ?_⟩
    cases kind with
    | literal letter => exact .inl ⟨letter, hchild⟩
    | group number => exact .inr (.inl ⟨number, hchild⟩)
    | expressionRef group => exact .inr (.inr ⟨group, hchild⟩)
    | sequence | alternation | branch | repetition | stringRef _ => cases hrepeatable

/-- In `(a|(?:b*|)*)*\1` the alternation 9 stands in the alternation 3, and the repetition 12 in the
repetition 13. What is put around something is created after it. -/
theorem isLinked_of_parse_nested :
    ∃ pattern, Pattern.parse "(a|(?:b*|)*)*\\1" = .ok pattern ∧ pattern.IsLinked ∧
      (pattern.kind? 3 = some .alternation ∧ pattern.childIds 3 = [4, 5] ∧
        pattern.childIds 4 = [2] ∧ pattern.childIds 5 = [12]) ∧
      (pattern.kind? 9 = some .alternation ∧ pattern.childIds 9 = [10, 11] ∧
        pattern.childIds 10 = [8] ∧ pattern.childIds 11 = []) ∧
      (pattern.kind? 12 = some .repetition ∧ pattern.childIds 12 = [6]) ∧
      (pattern.kind? 13 = some .repetition ∧ pattern.childIds 13 = [1]) ∧
      pattern.ancestorIds 9 = [6, 12, 5, 3, 1, 13, 0] := by
  obtain ⟨pattern, hparse, hnodes⟩ : ∃ pattern, Pattern.parse "(a|(?:b*|)*)*\\1" = .ok pattern ∧
      (pattern.kind? 3 = some .alternation ∧ pattern.childIds 3 = [4, 5] ∧
        pattern.childIds 4 = [2] ∧ pattern.childIds 5 = [12]) ∧
      (pattern.kind? 9 = some .alternation ∧ pattern.childIds 9 = [10, 11] ∧
        pattern.childIds 10 = [8] ∧ pattern.childIds 11 = []) ∧
      (pattern.kind? 12 = some .repetition ∧ pattern.childIds 12 = [6]) ∧
      (pattern.kind? 13 = some .repetition ∧ pattern.childIds 13 = [1]) ∧
      pattern.ancestorIds 9 = [6, 12, 5, 3, 1, 13, 0] := ⟨_, rfl, by decide +kernel⟩
  exact ⟨pattern, hparse, isLinked_of_parse hparse, hnodes⟩

end Pattern

end Backref
