import Backref.Proofs.Pattern.Resolution

/-!
# What lies below a node

Whether a node lies below another is asked of its ancestors, but it can be read elsewhere as well.
`Pattern.IsNested` says where: a node lies below a group exactly when it starts between the
parentheses of the group, and it lies below any node exactly when lists of children lead there
(`Pattern.isNested_of_parse`).
-/

namespace Backref

namespace Node

variable {text : List Char} {node : Node} {start stop : Nat}

/-- What lies below a node stands between what the node writes before and after its children. -/
theorem Spans.exists_span_below (h : node.Spans text start stop) :
    ∀ inner ∈ subtrees node.children, ∃ start' stop', inner.Spans text start' stop' ∧
      start + node.kind.opening.length ≤ start' ∧ stop' + node.kind.closing.length ≤ stop := by
  obtain ⟨label, kind, children⟩ := node
  cases children with
  | nil => exact fun _ hinner => nomatch hinner
  | cons first others =>
      obtain ⟨_, inside, middle, last, hopening, hfirst, hothers, hclosing⟩ := h
      have hmiddle := hfirst.position_bounds first first.mem_subtree_self
      have hposition := hfirst.position_eq
      have hlast := hothers.position_bounds.1
      have hstart := hopening.stop_eq
      have hstop := hclosing.stop_eq
      intro inner hinner
      show ∃ start' stop', inner.Spans text start' stop' ∧ start + kind.opening.length ≤ start' ∧
        stop' + kind.closing.length ≤ stop
      rcases List.mem_append.1 hinner with hinner | hinner
      · obtain ⟨start', stop', hspan, hlow, hhigh⟩ := hfirst.exists_span inner hinner
        exact ⟨start', stop', hspan.spans, by omega, by omega⟩
      · obtain ⟨start', stop', hspan, hlow, hhigh⟩ := hothers.exists_span inner hinner
        exact ⟨start', stop', hspan.spans, by omega, by omega⟩

end Node

namespace Pattern

variable {text : String} {pattern : Pattern} {site owner group : Site} {number : Option Nat}

/-- How the nodes of the pattern lie below one another, in its text and along its links. -/
structure IsNested (pattern : Pattern) (text : List Char) : Prop where
  /-- A group starts at its `(`. What starts after that, up to the `)` that closes it, lies below
  the group, and nothing else does. -/
  group (group : Site) (hgroup : group ∈ pattern.sites) (number : Option Nat)
    (hkind : group.kind = .group number) :
    text[group.position]? = some '(' ∧ ∃ closing,
      closing? text group.position = some closing ∧ text[closing]? = some ')' ∧
        ∀ site ∈ pattern.sites, site.isBelow group.id ↔
          group.position < site.position ∧ site.position ≤ closing
  /-- A node lies below another exactly when lists of children lead from the other one to it. -/
  isBelow_iff (owner site : Site) (howner : owner ∈ pattern.sites) (hsite : site ∈ pattern.sites) :
    site.isBelow owner.id ↔
      Relation.TransGen (fun owner child => child ∈ pattern.childIds owner) owner.id site.id

/-! ## Links -/

namespace HasDenseIds

/-- The ancestors of a node are its parent and the ancestors of that one. -/
theorem ancestorIds_eq_cons (h : pattern.HasDenseIds) {id owner : Nat}
    (hparent : pattern.parent? id = some owner) :
    pattern.ancestorIds id = owner :: pattern.ancestorIds owner := by
  obtain ⟨site, hfound, hup⟩ := Option.bind_eq_some_iff.1 hparent
  obtain ⟨hsite, rfl⟩ := mem_sites_of_site? hfound
  obtain ⟨parent, hhead, rfl⟩ := Option.map_eq_some_iff.1 hup
  obtain ⟨up, hancestors⟩ := List.head?_eq_some_iff.1 hhead
  have hparentIds : pattern.ancestorIds parent.id = up.map Node.id :=
    h.ancestorIds_id (mem_sites_of_parent hsite hancestors).1
  rw [h.ancestorIds_id hsite, Site.ancestorIds, hancestors, List.map_cons, hparentIds]

/-- The nodes above a site are its parent and those above the parent. -/
theorem ancestors_eq_path (h : pattern.HasDenseIds) (hsite : site ∈ pattern.sites)
    (howner : owner ∈ pattern.sites) (hparent : site.parent? = some owner.id) :
    site.ancestors = owner.path := by
  obtain ⟨parent, hhead, hid⟩ := Option.map_eq_some_iff.1 hparent
  obtain ⟨up, hancestors⟩ := List.head?_eq_some_iff.1 hhead
  obtain rfl := h.eq_of_id_eq (mem_sites_of_parent hsite hancestors).1 howner hid
  exact hancestors

/-- The ancestors of a site are those nodes from which lists of children lead to it. -/
theorem mem_ancestorIds_iff_transGen (h : pattern.HasDenseIds) {owner : Nat}
    (hsite : site ∈ pattern.sites) : owner ∈ site.ancestorIds ↔
      Relation.TransGen (fun owner child => child ∈ pattern.childIds owner) owner site.id := by
  constructor
  · intro howner
    obtain ⟨node, ancestors⟩ := site
    induction ancestors generalizing node with
    | nil => cases howner
    | cons parent up ih =>
        have hstep : node.id ∈ pattern.childIds parent.id :=
          h.mem_childIds_iff.2 (h.parent?_id hsite)
        rcases List.mem_cons.1 howner with rfl | howner
        · exact .single hstep
        · exact (ih parent (mem_sites_of_parent hsite rfl).1 howner).tail hstep
  · intro hpath
    rw [← h.ancestorIds_id hsite]
    generalize site.id = id at hpath
    induction hpath with
    | single hstep =>
        rw [h.ancestorIds_eq_cons (h.mem_childIds_iff.1 hstep)]
        exact List.mem_cons_self
    | tail _ hstep ih =>
        rw [h.ancestorIds_eq_cons (h.mem_childIds_iff.1 hstep)]
        exact List.mem_cons_of_mem _ ih

/-- The nodes above a node, and the node itself, are above what lies below it. -/
theorem path_suffix (h : pattern.HasDenseIds) (hsite : site ∈ pattern.sites)
    (howner : owner ∈ pattern.sites) (hbelow : site.isBelow owner.id) :
    owner.path <:+ site.ancestors := by
  obtain ⟨inner, hinner, hid⟩ := List.mem_map.1 (List.contains_iff_mem.1 hbelow)
  obtain ⟨front, up, hancestors⟩ := List.append_of_mem hinner
  have hpath : site.path = (site.node :: front) ++ inner :: up := by
    rw [Site.path, hancestors, List.cons_append]
  obtain rfl := h.eq_of_id_eq (mem_sites_of_path hsite hpath).1 howner hid
  exact ⟨front, hancestors.symm⟩

/-- What lies below a site are the subtrees of its children. -/
theorem isBelow_iff_mem_subtrees (h : pattern.HasDenseIds) (hsite : site ∈ pattern.sites)
    (howner : owner ∈ pattern.sites) :
    site.isBelow owner.id ↔ site.node ∈ Node.subtrees owner.node.children := by
  constructor
  · intro hbelow
    obtain ⟨front, hancestors⟩ := h.path_suffix hsite howner hbelow
    have hpath : site.path = (site.node :: front) ++ owner.node :: owner.ancestors := by
      rw [Site.path, ← hancestors, List.cons_append, Site.path]
    have hmem := (mem_sites_of_path hsite hpath).2
    rw [Node.subtree_eq] at hmem
    refine (List.mem_cons.1 hmem).resolve_left fun hself => ?_
    -- A node is not its own ancestor.
    obtain rfl := h.eq_of_id_eq hsite howner (congrArg Node.id hself)
    exact h.id_notMem_ancestorIds hsite (List.contains_iff_mem.1 hbelow)
  · intro hmem
    have hsites : (Node.childSitesOnto owner.node.children owner.path []).map Site.node =
        Node.subtrees owner.node.children := by
      rw [Node.map_node_childSitesOnto]
      exact List.append_nil _
    rw [← hsites] at hmem
    obtain ⟨below, hbelow, hnode⟩ := List.mem_map.1 hmem
    obtain ⟨child, hchild, hoccurs⟩ := Node.exists_occurs_of_mem_childSitesOnto hbelow
    have hbelowSite : below ∈ pattern.sites :=
      mem_sites.2 ((mem_sites.1 (mem_sites_of_child howner hchild)).trans hoccurs)
    obtain rfl := h.eq_of_id_eq hbelowSite hsite (congrArg Node.id hnode)
    exact List.contains_iff_mem.2
      (List.mem_map_of_mem (hoccurs.ancestors_suffix.mem List.mem_cons_self))

end HasDenseIds

/-! ## Parentheses -/

section Parsed

variable (h : Pattern.parse text = .ok pattern)
include h

/-- A group starts at its `(` and ends at the `)` that closes it. -/
theorem exists_closing_of_group (hgroup : group ∈ pattern.sites)
    (hkind : group.kind = .group number) :
    text.toList[group.position]? = some '(' ∧ ∃ closing,
      closing? text.toList group.position = some closing ∧ text.toList[closing]? = some ')' ∧
        group.node.SpansAmong text.toList pattern.root.subtree group.position (closing + 1) := by
  have hnode : group.node ∈ pattern.root.subtree := mem_subtree_root.2 ⟨_, hgroup, rfl⟩
  obtain ⟨stop, hspan, _⟩ := exists_span_of_parse h hnode
  have hletters := hasLetters_of_parse h hnode
  obtain ⟨inside, last, hopen, hclose, _⟩ := hspan.spans.exists_inside hletters
  obtain ⟨closing, hclosing, rfl⟩ := hspan.spans.closing?_eq hkind hletters
  rw [show group.node.kind = .group number from hkind] at hopen hclose
  obtain rfl : closing = last := Nat.succ.inj hclose.stop_eq
  refine ⟨?_, closing, hclosing, ?_, hspan⟩
  · show text.toList[group.node.position]? = some '('
    have hhead := congrArg List.head? hopen.drop_eq
    rw [List.head?_drop] at hhead
    rw [hhead]
    cases number <;> rfl
  · have hhead := congrArg List.head? hclose.drop_eq
    rwa [List.head?_drop] at hhead

/-- What starts after the `(` of a group, up to its `)`, lies below the group. -/
theorem isBelow_iff_position (hgroup : group ∈ pattern.sites) (hkind : group.kind = .group number)
    {closing : Nat} (hspan : group.node.SpansAmong text.toList pattern.root.subtree group.position
      (closing + 1)) (hsite : site ∈ pattern.sites) :
    site.isBelow group.id ↔ group.position < site.position ∧ site.position ≤ closing := by
  rw [(hasDenseIds_of_parse h).isBelow_iff_mem_subtrees hsite hgroup]
  constructor
  · intro hmem
    obtain ⟨start, stop, hsiteSpan, hlow, hhigh⟩ :=
      hspan.spans.exists_span_below site.node hmem
    rw [show group.node.kind = .group number from hkind] at hlow hhigh
    have hbounds := hsiteSpan.position_bounds site.node site.node.mem_subtree_self
    have hstart := hsiteSpan.position_eq
    have hopening : 0 < (Kind.group number).opening.length := by
      cases number <;> exact Nat.zero_lt_succ _
    have hclosing : (Kind.group number).closing.length = 1 := rfl
    change group.position < site.node.position ∧ site.node.position ≤ closing
    omega
  · intro hbetween
    have hnode : site.node ∈ pattern.root.subtree := mem_subtree_root.2 ⟨_, hsite, rfl⟩
    change group.position < site.node.position ∧ site.node.position ≤ closing at hbetween
    have hmem : site.node ∈ group.node.subtree :=
      (hspan.apart site.node hnode).resolve_right (by omega)
    rw [Node.subtree_eq] at hmem
    refine (List.mem_cons.1 hmem).resolve_left fun hself => ?_
    rw [hself] at hbetween
    exact Nat.lt_irrefl _ hbetween.1

end Parsed

/-- The nodes of a parsed pattern lie below one another as its parentheses are nested, and as its
lists of children lead from one to another. -/
theorem isNested_of_parse (h : Pattern.parse text = .ok pattern) :
    pattern.IsNested text.toList where
  group group hgroup number hkind := by
    obtain ⟨hopening, closing, hclosing, hclose, hspan⟩ := exists_closing_of_group h hgroup hkind
    exact ⟨hopening, closing, hclosing, hclose, fun site hsite =>
      isBelow_iff_position h hgroup hkind hspan hsite⟩
  isBelow_iff owner site howner hsite :=
    List.contains_iff_mem.trans ((hasDenseIds_of_parse h).mem_ancestorIds_iff_transGen hsite)

/-- In `((a)*|)*\1` the outer repetition starts where the first group starts and does not lie below
it, while the empty last branch stands at the `)` of the group and does. -/
theorem isNested_of_parse_empty_branch :
    ∃ pattern, Pattern.parse "((a)*|)*\\1" = .ok pattern ∧
      pattern.IsNested "((a)*|)*\\1".toList ∧
      ∃ group ∈ pattern.sites, ∃ outer ∈ pattern.sites, ∃ last ∈ pattern.sites,
        (group.kind = .group (some 1) ∧ group.position = 0 ∧
          closing? "((a)*|)*\\1".toList 0 = some 6) ∧
        (outer.kind = .repetition ∧ outer.position = 0 ∧ ¬outer.isBelow group.id) ∧
        last.kind = .branch ∧ last.childIds = [] ∧ last.position = 6 ∧ last.isBelow group.id := by
  obtain ⟨pattern, hparse, group, hgroup, outer, houter, last, hlast, ⟨hkind, hposition⟩,
      ⟨houterKind, houterPosition⟩, hlastKind, hchildren, hlastPosition⟩ :
      ∃ pattern, Pattern.parse "((a)*|)*\\1" = .ok pattern ∧
        ∃ group ∈ pattern.sites, ∃ outer ∈ pattern.sites, ∃ last ∈ pattern.sites,
          (group.kind = .group (some 1) ∧ group.position = 0) ∧
          (outer.kind = .repetition ∧ outer.position = 0) ∧
          last.kind = .branch ∧ last.childIds = [] ∧ last.position = 6 :=
    ⟨_, rfl, by decide +kernel⟩
  have hnested := isNested_of_parse hparse
  obtain ⟨_, closing, hclosing, _, hbelow⟩ := hnested.group group hgroup (some 1) hkind
  have hsix : closing? "((a)*|)*\\1".toList 0 = some 6 := by decide
  rw [hposition] at hclosing hbelow
  obtain rfl := Option.some.inj (hsix.symm.trans hclosing)
  refine ⟨pattern, hparse, hnested, group, hgroup, outer, houter, last, hlast,
    ⟨hkind, hposition, hsix⟩, ⟨houterKind, houterPosition, ?_⟩, hlastKind, hchildren, hlastPosition,
    ?_⟩
  · rw [hbelow outer houter, houterPosition]
    decide
  · rw [hbelow last hlast, hlastPosition]
    decide

end Pattern

end Backref
