import Backref.Proofs.Pattern.GroupTable
import Backref.Proofs.Reference.Exactness

/-!
# The structural rule is stricter

A pattern that the structural rule accepts needs nothing, so the path-sensitive rule finds no
violation in it. A group that a node needs is read at a site before which no such group is certain
to have matched (`Node.someLacks_of_mem_needs`). The structural rule asks for the opposite: the
group stands before the reference, on every way and not around it.
-/

namespace Backref

/-- Some nodes gain what one of them gains. -/
theorem Node.gains_subset_gainsThrough {node : Node} {nodes : List Node} (h : node ∈ nodes) :
    node.gains ⊆ Node.gainsThrough nodes := by
  induction nodes with
  | nil => cases h
  | cons head nodes ih =>
      rw [gainsThrough]
      rcases List.mem_cons.1 h with rfl | h
      · exact Finset.subset_union_left
      · exact (ih h).trans Finset.subset_union_right

/-- A node that must not be left out gains what one of its children gains. -/
theorem Node.gains_subset_of_child {node child : Node} (hnode : node.IsFormed)
    (hoptional : ¬ node.kind.isOptional) (hchild : child ∈ node.children) :
    child.gains ⊆ node.gains := by
  obtain ⟨label, kind, children⟩ := node
  have hthrough : child.gains ⊆ gainsThrough children := gains_subset_gainsThrough hchild
  cases kind with
  | sequence => exact hthrough
  | branch => exact hthrough
  | group number =>
      cases number with
      | none => exact hthrough
      | some group => exact hthrough.trans (Finset.subset_insert group _)
  | alternation => exact absurd rfl hoptional
  | repetition => exact absurd rfl hoptional
  | literal letter =>
      rw [show children = [] from hnode] at hchild
      cases hchild
  | expressionRef group =>
      rw [show children = [] from hnode] at hchild
      cases hchild
  | stringRef group =>
      rw [show children = [] from hnode] at hchild
      cases hchild

/-- What occurs below an alternation or a repetition may be left out. -/
theorem Node.Occurs.isConditional {node child : Node} {ancestors : List Node} {site : Site}
    (h : child.Occurs (node :: ancestors) site) (hoptional : node.kind.isOptional) :
    site.isConditional :=
  List.any_eq_true.2 ⟨node, h.ancestors_suffix.mem List.mem_cons_self, hoptional⟩

/-- A node gains every group that occurs in it outside alternations and repetitions. -/
theorem Node.Occurs.mem_gains {node : Node} {ancestors : List Node} {site : Site} {group : Nat}
    (h : node.Occurs ancestors site) (hformed : ∀ inner ∈ node.subtree, inner.IsFormed)
    (hkind : site.kind = .group (some group)) (hcertain : ¬ site.isConditional) :
    group ∈ node.gains := by
  induction h with
  | self node ancestors =>
      obtain ⟨label, kind, children⟩ := node
      obtain rfl : kind = .group (some group) := hkind
      exact Finset.mem_insert_self group _
  | @child node child ancestors site hchild hoccurs ih =>
      have hbelow : ∀ inner ∈ child.subtree, inner.IsFormed := fun inner hinner =>
        hformed inner (Node.mem_subtree_of_child hchild hinner)
      have hgains := ih hbelow hkind hcertain
      refine Node.gains_subset_of_child (hformed node node.mem_subtree_self) ?_ hchild hgains
      exact fun hoptional => hcertain (hoccurs.isConditional hoptional)

/-- A site reads a group of which none is certain to have matched: among the sites before it each
such group may be left out, or the site lies in it. -/
structure Site.Lacks (site : Site) (group : Nat) (front : List Site) : Prop where
  kind_eq : site.kind = .stringRef group
  unsafe_of_mem : ∀ other ∈ front, other.kind = .group (some group) →
    other.isConditional ∨ other.node ∈ site.ancestors

/-- Sites that bring no such group may come before. -/
theorem Site.Lacks.append {site : Site} {group : Nat} {front : List Site}
    (h : site.Lacks group front) (before : List Site)
    (hbefore : ∀ other ∈ before, other.kind = .group (some group) →
      other.isConditional ∨ other.node ∈ site.ancestors) : site.Lacks group (before ++ front) := by
  refine ⟨h.kind_eq, fun other hother => ?_⟩
  rcases List.mem_append.1 hother with hother | hother
  · exact hbefore other hother
  · exact h.unsafe_of_mem other hother

/-- Among the given sites one lacks the group. -/
def Site.SomeLacks (group : Nat) (sites : List Site) : Prop :=
  ∃ front site back, sites = front ++ site :: back ∧ site.Lacks group front

/-- A site that lacks a group below a node lacks it among the sites of the node. -/
theorem Node.someLacks_of_children {node : Node} {ancestors : List Node} {group : Nat}
    (h : Site.SomeLacks group (Node.childSitesOnto node.children (node :: ancestors) [])) :
    Site.SomeLacks group (node.sitesOnto ancestors []) := by
  obtain ⟨front, site, back, hsites, hlacks⟩ := h
  refine ⟨⟨node, ancestors⟩ :: front, site, back, ?_, hlacks.append [_] ?_⟩
  · rw [Node.sitesOnto_eq_cons, hsites]
    rfl
  · intro other hother _
    obtain rfl := List.mem_singleton.1 hother
    have hsite : site ∈ Node.childSitesOnto node.children (node :: ancestors) [] :=
      hsites ▸ List.mem_append_right _ List.mem_cons_self
    obtain ⟨child, _, hoccurs⟩ := Node.exists_occurs_of_mem_childSitesOnto hsite
    exact .inr (hoccurs.ancestors_suffix.mem List.mem_cons_self)

/-- Sites after one that lacks the group do not matter. -/
theorem Site.SomeLacks.append_right {group : Nat} {sites : List Site}
    (h : Site.SomeLacks group sites) (after : List Site) :
    Site.SomeLacks group (sites ++ after) := by
  obtain ⟨front, site, back, rfl, hlacks⟩ := h
  exact ⟨front, site, back ++ after, by rw [List.append_assoc, List.cons_append], hlacks⟩

/-- Sites that may be left out, as far as they are such groups, may come before. -/
theorem Site.SomeLacks.append_left {group : Nat} {sites : List Site}
    (h : Site.SomeLacks group sites) (before : List Site)
    (hbefore : ∀ other ∈ before, other.kind = .group (some group) → other.isConditional) :
    Site.SomeLacks group (before ++ sites) := by
  obtain ⟨front, site, back, rfl, hlacks⟩ := h
  refine ⟨before ++ front, site, back, (List.append_assoc _ _ _).symm, hlacks.append before ?_⟩
  exact fun other hother hkind => .inl (hbefore other hother hkind)

mutual

/-- A group that a node needs is lacking somewhere in it. -/
theorem Node.someLacks_of_mem_needs {group : Nat} : ∀ {node : Node} {ancestors : List Node},
    (∀ inner ∈ node.subtree, inner.IsFormed) → group ∈ node.needs →
      Site.SomeLacks group (node.sitesOnto ancestors [])
  | ⟨label, kind, children⟩, ancestors, hformed, h => by
      have hchildren : AllFormed children := fun inner hinner =>
        hformed inner (Node.mem_subtree_of_mem_subtrees hinner)
      cases kind with
      | stringRef read =>
          obtain rfl := Finset.mem_singleton.1 h
          exact ⟨[], _, _, Node.sitesOnto_eq_cons _ _, rfl, fun _ hother => nomatch hother⟩
      | alternation =>
          exact Node.someLacks_of_children (Node.someLacks_of_mem_needsOver rfl hchildren h)
      | sequence =>
          exact Node.someLacks_of_children (Node.someLacks_of_mem_needsThrough hchildren h)
      | branch =>
          exact Node.someLacks_of_children (Node.someLacks_of_mem_needsThrough hchildren h)
      | group number =>
          exact Node.someLacks_of_children (Node.someLacks_of_mem_needsThrough hchildren h)
      | repetition =>
          exact Node.someLacks_of_children (Node.someLacks_of_mem_needsThrough hchildren h)
      | literal letter => cases h
      | expressionRef number => cases h

/-- A group that some nodes need one after the other is lacking somewhere in them. -/
theorem Node.someLacks_of_mem_needsThrough {group : Nat} : ∀ {nodes ancestors : List Node},
    AllFormed nodes → group ∈ Node.needsThrough nodes →
      Site.SomeLacks group (Node.childSitesOnto nodes ancestors [])
  | [], _, _, h => nomatch h
  | node :: nodes, ancestors, hformed, h => by
      obtain ⟨hnode, hnodes⟩ := hformed.of_cons
      rw [Node.childSitesOnto_cons]
      rw [Node.needsThrough, Finset.mem_union, Finset.mem_sdiff] at h
      rcases h with hneeds | ⟨hneeds, hgains⟩
      · exact (Node.someLacks_of_mem_needs hnode hneeds).append_right _
      · -- The first node does not gain the group, so it may leave out each such group.
        refine (Node.someLacks_of_mem_needsThrough hnodes hneeds).append_left _ ?_
        intro other hother hkind
        by_contra hcertain
        exact hgains ((Node.occurs_of_mem_sitesOnto hother).mem_gains hnode hkind hcertain)

/-- A group that one of the branches of an alternation needs is lacking somewhere in them. -/
theorem Node.someLacks_of_mem_needsOver {group : Nat} : ∀ {nodes ancestors : List Node}
    {choice : Node}, choice.kind.isOptional → AllFormed nodes → group ∈ Node.needsOver nodes →
      Site.SomeLacks group (Node.childSitesOnto nodes (choice :: ancestors) [])
  | [], _, _, _, _, h => nomatch h
  | node :: nodes, ancestors, choice, hchoice, hformed, h => by
      obtain ⟨hnode, hnodes⟩ := hformed.of_cons
      rw [Node.childSitesOnto_cons]
      rw [Node.needsOver, Finset.mem_union] at h
      rcases h with hneeds | hneeds
      · exact (Node.someLacks_of_mem_needs hnode hneeds).append_right _
      · refine (Node.someLacks_of_mem_needsOver hchoice hnodes hneeds).append_left _ ?_
        exact fun other hother _ => (Node.occurs_of_mem_sitesOnto hother).isConditional hchoice

end

namespace Pattern

variable {text : String} {pattern : Pattern}

/-- The structural rule accepts a pattern exactly if every string reference may see its group. -/
theorem checkPlacement_eq_ok_iff :
    pattern.checkPlacement = .ok () ↔ ∀ site ∈ pattern.sites, ∀ number,
      site.kind = .stringRef number →
        ∃ group, pattern.groups.lookup number = some group ∧ site.maySee group := by
  have hnone : pattern.checkPlacement = .ok () ↔
      pattern.sites.findSome? (Site.misplaced? pattern.groups) = none := by
    rw [checkPlacement]
    cases pattern.sites.findSome? (Site.misplaced? pattern.groups) <;> simp
  rw [hnone, List.findSome?_eq_none_iff]
  refine forall₂_congr fun site _ => ?_
  unfold Site.misplaced?
  split
  · next number hkind =>
      rw [ite_eq_left_iff, imp_iff_not_or, not_not, Option.any_eq_true]
      simp [hkind]
  · next hother => exact iff_of_true rfl fun number hkind => absurd hkind (hother number)

/-- When a group with the number stands among the first sites, the group of that number is found
there. -/
theorem mem_of_lookup_groups {front back : List Site} {number : Nat} {group found : Site}
    (hsites : pattern.sites = front ++ back) (hgroup : group ∈ front)
    (hkind : group.kind = .group (some number))
    (hfound : pattern.groups.lookup number = some found) :
    found ∈ front ∧ found.kind = .group (some number) := by
  have hnumbered : (number, group) ∈ front.filterMap Site.numbered? :=
    List.mem_filterMap.2 ⟨group, hgroup, Site.numbered?_eq_some_iff.2 ⟨rfl, hkind⟩⟩
  have hfront : ((front.filterMap Site.numbered?).lookup number).isSome :=
    List.lookup_isSome_iff.2 ⟨_, hnumbered, beq_self_eq_true number⟩
  replace hfound : (front.filterMap Site.numbered?).lookup number = some found := by
    rw [show pattern.groups = pattern.sites.filterMap Site.numbered? from rfl, hsites,
      List.filterMap_append, List.lookup_append] at hfound
    rwa [Option.or_of_isSome hfront] at hfound
  obtain ⟨before, after, hsplit, _⟩ := List.lookup_eq_some_iff.1 hfound
  have hmem : (number, found) ∈ front.filterMap Site.numbered? :=
    hsplit ▸ List.mem_append_right before List.mem_cons_self
  obtain ⟨site, hsite, heq⟩ := List.mem_filterMap.1 hmem
  obtain ⟨rfl, hfoundKind⟩ := Site.numbered?_eq_some_iff.1 heq
  exact ⟨hsite, hfoundKind⟩

/-- The root of a pattern that the structural rule accepts needs nothing. -/
theorem needs_eq_empty_of_checkPlacement (hparse : Pattern.parse text = .ok pattern)
    (h : pattern.checkPlacement = .ok ()) : pattern.root.needs = ∅ := by
  refine Finset.subset_empty.1 fun number hneeds => ?_
  have hformed : ∀ inner ∈ pattern.root.subtree, inner.IsFormed :=
    fun inner hinner => isFormed_of_parse hparse hinner
  obtain ⟨front, site, back, hsites, hlacks⟩ : Site.SomeLacks number pattern.sites :=
    Node.someLacks_of_mem_needs hformed hneeds
  -- The parser has made sure that the group opens before the reference.
  have hnodes : pattern.root.subtree =
      front.map Site.node ++ site.node :: back.map Site.node := by
    rw [← pattern.map_node_sites, hsites, List.map_append, List.map_cons]
  obtain ⟨_, hmem, hopenedKind⟩ := exists_group_of_stringRef hparse hnodes hlacks.kind_eq
  obtain ⟨opened, hopened, rfl⟩ := List.mem_map.1 hmem
  -- The structural rule has made sure that it is certain, and closed.
  have hsite : site ∈ pattern.sites := hsites ▸ List.mem_append_right _ List.mem_cons_self
  obtain ⟨group, hlookup, hsees⟩ :=
    checkPlacement_eq_ok_iff.1 h site hsite number hlacks.kind_eq
  obtain ⟨hgroup, hgroupKind⟩ := mem_of_lookup_groups hsites hopened hopenedKind hlookup
  rw [Site.maySee, Bool.and_eq_true, Bool.not_eq_true', Bool.not_eq_true'] at hsees
  obtain ⟨hcertain, hclosed⟩ := hsees
  rcases hlacks.unsafe_of_mem group hgroup hgroupKind with hconditional | hinside
  · rw [hcertain] at hconditional
    cases hconditional
  · have hbelow : site.isBelow group.id :=
      List.contains_iff_mem.2 (List.mem_map_of_mem hinside)
    rw [hclosed] at hbelow
    cases hbelow

end Pattern

namespace Config

/-- Where the structural rule accepts, the path-sensitive rule accepts or gives up, and with a large
limit it accepts. -/
theorem pathSensitive_of_structural {text : String} {pattern : Pattern} {limit workers : Nat}
    (h : (Config.mk limit workers .structural).validate text = .ok pattern) :
    (∀ maxPaths,
      (Config.mk maxPaths 1 .pathSensitive).validate text = .ok pattern ∨
        (Config.mk maxPaths 1 .pathSensitive).validate text = .error (.pathLimit maxPaths)) ∧
    ∃ bound, ∀ maxPaths, bound ≤ maxPaths →
      (Config.mk maxPaths 1 .pathSensitive).validate text = .ok pattern := by
  obtain ⟨hparse, hcheck⟩ := parse_of_validate h
  have hneeds := Pattern.needs_eq_empty_of_checkPlacement hparse hcheck
  have hnever := Pattern.neverViolates_of_needs hneeds
  refine ⟨fun maxPaths => ?_, pattern.forkBound, fun maxPaths hbound => ?_⟩
  · by_cases hlimit :
        (Config.mk maxPaths 1 .pathSensitive).validate text = .error (.pathLimit maxPaths)
    · exact .inr hlimit
    · exact .inl (validate_eq_ok_of_ne_pathLimit hparse hlimit hnever)
  · exact validate_eq_ok_of_neverViolates hparse hbound hnever

/-- In `(a(?:b|c)*)(?:\1|(d)*(?:e|))*\1` the first group stands outside all loops and
alternations, although a loop stands in it. -/
theorem pathSensitive_of_structural_nested :
    ∃ pattern,
      (Config.mk 0 1 .structural).validate "(a(?:b|c)*)(?:\\1|(d)*(?:e|))*\\1" = .ok pattern ∧
      (∀ maxPaths,
        (Config.mk maxPaths 1 .pathSensitive).validate "(a(?:b|c)*)(?:\\1|(d)*(?:e|))*\\1" =
            .ok pattern ∨
          (Config.mk maxPaths 1 .pathSensitive).validate "(a(?:b|c)*)(?:\\1|(d)*(?:e|))*\\1" =
            .error (.pathLimit maxPaths)) ∧
      ∃ bound, ∀ maxPaths, bound ≤ maxPaths →
        (Config.mk maxPaths 1 .pathSensitive).validate "(a(?:b|c)*)(?:\\1|(d)*(?:e|))*\\1" =
          .ok pattern := by
  obtain ⟨pattern, hparse, hcheck⟩ : ∃ pattern,
      Pattern.parse "(a(?:b|c)*)(?:\\1|(d)*(?:e|))*\\1" = .ok pattern ∧
        pattern.checkPlacement = .ok () := ⟨_, rfl, by decide +kernel⟩
  have hvalidate : (Config.mk 0 1 .structural).validate "(a(?:b|c)*)(?:\\1|(d)*(?:e|))*\\1" =
      .ok pattern := (validate_eq_ok_iff hparse).2 ⟨hcheck, rfl⟩
  exact ⟨pattern, hvalidate, pathSensitive_of_structural hvalidate⟩

end Config

end Backref
