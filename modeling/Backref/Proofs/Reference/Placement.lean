import Backref.Proofs.Diagnosis
import Backref.Proofs.Pattern.Enclosure

/-!
# The structural rule read off the text

The structural rule asks for the kinds of the nodes above a group. `Offends` says the same of the
text, in terms of its parentheses, bars and stars, and `Config.validate_structural` says that the
rule accepts a parsed text without offending references and otherwise reports the leftmost of them.
The rule reports the same when it goes through the nodes in the order of their identifiers
(`Pattern.checkPlacement_eq_sitesById`).
-/

namespace Backref

/-- A star follows the group that opens at the index. -/
def IsStarred (text : List Char) (opening : Nat) : Prop :=
  ∃ closing, closing? text opening = some closing ∧ text[closing + 1]? = some '*'

/-- Between the same parentheses as the group that opens at the index stands a bar. -/
def HasBarBeside (text : List Char) (opening : Nat) : Prop :=
  ∃ bar, text[bar]? = some '|' ∧ ∀ outer, Encloses text outer opening ↔ Encloses text outer bar

/-- The reference `\N` at the index stands inside of its group, or the group or one around it has a
star after it or a bar beside it. -/
def Offends (text : List Char) (number index : Nat) : Prop :=
  HasStringRef text number index ∧ ∃ opening, (captureIndices 0 text)[number - 1]? = some opening ∧
    (Encloses text opening index ∨
      ∃ outer, (outer = opening ∨ Encloses text outer opening) ∧
        (IsStarred text outer ∨ HasBarBeside text outer))

namespace Site

variable {groups : List (Nat × Site)}

/-- Whether the structural rule rejects the site. -/
def isMisplaced (groups : List (Nat × Site)) (site : Site) : Bool :=
  (site.misplaced? groups).isSome

/-- Only string references are rejected. -/
theorem isAtom_of_isMisplaced {site : Site} (h : site.isMisplaced groups) : site.kind.isAtom := by
  obtain ⟨rejection, hmisplaced⟩ := Option.isSome_iff_exists.1 h
  obtain ⟨number, hkind, _⟩ := exists_of_misplaced? hmisplaced
  rw [hkind]
  rfl

/-- The first rejection is found among the sites that are rejected. -/
theorem findSome?_filter_isMisplaced (sites : List Site) :
    (sites.filter (isMisplaced groups)).findSome? (misplaced? groups) =
      sites.findSome? (misplaced? groups) := by
  rw [← List.head?_filterMap, ← List.head?_filterMap, List.filterMap_filter]
  congr 2
  funext site
  rw [isMisplaced]
  cases site.misplaced? groups <;> rfl

end Site

namespace Pattern

variable {text : String} {pattern : Pattern} {site other owner group : Site} {number : Option Nat}
variable {index stop : Nat}

/-- What lies below an alternation or a repetition is conditional. -/
theorem HasDenseIds.isConditional_of_isBelow (h : pattern.HasDenseIds)
    (hsite : site ∈ pattern.sites) (howner : owner ∈ pattern.sites)
    (hbelow : site.isBelow owner.id) (hoptional : owner.kind.isOptional ∨ owner.isConditional) :
    site.isConditional := by
  have hsuffix := h.path_suffix hsite howner hbelow
  rcases hoptional with hoptional | hconditional
  · exact List.any_eq_true.2 ⟨owner.node, hsuffix.mem List.mem_cons_self, hoptional⟩
  · obtain ⟨inner, hinner, hkind⟩ := List.any_eq_true.1 hconditional
    exact List.any_eq_true.2 ⟨inner, hsuffix.mem (List.mem_cons_of_mem _ hinner), hkind⟩

section Parsed

variable (h : Pattern.parse text = .ok pattern)
include h

/-- The parentheses of a group enclose what lies below the group. -/
theorem encloses_group_iff (hgroup : group ∈ pattern.sites) (hkind : group.kind = .group number)
    (hsite : site ∈ pattern.sites) (hstands : site.StandsAt text.toList index) :
    Encloses text.toList group.position index ↔ site.isBelow group.id := by
  rw [encloses_iff_of_parse h hsite hstands]
  constructor
  · rintro ⟨found, hfound, ⟨own, hfoundKind⟩, hposition, hbelow⟩
    have hatom : found.kind.isAtom := by
      rw [hfoundKind]
      rfl
    have hatom' : group.kind.isAtom := by
      rw [hkind]
      rfl
    rwa [← eq_of_position_eq h hfound hgroup hatom hatom' hposition]
  · intro hbelow
    exact ⟨group, hgroup, ⟨number, hkind⟩, rfl, hbelow⟩

/-- A group stands at its `(`. -/
theorem standsAt_group (hgroup : group ∈ pattern.sites) (hkind : group.kind = .group number) :
    group.StandsAt text.toList group.position :=
  Site.standsAt_position (exists_closing_of_group h hgroup hkind).1 (by decide)

/-! ## Stars -/

/-- Of two nodes that may have a star and that end at the same index, neither starts after the
other. -/
theorem position_le_of_spans (hsite : site ∈ pattern.sites) (hother : other ∈ pattern.sites)
    (hrepeatable : site.kind.isRepeatable) (hrepeatable' : other.kind.isRepeatable)
    (hspan : site.node.Spans text.toList site.position stop)
    (hspan' : other.node.Spans text.toList other.position stop) :
    other.position ≤ site.position := by
  obtain ⟨stop', hamong, _⟩ := exists_span_of_parse h (mem_subtree_root.2 ⟨site, hsite, rfl⟩)
  obtain rfl := hamong.spans.stop_unique hspan
  rcases hamong.apart other.node (mem_subtree_root.2 ⟨other, hother, rfl⟩) with hmem | hle | hge
  · rw [Node.subtree_eq] at hmem
    rcases List.mem_cons.1 hmem with hself | hbelow
    · exact Nat.le_of_eq (congrArg Node.position hself)
    -- What lies below the first node ends before the parenthesis of that node.
    obtain ⟨start, stop, hinner, hlow, hhigh⟩ := hspan.exists_span_below other.node hbelow
    obtain rfl : start = other.position := hinner.position_eq.symm
    obtain rfl := hinner.stop_unique hspan'
    have hformed := isFormed_of_mem_sites h hsite
    cases hkind : site.node.kind with
    | group number =>
        rw [hkind] at hhigh
        exact absurd hhigh (Nat.not_succ_le_self _)
    | literal _ | expressionRef _ =>
        rw [Node.IsFormed, hkind] at hformed
        rw [hformed] at hbelow
        cases hbelow
    | sequence | alternation | branch | repetition | stringRef _ =>
        rw [show site.kind = _ from hkind] at hrepeatable
        cases hrepeatable
  · exact hle
  · have hlength := hspan'.length_le
    have hopening : 0 < other.node.kind.opening.length := Kind.length_opening_pos hrepeatable'
    change stop' ≤ other.position at hge
    omega

/-- A group with a star after it is the child of a repetition. -/
theorem isConditional_of_isStarred (hgroup : group ∈ pattern.sites)
    (hkind : group.kind = .group number) (hstarred : IsStarred text.toList group.position) :
    group.isConditional := by
  obtain ⟨closing, hclosing, hstar⟩ := hstarred
  obtain ⟨_, _, hsame, _, hspan⟩ := exists_closing_of_group h hgroup hkind
  obtain rfl := Option.some.inj (hclosing.symm.trans hsame)
  obtain ⟨repetition, hrepetition, hrepetitionKind, child, hchildren, hrepeatable, hchildSpan⟩ :=
    exists_repetition_of_star h hstar
  have hchild : ⟨child, repetition.path⟩ ∈ pattern.sites :=
    mem_sites_of_child hrepetition (hchildren ▸ List.mem_cons_self)
  have hgroupRepeatable : group.kind.isRepeatable := by
    rw [hkind]
    rfl
  -- The repetition stands around a node that ends where the group ends.
  have hposition : group.position = child.position := Nat.le_antisymm
    (position_le_of_spans h hchild hgroup hrepeatable hgroupRepeatable hchildSpan hspan.spans)
    (position_le_of_spans h hgroup hchild hgroupRepeatable hrepeatable hspan.spans hchildSpan)
  obtain rfl : group = ⟨child, repetition.path⟩ := eq_of_position_eq h hgroup hchild
    (Kind.isAtom_of_isRepeatable hgroupRepeatable) (Kind.isAtom_of_isRepeatable hrepeatable)
    hposition
  refine List.any_eq_true.2 ⟨repetition.node, List.mem_cons_self, ?_⟩
  rw [show repetition.node.kind = .repetition from hrepetitionKind]
  rfl

/-- A star follows a group that is the child of a repetition. -/
theorem isStarred_of_repetition (hgroup : group ∈ pattern.sites)
    (hkind : group.kind = .group number) {parent : Node} {up : List Node}
    (hancestors : group.ancestors = parent :: up) (hparentKind : parent.kind = .repetition) :
    IsStarred text.toList group.position := by
  obtain ⟨hparent, hchild⟩ := mem_sites_of_parent hgroup hancestors
  obtain ⟨_, closing, hclosing, _, hspan⟩ := exists_closing_of_group h hgroup hkind
  have hformed := isFormed_of_mem_sites h hparent
  rw [Node.IsFormed, hparentKind] at hformed
  obtain ⟨child, hchildren, _⟩ := hformed
  obtain rfl : group.node = child := List.mem_singleton.1 (hchildren ▸ hchild)
  obtain ⟨_, hparentSpan, _⟩ := exists_span_of_parse h (mem_subtree_root.2 ⟨_, hparent, rfl⟩)
  obtain ⟨last, hgroupSpan, hstar⟩ := hparentSpan.spans.of_repetition hparentKind hchildren
  rw [← hgroupSpan.position_eq] at hgroupSpan
  obtain rfl := hspan.spans.stop_unique hgroupSpan
  have hhead := congrArg List.head? hstar.drop_eq
  rw [List.head?_drop] at hhead
  exact ⟨closing, hclosing, hhead⟩

/-! ## Bars -/

/-- A group beside a bar lies below an alternation. -/
theorem isConditional_of_hasBarBeside (hgroup : group ∈ pattern.sites)
    (hkind : group.kind = .group number) (hbeside : HasBarBeside text.toList group.position) :
    group.isConditional := by
  have hids := hasDenseIds_of_parse h
  obtain ⟨bar, hbar, hlevel⟩ := hbeside
  obtain ⟨alternation, halternation, halternationKind, next, hnext, hposition⟩ :=
    exists_alternation_of_bar h hbar
  have hnextSite : ⟨next, alternation.path⟩ ∈ pattern.sites := mem_sites_of_child halternation hnext
  obtain ⟨owner, howner, hancestors, hchildren, hownerKind⟩ :=
    exists_owner_of_alternation h halternation halternationKind
  -- The group stands between the same parentheses as the bar, hence below the owner of the bar.
  have hbelowOwner : group.isBelow owner.id := by
    rcases hownerKind with hroot | ⟨own, hownerKind⟩
    · obtain rfl := eq_root_of_ancestors_eq_nil howner
        (ancestors_eq_nil_of_id_eq_zero h howner ((kind_eq_sequence_iff h howner).1 hroot))
      refine (hids.isBelow_iff_mem_subtrees hgroup howner).2 ?_
      have hmem := mem_subtree_root.2 ⟨group, hgroup, rfl⟩
      rw [Node.subtree_eq] at hmem
      refine (List.mem_cons.1 hmem).resolve_left fun hself => ?_
      cases hkind.symm.trans ((congrArg Node.kind hself).trans hroot)
    · refine (encloses_group_iff h howner hownerKind hgroup (standsAt_group h hgroup hkind)).1 ?_
      refine (hlevel owner.position).2 ((encloses_group_iff h howner hownerKind hnextSite
        (Site.standsAt_bar hbar hposition)).2 (List.contains_iff_mem.2 ?_))
      exact List.mem_cons_of_mem _ (hancestors ▸ List.mem_cons_self)
  have hmem := (hids.isBelow_iff_mem_subtrees hgroup howner).1 hbelowOwner
  rw [hchildren, Node.subtrees, Node.subtrees, List.append_nil, Node.subtree_eq] at hmem
  refine hids.isConditional_of_isBelow hgroup halternation
    ((hids.isBelow_iff_mem_subtrees hgroup halternation).2 ?_) (.inl ?_)
  · refine (List.mem_cons.1 hmem).resolve_left fun hself => ?_
    cases hkind.symm.trans ((congrArg Node.kind hself).trans halternationKind)
  · rw [halternationKind]
    rfl

/-- Beside a group that is an item of a branch stands a bar. -/
theorem hasBarBeside_of_branch (hgroup : group ∈ pattern.sites)
    (hkind : group.kind = .group number) {parent : Node} {up : List Node}
    (hancestors : group.ancestors = parent :: up) (hparentKind : parent.kind = .branch) :
    HasBarBeside text.toList group.position := by
  have hids := hasDenseIds_of_parse h
  have hparent := (mem_sites_of_parent hgroup hancestors).1
  obtain ⟨alternation, halternation, hlink, halternationKind⟩ :=
    exists_parent_of_branch h hparent hparentKind
  obtain rfl : up = alternation.path := hids.ancestors_eq_path hparent halternation hlink
  have hformed := isFormed_of_mem_sites h halternation
  rw [Node.IsFormed, show alternation.node.kind = .alternation from halternationKind] at hformed
  obtain ⟨first, second, others, hchildren⟩ : ∃ first second others,
      alternation.node.children = first :: second :: others := by
    obtain ⟨first, rest, hchildren⟩ : ∃ first rest, alternation.node.children = first :: rest :=
      List.exists_cons_of_length_pos (by omega)
    rw [hchildren, List.length_cons] at hformed
    obtain ⟨second, others, rfl⟩ : ∃ second others, rest = second :: others :=
      List.exists_cons_of_length_pos (by omega)
    exact ⟨first, second, others, hchildren⟩
  have hsecond : ⟨second, alternation.path⟩ ∈ pattern.sites :=
    mem_sites_of_child halternation (by rw [hchildren]; simp)
  obtain ⟨bar, _, hbar, hposition⟩ :=
    position_branch_of_parse h halternation halternationKind
      (show _ = [] ++ first :: second :: others from hchildren)
  refine ⟨bar, hbar, fun outer => ?_⟩
  rw [encloses_iff_of_parse h hgroup (standsAt_group h hgroup hkind),
    encloses_iff_of_parse h hsecond (Site.standsAt_bar hbar hposition)]
  -- Above the group stand its branch and what is above the second branch.
  have hids' : group.ancestorIds =
      parent.id :: Site.ancestorIds ⟨second, alternation.path⟩ := by
    rw [Site.ancestorIds, hancestors]
    rfl
  refine exists_congr fun found => and_congr_right fun hfound =>
    and_congr_right fun hfoundKind => and_congr_right fun _ => ?_
  obtain ⟨own, hfoundKind⟩ := hfoundKind
  rw [Site.isBelow, Site.isBelow, hids', List.contains_cons, Bool.or_eq_true]
  refine or_iff_right fun hsame => ?_
  obtain rfl := hids.eq_of_id_eq hfound hparent (eq_of_beq hsame)
  cases hfoundKind.symm.trans hparentKind

/-! ## Groups that are conditional -/

/-- A group that lies below an alternation or a repetition has a star after it or a bar beside it,
or one of the groups around it has. -/
theorem exists_outer_of_isConditional (hgroup : group ∈ pattern.sites)
    (hkind : group.kind = .group number) (hconditional : group.isConditional) :
    ∃ outer ∈ pattern.sites, (∃ number, outer.kind = .group number) ∧
      (outer = group ∨ group.isBelow outer.id) ∧
        (IsStarred text.toList outer.position ∨ HasBarBeside text.toList outer.position) := by
  obtain ⟨node, ancestors⟩ := group
  induction ancestors generalizing node number with
  | nil => cases hconditional
  | cons parent up ih =>
      obtain ⟨hparent, hchild⟩ := mem_sites_of_parent hgroup rfl
      have hformed := isFormed_of_mem_sites h hparent
      rw [Site.isConditional, List.any_cons] at hconditional
      cases hparentKind : parent.kind with
      | sequence =>
          -- The parent is the root, which has nothing above it.
          obtain rfl : up = [] := ancestors_eq_nil_of_id_eq_zero h hparent
            ((kind_eq_sequence_iff h hparent).1 hparentKind)
          rw [hparentKind] at hconditional
          cases hconditional
      | group own =>
          rw [hparentKind] at hconditional
          obtain ⟨outer, houter, houterKind, hbelow, hmarked⟩ :=
            ih parent hparent hparentKind hconditional
          refine ⟨outer, houter, houterKind, .inr (List.contains_iff_mem.2 ?_), hmarked⟩
          rcases hbelow with rfl | hbelow
          · exact List.mem_cons_self
          · exact List.mem_cons_of_mem _ (List.contains_iff_mem.1 hbelow)
      | repetition =>
          exact ⟨_, hgroup, ⟨number, hkind⟩, .inl rfl,
            .inl (isStarred_of_repetition h hgroup hkind rfl hparentKind)⟩
      | branch =>
          exact ⟨_, hgroup, ⟨number, hkind⟩, .inl rfl,
            .inr (hasBarBeside_of_branch h hgroup hkind rfl hparentKind)⟩
      | alternation =>
          rw [Node.IsFormed, hparentKind] at hformed
          cases hkind.symm.trans (hformed.2 node hchild)
      | literal _ | expressionRef _ | stringRef _ =>
          rw [Node.IsFormed, hparentKind] at hformed
          rw [hformed] at hchild
          cases hchild

/-- The text tells whether a group lies below an alternation or a repetition. -/
theorem isConditional_iff_of_parse (hgroup : group ∈ pattern.sites)
    (hkind : group.kind = .group number) :
    group.isConditional ↔ ∃ outer,
      (outer = group.position ∨ Encloses text.toList outer group.position) ∧
        (IsStarred text.toList outer ∨ HasBarBeside text.toList outer) := by
  have hstands := standsAt_group h hgroup hkind
  constructor
  · intro hconditional
    obtain ⟨outer, houter, ⟨own, houterKind⟩, hbelow, hmarked⟩ :=
      exists_outer_of_isConditional h hgroup hkind hconditional
    refine ⟨outer.position, hbelow.imp (congrArg Site.position) fun hbelow => ?_, hmarked⟩
    exact (encloses_group_iff h houter houterKind hgroup hstands).2 hbelow
  · rintro ⟨_, rfl | hencloses, hmarked⟩
    · exact hmarked.elim (isConditional_of_isStarred h hgroup hkind)
        (isConditional_of_hasBarBeside h hgroup hkind)
    · obtain ⟨outer, houter, ⟨own, houterKind⟩, rfl, hbelow⟩ :=
        (encloses_iff_of_parse h hgroup hstands).1 hencloses
      refine (hasDenseIds_of_parse h).isConditional_of_isBelow hgroup houter hbelow (.inr ?_)
      exact hmarked.elim (isConditional_of_isStarred h houter houterKind)
        (isConditional_of_hasBarBeside h houter houterKind)

/-! ## References -/

/-- The group of a number opens where the text opens its capturing group of that rank. -/
theorem captureIndices_of_group {number : Nat} (hgroup : group ∈ pattern.sites)
    (hkind : group.kind = .group (some number)) :
    (captureIndices 0 text.toList)[number - 1]? = some group.position := by
  have hentry : (number, group) ∈ pattern.groups := mem_groups_iff.2 ⟨hgroup, hkind⟩
  have hnumber : number ∈ pattern.groups.map Prod.fst := List.mem_map_of_mem hentry
  rw [groups_numbers_of_parse h, List.mem_range'_1] at hnumber
  obtain ⟨found, hfound, hposition⟩ := exists_entry_of_parse h hnumber.1 (by omega)
  have hlookup := (group?_eq_some_iff_of_parse h).2 (mem_groups_iff.1 hfound)
  rw [(group?_eq_some_iff_of_parse h).2 ⟨hgroup, hkind⟩] at hlookup
  rw [hposition, Option.some.inj hlookup]

/-- The references of the text are those of the pattern. -/
theorem exists_site_of_hasStringRef {number : Nat} (href : HasStringRef text.toList number index) :
    ∃ site ∈ pattern.sites, site.kind = .stringRef number ∧ site.position = index := by
  obtain ⟨hbackslash, digit, hdigit, _, rfl⟩ := href
  obtain ⟨site, hsite, hcases⟩ := exists_writer_of_parse h hbackslash (by decide)
  rcases hcases with ⟨rfl, ⟨hc, _⟩ | ⟨_, own, hkind⟩⟩ | ⟨hc, _⟩ | ⟨hc, _⟩
  · cases hc
  · obtain ⟨_, digit', hdigit', _, hvalue⟩ := (isTrueOf_uninitialized h hsite hkind).1
    obtain rfl := Option.some.inj (hdigit.symm.trans hdigit')
    exact ⟨site, hsite, hvalue ▸ hkind, rfl⟩
  · cases hc
  · cases hc

/-- The structural rule rejects a reference exactly when the text makes it offend. -/
theorem misplaced?_iff_offends {number : Nat} (hsite : site ∈ pattern.sites)
    (hkind : site.kind = .stringRef number) :
    site.misplaced? pattern.groups = some (.uninitialized number site.position) ↔
      Offends text.toList number site.position := by
  obtain ⟨target, hfound, _⟩ := exists_target_of_stringRef h hsite hkind
  obtain ⟨htarget, htargetKind⟩ := (group?_eq_some_iff_of_parse h).1 hfound
  have href := (isTrueOf_uninitialized h hsite hkind).1
  have hopening := captureIndices_of_group h htarget htargetKind
  have hinside := encloses_group_iff h htarget htargetKind hsite
    (Site.standsAt_position href.1 (by decide))
  have hsees : site.misplaced? pattern.groups = some (.uninitialized number site.position) ↔
      (site.isBelow target.id ∨ target.isConditional) := by
    rw [Site.misplaced?, hkind]
    dsimp only
    rw [show pattern.groups.lookup number = some target from hfound, Option.any_some, Site.maySee]
    cases target.isConditional <;> cases site.isBelow target.id <;> simp
  rw [hsees, isConditional_iff_of_parse h htarget htargetKind, ← hinside]
  constructor
  · intro hunsafe
    exact ⟨href, target.position, hopening, hunsafe⟩
  · rintro ⟨_, opening, hopening', hunsafe⟩
    obtain rfl := Option.some.inj (hopening.symm.trans hopening')
    exact hunsafe

/-- The sites that the structural rule rejects are the same in the order of their identifiers. -/
theorem filter_isMisplaced_sitesById :
    pattern.sitesById.filter (Site.isMisplaced pattern.groups) =
      pattern.sites.filter (Site.isMisplaced pattern.groups) := by
  have hperm : pattern.sitesById.Perm pattern.sites := List.mergeSort_perm _ _
  have hsorted : (pattern.sites.filter (Site.isMisplaced pattern.groups)).Pairwise
      fun site later => site.id ≤ later.id := by
    refine ((pairwise_id_of_parse h).filter _).imp_of_mem fun hsite hlater hlt => ?_
    exact Nat.le_of_lt (hlt (Site.isAtom_of_isMisplaced (List.mem_filter.1 hsite).2)
      (Site.isAtom_of_isMisplaced (List.mem_filter.1 hlater).2))
  refine (hperm.filter _).eq_of_pairwise (fun site other hsite hother hle hge => ?_)
    (pattern.pairwise_sitesById.filter _) hsorted
  exact (hasDenseIds_of_parse h).eq_of_id_eq (hperm.mem_iff.1 (List.mem_filter.1 hsite).1)
    (List.mem_filter.1 hother).1 (Nat.le_antisymm hle hge)

/-- The structural rule finds the same rejection when it goes through the nodes in the order of
their identifiers. -/
theorem findSome?_misplaced?_sitesById :
    pattern.sitesById.findSome? (Site.misplaced? pattern.groups) =
      pattern.sites.findSome? (Site.misplaced? pattern.groups) := by
  rw [← Site.findSome?_filter_isMisplaced, filter_isMisplaced_sitesById h,
    Site.findSome?_filter_isMisplaced]

/-- So it does not matter in which of the two orders the structural rule goes through the nodes. -/
theorem checkPlacement_eq_sitesById : pattern.checkPlacement =
    (pattern.sitesById.findSome? (Site.misplaced? pattern.groups)).elim (.ok ()) .error := by
  rw [findSome?_misplaced?_sitesById h, checkPlacement]
  cases pattern.sites.findSome? (Site.misplaced? pattern.groups) <;> rfl

/-- The structural rule accepts a pattern whose text has no offending reference, and otherwise it
rejects the leftmost of them. -/
theorem checkPlacement_cases :
    (pattern.checkPlacement = .ok () ∧ ∀ number index, ¬ Offends text.toList number index) ∨
      ∃ number index, pattern.checkPlacement = .error (.uninitialized number index) ∧
        Offends text.toList number index ∧
          ∀ number' index', Offends text.toList number' index' → index ≤ index' := by
  rw [checkPlacement]
  cases hfound : pattern.sites.findSome? (Site.misplaced? pattern.groups) with
  | none =>
      refine .inl ⟨rfl, fun number index hoffends => ?_⟩
      obtain ⟨site, hsite, hkind, rfl⟩ := exists_site_of_hasStringRef h hoffends.1
      have hmisplaced := (misplaced?_iff_offends h hsite hkind).2 hoffends
      rw [List.findSome?_eq_none_iff.1 hfound site hsite] at hmisplaced
      cases hmisplaced
  | some rejection =>
      obtain ⟨front, site, back, hsites, hmisplaced, hfront⟩ :=
        List.findSome?_eq_some_iff.1 hfound
      obtain ⟨number, hkind, rfl⟩ := Site.exists_of_misplaced? hmisplaced
      have hsite : site ∈ pattern.sites := hsites ▸ List.mem_append_right _ List.mem_cons_self
      refine .inr ⟨number, site.position, rfl,
        (misplaced?_iff_offends h hsite hkind).1 hmisplaced, fun number' index' hoffends => ?_⟩
      obtain ⟨later, hlater, hlaterKind, rfl⟩ := exists_site_of_hasStringRef h hoffends.1
      have hmisplaced' := (misplaced?_iff_offends h hlater hlaterKind).2 hoffends
      -- The sites before the reported one are placed well, and those after it start after it.
      rw [hsites, List.mem_append] at hlater
      have hback := pairwise_position_of_parse h
      rw [hsites, List.pairwise_append, List.pairwise_cons] at hback
      rcases hlater with hlater | hlater
      · rw [hfront later hlater] at hmisplaced'
        cases hmisplaced'
      · rcases List.mem_cons.1 hlater with rfl | hlater
        · exact Nat.le_refl _
        · refine Nat.le_of_lt (hback.2.1.1 later hlater ?_ ?_)
          · rw [hkind]
            rfl
          · rw [hlaterKind]
            rfl

end Parsed

end Pattern

namespace Config

variable {text : String} {pattern : Pattern}

/-- The structural rule as the text shows it. A pattern is accepted exactly when none of its
references offends; otherwise the rejection names the leftmost reference that does. -/
theorem validate_structural (h : Pattern.parse text = .ok pattern) (maxPaths workers : Nat) :
    ((Config.mk maxPaths workers .structural).validate text = .ok pattern ↔
      ∀ number index, ¬ Offends text.toList number index) ∧
    ((∃ number index, Offends text.toList number index) →
      ∃ number index, (Config.mk maxPaths workers .structural).validate text =
          .error (.uninitialized number index) ∧
        Offends text.toList number index ∧
          ∀ number' index', Offends text.toList number' index' → index ≤ index') := by
  rcases Pattern.checkPlacement_cases h with ⟨hcheck, hnone⟩ |
    ⟨number, index, hcheck, hoffends, hleast⟩
  · refine ⟨iff_of_true ((validate_eq_ok_iff h).2 ⟨hcheck, rfl⟩) hnone, ?_⟩
    rintro ⟨number, index, hoffends⟩
    exact absurd hoffends (hnone number index)
  · refine ⟨iff_of_false (fun haccepted => ?_) fun hnone => hnone number index hoffends, fun _ =>
      ⟨number, index, (validate_eq_error_iff h).2 hcheck, hoffends, hleast⟩⟩
    cases hcheck.symm.trans ((validate_eq_ok_iff h).1 haccepted).1

/-- In `((a)|b)(?:(c))*\3\1\2` a star follows the group around the third one, nothing is wrong with
the first one, and a bar stands beside the second one. The third one is referred to first. -/
theorem validate_structural_leftmost :
    (∃ pattern, Pattern.parse "((a)|b)(?:(c))*\\3\\1\\2" = .ok pattern) ∧
      (Config.mk 0 1 .structural).validate "((a)|b)(?:(c))*\\3\\1\\2" =
        .error (.uninitialized 3 15) ∧
      Offends "((a)|b)(?:(c))*\\3\\1\\2".toList 3 15 ∧
      ∀ number index, Offends "((a)|b)(?:(c))*\\3\\1\\2".toList number index → 15 ≤ index := by
  obtain ⟨pattern, hparse, hcheck⟩ : ∃ pattern,
      Pattern.parse "((a)|b)(?:(c))*\\3\\1\\2" = .ok pattern ∧
        pattern.checkPlacement = .error (.uninitialized 3 15) := ⟨_, rfl, by decide +kernel⟩
  have hrejected : (Config.mk 0 1 .structural).validate "((a)|b)(?:(c))*\\3\\1\\2" =
      .error (.uninitialized 3 15) := (validate_eq_error_iff hparse).2 hcheck
  obtain ⟨haccepts, hrejects⟩ := validate_structural hparse 0 1
  have hsome : ∃ number index, Offends "((a)|b)(?:(c))*\\3\\1\\2".toList number index := by
    by_contra hnone
    push Not at hnone
    cases hrejected.symm.trans (haccepts.2 hnone)
  obtain ⟨number, index, hreported, hoffends, hleast⟩ := hrejects hsome
  cases hrejected.symm.trans hreported
  exact ⟨⟨pattern, hparse⟩, hrejected, hoffends, hleast⟩

end Config

end Backref
