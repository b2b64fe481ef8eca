import Backref.Proofs.Pattern.Replacement
import Backref.Proofs.Reference.Limit
import Backref.Proofs.Reference.Similarity
import Backref.Proofs.Reference.Strictness

/-!
# A letter in the place of a string reference does no harm

`Config.validate_of_letter` says that a pattern that is accepted stays accepted when a letter takes
the place of one of its string references. The groups that a tree gains stay the same and those that
it needs become fewer (`Node.TurnsInto.gains_eq`, `Node.TurnsInto.needs_subset`). Fewer nodes are
relevant, so a search may follow other paths in another order; but there are not more of them
(`Node.TurnsInto.work_le`), because a node that is passed over from now on captures nothing and led
each path on at least once. The references that are left stand below the same kinds of nodes as
before.
-/

namespace Backref

/-! ## Sites -/

/-- The second site has the node of the first one, but for letters in the place of string
references, below nodes of the same kinds. -/
structure Site.TurnsInto (site site' : Site) : Prop where
  node : site.node.TurnsInto site'.node
  ancestors : site.ancestors.map Node.kind = site'.ancestors.map Node.kind

mutual

/-- The sites of a tree stay where they are. -/
theorem Node.TurnsInto.sitesOnto : ∀ {node node' : Node} {ancestors ancestors' : List Node}
    {rest rest' : List Site}, node.TurnsInto node' →
      ancestors.map Node.kind = ancestors'.map Node.kind →
      List.Forall₂ Site.TurnsInto rest rest' →
      List.Forall₂ Site.TurnsInto (node.sitesOnto ancestors rest) (node'.sitesOnto ancestors' rest')
  | ⟨label, kind, children⟩, _, ancestors, ancestors', _, _, h, hancestors, hrest => by
      cases h with
      | same _ label' _ hchildren =>
          rw [Node.sitesOnto, Node.sitesOnto]
          refine .cons ⟨.same label label' kind hchildren, hancestors⟩ ?_
          exact Node.childSitesOnto_turnsInto hchildren (congrArg (kind :: ·) hancestors) hrest
      | letter _ label' group c => exact .cons ⟨.letter label label' group c, hancestors⟩ hrest

/-- The sites of some trees stay where they are. -/
theorem Node.childSitesOnto_turnsInto : ∀ {nodes nodes' ancestors ancestors' : List Node}
    {rest rest' : List Site}, List.Forall₂ Node.TurnsInto nodes nodes' →
      ancestors.map Node.kind = ancestors'.map Node.kind →
      List.Forall₂ Site.TurnsInto rest rest' →
      List.Forall₂ Site.TurnsInto (Node.childSitesOnto nodes ancestors rest)
        (Node.childSitesOnto nodes' ancestors' rest')
  | [], _, _, _, _, _, .nil, _, hrest => hrest
  | _ :: _, _, _, _, _, _, .cons hnode hnodes, hancestors, hrest =>
      hnode.sitesOnto hancestors (Node.childSitesOnto_turnsInto hnodes hancestors hrest)

end

/-! ## Gains and needs -/

mutual

/-- A letter gains as little as a string reference. -/
theorem Node.TurnsInto.gains_eq : ∀ {node node' : Node}, node.TurnsInto node' →
    node'.gains = node.gains
  | ⟨label, kind, children⟩, _, h => by
      cases h with
      | same _ label' _ hchildren =>
          have hthrough := Node.gainsThrough_turnsInto hchildren
          cases kind with
          | sequence => exact hthrough
          | branch => exact hthrough
          | group number =>
              cases number with
              | none => exact hthrough
              | some group => exact congrArg (insert group) hthrough
          | alternation =>
              cases hchildren with
              | nil => rfl
              | cons hfirst hothers =>
                  show Node.gainsOver _ _ = Node.gainsOver _ _
                  rw [hfirst.gains_eq, Node.gainsOver_turnsInto hothers]
          | _ => rfl
      | letter => rfl

/-- Some trees one after the other gain the same. -/
theorem Node.gainsThrough_turnsInto : ∀ {nodes nodes' : List Node},
    List.Forall₂ Node.TurnsInto nodes nodes' → Node.gainsThrough nodes' = Node.gainsThrough nodes
  | [], _, .nil => rfl
  | _ :: _, _, .cons hnode hnodes => by
      rw [Node.gainsThrough, Node.gainsThrough, hnode.gains_eq, Node.gainsThrough_turnsInto hnodes]

/-- A choice between some trees gains the same. -/
theorem Node.gainsOver_turnsInto : ∀ {nodes nodes' : List Node},
    List.Forall₂ Node.TurnsInto nodes nodes' → ∀ groups,
      Node.gainsOver groups nodes' = Node.gainsOver groups nodes
  | [], _, .nil, _ => rfl
  | _ :: _, _, .cons hnode hnodes, groups => by
      rw [Node.gainsOver, Node.gainsOver, hnode.gains_eq, Node.gainsOver_turnsInto hnodes]

end

mutual

/-- A letter needs nothing. -/
theorem Node.TurnsInto.needs_subset : ∀ {node node' : Node}, node.TurnsInto node' →
    node'.needs ⊆ node.needs
  | ⟨label, kind, children⟩, _, h => by
      cases h with
      | same _ label' _ hchildren =>
          have hthrough := Node.needsThrough_turnsInto hchildren
          cases kind with
          | sequence => exact hthrough
          | branch => exact hthrough
          | group number => exact hthrough
          | repetition => exact hthrough
          | alternation => exact Node.needsOver_turnsInto hchildren
          | literal letter => exact Finset.Subset.refl _
          | expressionRef group => exact Finset.Subset.refl _
          | stringRef group => exact Finset.Subset.refl _
      | letter => exact Finset.empty_subset _

/-- Some trees one after the other need no more. -/
theorem Node.needsThrough_turnsInto : ∀ {nodes nodes' : List Node},
    List.Forall₂ Node.TurnsInto nodes nodes' → Node.needsThrough nodes' ⊆ Node.needsThrough nodes
  | [], _, .nil => Finset.Subset.refl _
  | _ :: _, _, .cons hnode hnodes => by
      rw [Node.needsThrough, Node.needsThrough, hnode.gains_eq]
      exact Finset.union_subset_union hnode.needs_subset
        (Finset.sdiff_subset_sdiff (Node.needsThrough_turnsInto hnodes) (Finset.Subset.refl _))

/-- A choice between some trees needs no more. -/
theorem Node.needsOver_turnsInto : ∀ {nodes nodes' : List Node},
    List.Forall₂ Node.TurnsInto nodes nodes' → Node.needsOver nodes' ⊆ Node.needsOver nodes
  | [], _, .nil => Finset.Subset.refl _
  | _ :: _, _, .cons hnode hnodes =>
      Finset.union_subset_union hnode.needs_subset (Node.needsOver_turnsInto hnodes)

end

/-! ## Relevance -/

/-- The nodes of two trees correspond one to one. -/
theorem Node.TurnsInto.subtree {node node' : Node} (h : node.TurnsInto node') :
    List.Forall₂ Node.TurnsInto node.subtree node'.subtree := by
  have hsites (other : Node) : (other.sitesOnto [] []).map Site.node = other.subtree :=
    (other.map_node_sitesOnto [] []).trans (List.append_nil _)
  rw [← hsites, ← hsites, List.forall₂_map_left_iff, List.forall₂_map_right_iff]
  exact (h.sitesOnto rfl .nil).imp fun _ _ hpair => hpair.node

/-- What is left of the groups and references is found in the first tree. -/
theorem Node.TurnsInto.kind_eq_of_usesGroup {node node' : Node} (h : node.TurnsInto node')
    (huses : node'.kind.usesGroup) : node.kind = node'.kind := by
  cases h with
  | same => rfl
  | letter => cases huses

/-- What is relevant was relevant before. -/
theorem Node.TurnsInto.isRelevant_of {node node' : Node} (h : node.TurnsInto node')
    (hrelevant : node'.isRelevant) : node.isRelevant := by
  obtain ⟨inner', hinner', huses⟩ := of_decide_eq_true hrelevant
  obtain ⟨inner, hinner, hpair⟩ := exists_left_of_forall₂ h.subtree hinner'
  exact decide_eq_true ⟨inner, hinner, hpair.kind_eq_of_usesGroup huses ▸ huses⟩

/-- No group captures at the node or below it. -/
def Node.CapturesNothing (node : Node) : Prop :=
  ∀ inner ∈ node.subtree, ∀ number, inner.kind ≠ .group (some number)

/-- What is no longer relevant never captured anything. -/
theorem Node.TurnsInto.capturesNothing {node node' : Node} (h : node.TurnsInto node')
    (hrelevant : ¬ node'.isRelevant) : node.CapturesNothing := by
  intro inner hinner number hkind
  obtain ⟨inner', hinner', hpair⟩ := exists_right_of_forall₂ h.subtree hinner
  refine hrelevant (decide_eq_true ⟨inner', hinner', ?_⟩)
  rw [hpair.kind_eq_of_isRepeatable (congrArg Kind.isRepeatable hkind), hkind]
  rfl

/-! ## Work -/

variable {tick : Nat}

mutual

/-- Each path goes on after a node that captures nothing, with the same groups. -/
theorem Node.le_work (relevant : Node → Bool) (after : GroupSet → Nat) (matched : GroupSet) :
    ∀ {node : Node}, node.CapturesNothing →
      tick + after matched ≤ node.work tick relevant after matched
  | ⟨label, kind, children⟩, h => by
      have hchildren : ∀ child ∈ children, child.CapturesNothing := fun child hchild inner hinner =>
        h inner (@Node.mem_subtree_of_child ⟨label, kind, children⟩ child inner hchild hinner)
      have hthrough := Node.le_workThrough relevant after matched hchildren
      unfold Node.work
      refine Nat.add_le_add_left ?_ tick
      split
      · cases kind with
        | sequence => exact hthrough
        | branch => exact hthrough
        | group number =>
            cases number with
            | none => exact hthrough
            | some number => exact absurd rfl (h _ (Node.mem_subtree_self _) number)
        | repetition =>
            show _ ≤ loopWork _ _ _ _
            rw [loopWork]
            exact Nat.le_add_right _ _
        | alternation =>
            cases children with
            | nil => exact Nat.le_refl _
            | cons first others =>
                have hfirst := Node.le_work relevant after matched
                  (hchildren first List.mem_cons_self)
                show _ ≤ Node.workOver tick relevant (first :: others) after matched
                rw [Node.workOver]
                omega
        | _ => exact Nat.le_refl _
      · exact Nat.le_refl _

/-- Each path goes on after nodes that capture nothing, with the same groups. -/
theorem Node.le_workThrough (relevant : Node → Bool) (after : GroupSet → Nat)
    (matched : GroupSet) : ∀ {nodes : List Node}, (∀ node ∈ nodes, node.CapturesNothing) →
      after matched ≤ Node.workThrough tick relevant nodes after matched
  | [], _ => Nat.le_refl _
  | node :: nodes, h => by
      obtain ⟨hnode, hnodes⟩ := List.forall_mem_cons.1 h
      have hfirst :=
        Node.le_work relevant (Node.workThrough tick relevant nodes after) matched hnode
      have hrest := Node.le_workThrough relevant after matched hnodes
      rw [Node.workThrough]
      omega

end

/-- A loop has no more work when its body has no more of it. -/
theorem loopWork_le {body body' : (GroupSet → Nat) → GroupSet → Nat}
    (hbody : ∀ {after after' : GroupSet → Nat}, after' ≤ after → body' after' ≤ body after)
    {after after' : GroupSet → Nat} (hafter : after' ≤ after) :
    loopWork tick body' after' ≤ loopWork tick body after := by
  intro matched
  induction hroom : matched.room using Nat.strongRecOn generalizing matched with
  | ind room ih =>
      subst hroom
      rw [loopWork, loopWork]
      refine Nat.add_le_add (hafter matched) (hbody (fun later => Nat.add_le_add_left ?_ tick) _)
      split
      · exact hafter later
      · split
        · next hlt => exact ih later.room hlt later rfl
        · exact Nat.le_refl 0

mutual

/-- A letter in the place of a string reference makes no work. -/
theorem Node.TurnsInto.work_le : ∀ {node node' : Node} {after after' : GroupSet → Nat},
    node.TurnsInto node' → after' ≤ after →
      node'.work tick Node.isRelevant after' ≤ node.work tick Node.isRelevant after
  | ⟨label, kind, children⟩, node', after, after', h, hafter => by
      intro matched
      by_cases hrelevant' : node'.isRelevant
      · have hrelevant := h.isRelevant_of hrelevant'
        cases h with
        | same _ label' _ hchildren =>
            have hthrough : ∀ {after after' : GroupSet → Nat}, after' ≤ after → _ :=
              Node.workThrough_turnsInto hchildren
            unfold Node.work
            rw [if_pos hrelevant, if_pos hrelevant']
            refine Nat.add_le_add_left ?_ tick
            cases kind with
            | sequence => exact hthrough hafter matched
            | branch => exact hthrough hafter matched
            | group number =>
                cases number with
                | none => exact hthrough hafter matched
                | some group =>
                    exact hthrough (fun later => Nat.add_le_add_left (hafter _) tick) matched
            | repetition => exact loopWork_le hthrough hafter matched
            | alternation =>
                have hover := Node.workOver_turnsInto hchildren hafter matched
                cases hchildren with
                | nil => exact hafter matched
                | cons _ _ => exact hover
            | literal letter => exact hafter matched
            | expressionRef group => exact hafter matched
            | stringRef group => exact hafter matched
        | letter _ label' group c => cases hrelevant'
      · -- The new node is passed over; each path went on after the old one as well.
        have hskip : node'.work tick Node.isRelevant after' matched = tick + after' matched := by
          obtain ⟨label', kind', children'⟩ := node'
          unfold Node.work
          rw [if_neg hrelevant']
        rw [hskip]
        exact (Nat.add_le_add_left (hafter matched) tick).trans
          (Node.le_work Node.isRelevant after matched (h.capturesNothing hrelevant'))

/-- Letters in the place of string references of some nodes make no work. -/
theorem Node.workThrough_turnsInto : ∀ {nodes nodes' : List Node} {after after' : GroupSet → Nat},
    List.Forall₂ Node.TurnsInto nodes nodes' → after' ≤ after →
      Node.workThrough tick Node.isRelevant nodes' after' ≤
        Node.workThrough tick Node.isRelevant nodes after
  | [], _, _, _, .nil, hafter => hafter
  | _ :: _, _, _, _, .cons hnode hnodes, hafter =>
      hnode.work_le (Node.workThrough_turnsInto hnodes hafter)

/-- Letters in the place of string references of some branches make no work. -/
theorem Node.workOver_turnsInto : ∀ {nodes nodes' : List Node} {after after' : GroupSet → Nat},
    List.Forall₂ Node.TurnsInto nodes nodes' → after' ≤ after →
      Node.workOver tick Node.isRelevant nodes' after' ≤
        Node.workOver tick Node.isRelevant nodes after
  | [], _, _, _, .nil, _ => fun _ => Nat.le_refl 0
  | _ :: _, _, _, _, .cons hnode hnodes, hafter => fun matched =>
      Nat.add_le_add (hnode.work_le hafter matched) (Node.workOver_turnsInto hnodes hafter matched)

end

namespace Pattern

variable {text text' : String} {pattern pattern' : Pattern} {limit : Nat}

/-- There are no more runs than before. -/
theorem runCount_le (h : pattern.root.TurnsInto pattern'.root) :
    pattern'.runCount ≤ pattern.runCount :=
  h.work_le (fun _ => Nat.le_refl 1) .empty

/-- A reference that is left was there before. -/
theorem exists_site_of_turnsInto (h : pattern.root.TurnsInto pattern'.root) {site' : Site}
    (hsite' : site' ∈ pattern'.sites) {number : Nat} (hkind' : site'.kind = .stringRef number) :
    ∃ site ∈ pattern.sites, site.TurnsInto site' ∧ site.kind = .stringRef number := by
  obtain ⟨site, hsite, hpair⟩ := exists_left_of_forall₂ (h.sitesOnto rfl .nil) hsite'
  have hkind : site.kind = site'.kind :=
    hpair.node.kind_eq_of_usesGroup (congrArg Kind.usesGroup hkind')
  exact ⟨site, hsite, hpair, hkind.trans hkind'⟩

section Parsed

variable (h : Pattern.parse text = .ok pattern) (h' : Pattern.parse text' = .ok pattern')
  (htrees : pattern.root.TurnsInto pattern'.root)
include h h' htrees

/-- A search that has accepted a pattern accepts it with letters in the place of string
references. -/
theorem checkPaths_of_turnsInto (haccepted : pattern.checkPaths limit = .ok ()) :
    pattern'.checkPaths limit = .ok () := by
  have hneeds := needs_eq_empty_of_checkPaths (explorable_of_parse h) haccepted
  have hneeds' : pattern'.root.needs = ∅ :=
    Finset.subset_empty.1 (htrees.needs_subset.trans hneeds.subset)
  cases hresult : pattern'.checkPaths limit with
  | ok _ => rfl
  | error rejection =>
      obtain ⟨group, index, rfl, violations, matched, hwalk, hmem⟩ | rfl :=
        mayViolate_of_checkPaths (explorable_of_parse h') hresult
      · rw [neverViolates_of_needs hneeds' violations matched hwalk] at hmem
        cases hmem
      · -- A reference is left, and all runs fit into the limit as they did before.
        have href' : pattern'.hasStringRef := by
          by_contra hnone
          rw [checkPaths, if_neg hnone] at hresult
          cases hresult
        have href : pattern.hasStringRef := by
          obtain ⟨site', hsite', group, hkind'⟩ := hasStringRef_iff.1 href'
          obtain ⟨site, hsite, _, hkind⟩ := exists_site_of_turnsInto htrees hsite' hkind'
          exact hasStringRef_iff.2 ⟨site, hsite, group, hkind⟩
        rw [checkPaths_eq_run h href] at haccepted
        have hcount := Search.totalWork_le_of_run_eq_ok haccepted (Nat.zero_le limit)
        replace hcount : 0 + (pattern.runCount + 0) ≤ limit + 1 := hcount
        have hle := runCount_le htrees
        have hroomy : (Search.start pattern').Roomy Node.isRelevant limit :=
          Search.roomy_start (show pattern'.runCount ≤ limit + 1 by omega)
        rw [checkPaths_eq_run h' href'] at hresult
        exact absurd hresult (hroomy.run_ne_pathLimit limit)

/-- References that are placed well stay so when letters take the place of others. -/
theorem checkPlacement_of_turnsInto (haccepted : pattern.checkPlacement = .ok ()) :
    pattern'.checkPlacement = .ok () := by
  refine checkPlacement_eq_ok_iff.2 fun site' hsite' number hkind' => ?_
  obtain ⟨site, hsite, hpair, hkind⟩ := exists_site_of_turnsInto htrees hsite' hkind'
  obtain ⟨target, htarget, hsees⟩ := checkPlacement_eq_ok_iff.1 haccepted site hsite number hkind
  obtain ⟨hmem, htargetKind⟩ := (group?_eq_some_iff_of_parse h).1 htarget
  -- The group is where it was, and so is its number.
  obtain ⟨target', hmem', htargets⟩ := exists_right_of_forall₂ (htrees.sitesOnto rfl .nil) hmem
  have htargetKind' : target'.kind = .group (some number) :=
    (htargets.node.kind_eq_of_isRepeatable
      (congrArg Kind.isRepeatable htargetKind)).trans htargetKind
  have htarget' := (group?_eq_some_iff_of_parse h').2 ⟨hmem', htargetKind'⟩
  refine ⟨target', htarget', ?_⟩
  rwa [← maySee_eq h h' hpair.ancestors hsite hsite' htargets.ancestors htarget htarget']

end Parsed

end Pattern

namespace Config

/-- A letter in the place of a string reference does no harm. If a pattern is accepted, then it is
accepted by the same rule with the same limit when any letter takes the place of any one of its
string references. Its tree stays the same but for labels and for letters in the place of string
references. -/
theorem validate_of_letter {maxPaths : Nat} {rule : Rule} {before after : List Char}
    {digit letter : Char} {pattern : Pattern} (hletter : 'a' ≤ letter ∧ letter ≤ 'z')
    (h : (Config.mk maxPaths 1 rule).validate (String.ofList (before ++ '\\' :: digit :: after)) =
      .ok pattern) :
    ∃ pattern', (Config.mk maxPaths 1 rule).validate (String.ofList (before ++ letter :: after)) =
        .ok pattern' ∧ pattern.root.TurnsInto pattern'.root := by
  obtain ⟨hparse, hcheck⟩ := parse_of_validate h
  obtain ⟨pattern', hparse', htrees⟩ :=
    Pattern.exists_parse_of_letter (Alphabet.isLetter_iff.2 hletter) hparse
  refine ⟨pattern', (validate_eq_ok_iff hparse').2 ⟨?_, rfl⟩, htrees⟩
  cases rule with
  | pathSensitive => exact Pattern.checkPaths_of_turnsInto hparse hparse' htrees hcheck
  | structural => exact Pattern.checkPlacement_of_turnsInto hparse hparse' htrees hcheck

/-- The choice of `(a)(?:\1|b)\1` takes the one fork that the limit allows. In `(a)(?:c|b)\1` it is
passed over. -/
theorem validate_of_letter_choice :
    ∃ pattern, ('a' ≤ 'c' ∧ 'c' ≤ 'z') ∧
      (Config.mk 1 1 .pathSensitive).validate "(a)(?:\\1|b)\\1" = .ok pattern ∧
      (Config.mk 0 1 .pathSensitive).check pattern = .error (.pathLimit 0) ∧
      ∃ pattern', (Config.mk 1 1 .pathSensitive).validate "(a)(?:c|b)\\1" = .ok pattern' ∧
        pattern.root.TurnsInto pattern'.root := by
  obtain ⟨pattern, hparse, hcheck, hlimit⟩ : ∃ pattern,
      Pattern.parse "(a)(?:\\1|b)\\1" = .ok pattern ∧
        (Config.mk 1 1 .pathSensitive).check pattern = .ok () ∧
        (Config.mk 0 1 .pathSensitive).check pattern = .error (.pathLimit 0) :=
    ⟨_, rfl, by decide +kernel, by decide +kernel⟩
  have hletter : 'a' ≤ 'c' ∧ 'c' ≤ 'z' := by decide
  have haccepted : (Config.mk 1 1 .pathSensitive).validate "(a)(?:\\1|b)\\1" = .ok pattern :=
    (validate_eq_ok_iff hparse).2 ⟨hcheck, rfl⟩
  exact ⟨pattern, hletter, haccepted, hlimit,
    @validate_of_letter 1 .pathSensitive "(a)(?:".toList "|b)\\1".toList '1' 'c' pattern hletter
      haccepted⟩

end Config

end Backref
