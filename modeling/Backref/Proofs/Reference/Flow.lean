import Backref.Proofs.Reference.Exactness
import Mathlib.Algebra.Group.Nat.Defs
import Mathlib.Data.Finset.Card

/-!
# Forward analysis over sets of states

`Node.flow` goes through a tree with all sets of matched groups that are possible at once. It fails
at a string reference if one of them lacks the group, and it runs a loop until no new set appears.
`Node.collects_flow` says that it collects the walks: it fails exactly if a walk from one of the
sets violates, and otherwise returns the sets with which these walks end.
-/

namespace Backref

/-- A set of groups has sixteen bits, so there are no more than `2 ^ 16` of them. -/
theorem GroupSet.card_le (states : Finset GroupSet) : states.card ≤ 2 ^ 16 := by
  have hle := Finset.card_le_card_of_injOn (fun set : GroupSet => set.bits.toNat)
    (s := states) (t := Finset.range (2 ^ 16)) ?_ ?_
  · rwa [Finset.card_range] at hle
  · intro set _
    exact Finset.mem_coe.2 (Finset.mem_range.2 set.bits.isLt)
  · intro first _ second _ hbits
    cases first
    cases second
    exact congrArg GroupSet.mk (BitVec.eq_of_toNat_eq hbits)

/-- Adds to the states what the body of a loop makes of them, until nothing is new. -/
def closeUnder (body : Finset GroupSet → Option (Finset GroupSet)) (states : Finset GroupSet) :
    Option (Finset GroupSet) :=
  match body states with
  | none => none
  | some after =>
      if states ∪ after = states then some states else closeUnder body (states ∪ after)
termination_by 2 ^ 16 - states.card
decreasing_by
  have hgrows : states ⊂ states ∪ after :=
    Finset.ssubset_iff_subset_ne.2 ⟨Finset.subset_union_left, Ne.symm ‹_›⟩
  have hlt := Finset.card_lt_card hgrows
  have hle := GroupSet.card_le (states ∪ after)
  omega

mutual

/-- The sets of groups that are possible after a node, when those of `states` are possible before
it. There is no result if a string reference reads a group that one of the sets lacks. -/
def Node.flow : Node → Finset GroupSet → Option (Finset GroupSet)
  | ⟨_, .literal _, _⟩, states | ⟨_, .expressionRef _, _⟩, states => some states
  | ⟨_, .stringRef group, _⟩, states =>
      if ∀ matched ∈ states, matched.contains group then some states else none
  | ⟨_, .sequence, children⟩, states | ⟨_, .branch, children⟩, states
  | ⟨_, .group none, children⟩, states => Node.flowThrough children states
  | ⟨_, .group (some group), children⟩, states =>
      (Node.flowThrough children states).map fun after => after.image (·.insert group)
  | ⟨_, .alternation, children⟩, states => Node.flowOver children states
  | ⟨_, .repetition, children⟩, states => closeUnder (Node.flowThrough children) states

/-- The sets that are possible after the nodes one after the other. -/
def Node.flowThrough : List Node → Finset GroupSet → Option (Finset GroupSet)
  | [], states => some states
  | node :: nodes, states => do
      let after ← node.flow states
      Node.flowThrough nodes after

/-- The sets that are possible after one of the nodes, all of which start with the same sets. -/
def Node.flowOver : List Node → Finset GroupSet → Option (Finset GroupSet)
  | [], _ => some ∅
  | node :: nodes, states => do
      let after ← node.flow states
      let others ← Node.flowOver nodes states
      return after ∪ others

end

/-! ## Loops come to an end -/

/-- The rounds of a loop come to an end with the given outcome: each round adds what the body makes
of the states, until a round fails or adds nothing. -/
inductive Rounds (body : Finset GroupSet → Option (Finset GroupSet)) :
    Finset GroupSet → Option (Finset GroupSet) → Prop where
  | fails {states : Finset GroupSet} : body states = none → Rounds body states none
  | stops {states after : Finset GroupSet} : body states = some after →
      states ∪ after = states → Rounds body states (some states)
  | again {states after : Finset GroupSet} {outcome : Option (Finset GroupSet)} :
      body states = some after → states ∪ after ≠ states → Rounds body (states ∪ after) outcome →
      Rounds body states outcome

/-- Whatever the body and the states are, the loop comes to an end. -/
theorem rounds_closeUnder (body : Finset GroupSet → Option (Finset GroupSet))
    (states : Finset GroupSet) : Rounds body states (closeUnder body states) := by
  induction states using closeUnder.induct body with
  | case1 states hbody =>
      rw [closeUnder, hbody]
      exact .fails hbody
  | case2 states after hbody hstable =>
      rw [closeUnder, hbody]
      show Rounds body states (if states ∪ after = states then _ else _)
      rw [if_pos hstable]
      exact .stops hbody hstable
  | case3 states after hbody hgrows ih =>
      rw [closeUnder, hbody]
      show Rounds body states (if states ∪ after = states then _ else _)
      rw [if_neg hgrows]
      exact .again hbody hgrows ih

/-! ## The analysis collects walks -/

/-- The outcome is that of all walks that start with one of the states: there is none if some walk
violates, and otherwise it is the states with which the walks end. -/
inductive Collects (walk : Finset Nat → List Violation → Finset Nat → Prop)
    (states : Finset GroupSet) : Option (Finset GroupSet) → Prop where
  | fails {matched : GroupSet} {violations : List Violation} {matched' : Finset Nat} :
      matched ∈ states → walk matched.toFinset violations matched' → violations ≠ [] →
      Collects walk states none
  | ends {result : Finset GroupSet} :
      (∀ matched ∈ states, ∀ violations matched', walk matched.toFinset violations matched' →
        violations = [] ∧ ∃ after ∈ result, after.toFinset = matched') →
      (∀ after ∈ result, ∃ matched ∈ states, walk matched.toFinset [] after.toFinset) →
      Collects walk states (some result)

namespace Collects

variable {walk walk' : Finset Nat → List Violation → Finset Nat → Prop}
  {states result : Finset GroupSet} {outcome : Option (Finset GroupSet)}

/-- Walks that correspond are collected together. -/
theorem congr (h : Collects walk states outcome)
    (hwalk : ∀ matched violations matched',
      walk matched violations matched' ↔ walk' matched violations matched') :
    Collects walk' states outcome := by
  cases h with
  | fails hmatched hviolates hne => exact .fails hmatched ((hwalk _ _ _).1 hviolates) hne
  | ends hsound hcomplete =>
      refine .ends ?_ ?_
      · intro matched hmatched violations matched' hends
        exact hsound matched hmatched violations matched' ((hwalk _ _ _).2 hends)
      · intro after hafter
        obtain ⟨matched, hmatched, hends⟩ := hcomplete after hafter
        exact ⟨matched, hmatched, (hwalk _ _ _).1 hends⟩

/-- Walks that change nothing. -/
theorem idle (hwalk : ∀ matched violations matched',
      walk matched violations matched' ↔ violations = [] ∧ matched' = matched) :
    Collects walk states (some states) := by
  refine .ends ?_ ?_
  · intro matched hmatched violations matched' hends
    obtain ⟨hnone, hsame⟩ := (hwalk _ _ _).1 hends
    exact ⟨hnone, matched, hmatched, hsame.symm⟩
  · intro after hafter
    exact ⟨after, hafter, (hwalk _ _ _).2 ⟨rfl, rfl⟩⟩

/-- Walks of one kind followed by walks of another kind. -/
theorem bind {both : Finset Nat → List Violation → Finset Nat → Prop}
    {next : Finset GroupSet → Option (Finset GroupSet)} (h : Collects walk states outcome)
    (hnext : ∀ after, Collects walk' after (next after))
    (htotal : ∀ matched, ∃ violations matched', walk' matched violations matched')
    (hboth : ∀ matched violations matched', both matched violations matched' ↔
      ∃ first middle last, walk matched first middle ∧ walk' middle last matched' ∧
        violations = first ++ last) :
    Collects both states (outcome.bind next) := by
  cases h with
  | @fails matched first middle hmatched hviolates hne =>
      obtain ⟨last, matched', hlast⟩ := htotal middle
      refine .fails hmatched ((hboth _ _ _).2 ⟨first, middle, last, hviolates, hlast, rfl⟩) ?_
      exact List.append_ne_nil_of_left_ne_nil hne last
  | @ends result hsound hcomplete =>
      show Collects both states (next result)
      have hlasts := hnext result
      generalize next result = outcome at hlasts ⊢
      cases hlasts with
      | fails hmiddle hviolates hne =>
          obtain ⟨matched, hmatched, hfirst⟩ := hcomplete _ hmiddle
          exact .fails hmatched ((hboth _ _ _).2 ⟨[], _, _, hfirst, hviolates, rfl⟩) hne
      | ends hsound' hcomplete' =>
          refine .ends ?_ ?_
          · intro matched hmatched violations matched' hends
            obtain ⟨first, _, last, hfirst, hlast, rfl⟩ := (hboth _ _ _).1 hends
            obtain ⟨rfl, middle, hmiddle, rfl⟩ := hsound matched hmatched _ _ hfirst
            exact hsound' middle hmiddle last matched' hlast
          · intro after hafter
            obtain ⟨middle, hmiddle, hlast⟩ := hcomplete' after hafter
            obtain ⟨matched, hmatched, hfirst⟩ := hcomplete middle hmiddle
            exact ⟨matched, hmatched, (hboth _ _ _).2 ⟨[], _, [], hfirst, hlast, rfl⟩⟩

/-- Walks of either kind. -/
theorem union {either : Finset Nat → List Violation → Finset Nat → Prop}
    {outcome' : Option (Finset GroupSet)} (h : Collects walk states outcome)
    (h' : Collects walk' states outcome')
    (heither : ∀ matched violations matched', either matched violations matched' ↔
      walk matched violations matched' ∨ walk' matched violations matched') :
    Collects either states
      (outcome.bind fun after => outcome'.bind fun others => some (after ∪ others)) := by
  cases h with
  | fails hmatched hviolates hne =>
      exact .fails hmatched ((heither _ _ _).2 (.inl hviolates)) hne
  | ends hsound hcomplete =>
      cases h' with
      | fails hmatched hviolates hne =>
          exact .fails hmatched ((heither _ _ _).2 (.inr hviolates)) hne
      | ends hsound' hcomplete' =>
          refine .ends ?_ ?_
          · intro matched hmatched violations matched' hends
            rcases (heither _ _ _).1 hends with hends | hends
            · obtain ⟨hnone, after, hafter, hsame⟩ := hsound matched hmatched _ _ hends
              exact ⟨hnone, after, Finset.mem_union_left _ hafter, hsame⟩
            · obtain ⟨hnone, after, hafter, hsame⟩ := hsound' matched hmatched _ _ hends
              exact ⟨hnone, after, Finset.mem_union_right _ hafter, hsame⟩
          · intro after hafter
            rcases Finset.mem_union.1 hafter with hafter | hafter
            · obtain ⟨matched, hmatched, hends⟩ := hcomplete after hafter
              exact ⟨matched, hmatched, (heither _ _ _).2 (.inl hends)⟩
            · obtain ⟨matched, hmatched, hends⟩ := hcomplete' after hafter
              exact ⟨matched, hmatched, (heither _ _ _).2 (.inr hends)⟩

/-- States from which there are no walks but those of other states can be left out. -/
theorem of_union {after : Finset GroupSet} (h : Collects walk (states ∪ after) outcome)
    (hafter : ∀ later ∈ after, ∃ matched ∈ states, ∀ violations matched',
      walk later.toFinset violations matched' → walk matched.toFinset violations matched') :
    Collects walk states outcome := by
  have hstart : ∀ matched ∈ states ∪ after, ∃ matched' ∈ states, ∀ violations last,
      walk matched.toFinset violations last → walk matched'.toFinset violations last := by
    intro matched hmatched
    rcases Finset.mem_union.1 hmatched with hmatched | hmatched
    · exact ⟨matched, hmatched, fun _ _ hends => hends⟩
    · exact hafter matched hmatched
  cases h with
  | fails hmatched hviolates hne =>
      obtain ⟨matched', hmatched', hends⟩ := hstart _ hmatched
      exact .fails hmatched' (hends _ _ hviolates) hne
  | ends hsound hcomplete =>
      refine .ends ?_ ?_
      · intro matched hmatched
        exact hsound matched (Finset.mem_union_left _ hmatched)
      · intro last hlast
        obtain ⟨matched, hmatched, hends⟩ := hcomplete last hlast
        obtain ⟨matched', hmatched', hstep⟩ := hstart matched hmatched
        exact ⟨matched', hmatched', hstep _ _ hends⟩

end Collects

/-! ### Loops -/

/-- The runs of a loop whose body leads from the states to the states violate nothing and stay
among them. -/
theorem Node.Iterations.stay {states : Finset GroupSet} : ∀ {body : List Node}
    {matched matched' : Finset Nat} {violations : List Violation},
    Iterations body matched violations matched' →
    (∀ set ∈ states, ∀ violations matched', WalkThrough body set.toFinset violations matched' →
      violations = [] ∧ ∃ after ∈ states, after.toFinset = matched') →
    (∃ set ∈ states, set.toFinset = matched) →
    violations = [] ∧ ∃ after ∈ states, after.toFinset = matched'
  | _, _, _, _, .stop, _, hstart => ⟨rfl, hstart⟩
  | _, _, _, _, .again hbody hiterations, hstable, hstart => by
      obtain ⟨set, hset, rfl⟩ := hstart
      obtain ⟨rfl, hmiddle⟩ := hstable set hset _ _ hbody
      exact hiterations.stay hstable hmiddle

/-- When the analysis of the body collects its walks, the rounds of the loop collect the runs of
the loop. -/
theorem Rounds.collects {children : List Node}
    {body : Finset GroupSet → Option (Finset GroupSet)} {states : Finset GroupSet}
    {outcome : Option (Finset GroupSet)} (h : Rounds body states outcome)
    (hbody : ∀ states, Collects (Node.WalkThrough children) states (body states)) :
    Collects (Node.Iterations children) states outcome := by
  induction h with
  | @fails states hround =>
      have hcollects := hbody states
      rw [hround] at hcollects
      cases hcollects with
      | fails hmatched hviolates hne =>
          refine .fails hmatched (.again hviolates .stop) ?_
          exact List.append_ne_nil_of_left_ne_nil hne []
  | @stops states after hround hstable =>
      have hcollects := hbody states
      rw [hround] at hcollects
      cases hcollects with
      | ends hsound _ =>
          have hstay : ∀ set ∈ states, ∀ violations matched',
              Node.WalkThrough children set.toFinset violations matched' →
              violations = [] ∧ ∃ later ∈ states, later.toFinset = matched' := by
            intro set hset violations matched' hwalk
            obtain ⟨hnone, later, hlater, hsame⟩ := hsound set hset _ _ hwalk
            exact ⟨hnone, later, Finset.union_eq_left.1 hstable hlater, hsame⟩
          refine .ends ?_ ?_
          · intro matched hmatched violations matched' hiterations
            exact hiterations.stay hstay ⟨matched, hmatched, rfl⟩
          · intro matched hmatched
            exact ⟨matched, hmatched, .stop⟩
  | @again states after outcome hround _ _ ih =>
      have hcollects := hbody states
      rw [hround] at hcollects
      cases hcollects with
      | ends _ hcomplete =>
          -- Runs that start after the body are runs that start with the body.
          refine ih.of_union ?_
          intro later hlater
          obtain ⟨matched, hmatched, hwalk⟩ := hcomplete later hlater
          exact ⟨matched, hmatched, fun _ _ hiterations => .again hwalk hiterations⟩

/-! ### Trees -/

/-- A walk through nodes goes through the first one and then through the others. -/
theorem Node.walkThrough_cons_iff {node : Node} {nodes : List Node} {matched matched' : Finset Nat}
    {violations : List Violation} :
    WalkThrough (node :: nodes) matched violations matched' ↔
      ∃ first middle last, node.Walk matched first middle ∧
        WalkThrough nodes middle last matched' ∧ violations = first ++ last := by
  constructor
  · intro h
    cases h with
    | cons hnode hnodes => exact ⟨_, _, _, hnode, hnodes, rfl⟩
  · intro h
    obtain ⟨first, middle, last, hnode, hnodes, rfl⟩ := h
    exact .cons hnode hnodes

/-- Recording a group is collected by recording it in each state. -/
theorem Collects.capture {group : Nat} (hgroup : group < 16) (states : Finset GroupSet) :
    Collects (fun matched violations matched' =>
        violations = [] ∧ matched' = insert group matched) states
      (some (states.image (·.insert group))) := by
  refine .ends ?_ ?_
  · intro matched hmatched violations matched' hends
    obtain ⟨hnone, hsame⟩ := hends
    refine ⟨hnone, matched.insert group, Finset.mem_image_of_mem _ hmatched, ?_⟩
    rw [GroupSet.toFinset_insert _ hgroup, hsame]
  · intro after hafter
    obtain ⟨matched, hmatched, rfl⟩ := Finset.mem_image.1 hafter
    exact ⟨matched, hmatched, rfl, GroupSet.toFinset_insert _ hgroup⟩

variable {root : Node} {relevant : Node → Bool}

mutual

/-- The analysis of a node collects the walks through it. -/
theorem Node.collects_flow (hroot : root.Explorable relevant) : ∀ (node : Node),
    node ∈ root.subtree → ∀ states, Collects node.Walk states (node.flow states)
  | ⟨label, kind, children⟩, hnode, states => by
      have hchildren : ∀ child ∈ children, child ∈ root.subtree := Node.children_subset hnode
      have hthrough := Node.collects_flowThrough hroot children hchildren
      cases kind with
      | literal letter =>
          refine .idle fun matched violations matched' => ⟨fun h => ?_, fun h => ?_⟩
          · cases h
            exact ⟨rfl, rfl⟩
          · obtain ⟨rfl, rfl⟩ := h
            exact .literal
      | expressionRef group =>
          refine .idle fun matched violations matched' => ⟨fun h => ?_, fun h => ?_⟩
          · cases h
            exact ⟨rfl, rfl⟩
          · obtain ⟨rfl, rfl⟩ := h
            exact .expressionRef
      | stringRef group =>
          rw [Node.flow]
          by_cases hread : ∀ matched ∈ states, matched.contains group
          · rw [if_pos hread]
            refine .ends ?_ ?_
            · intro matched hmatched violations matched' hwalk
              cases hwalk with
              | read _ => exact ⟨rfl, matched, hmatched, rfl⟩
              | violate hmissing =>
                  exact absurd (GroupSet.mem_toFinset.2 (hread matched hmatched)) hmissing
            · intro matched hmatched
              exact ⟨matched, hmatched, .read (GroupSet.mem_toFinset.2 (hread matched hmatched))⟩
          · rw [if_neg hread]
            obtain ⟨matched, hmissing⟩ := not_forall.1 hread
            obtain ⟨hmatched, hmissing⟩ := Classical.not_imp.1 hmissing
            refine .fails hmatched (.violate ?_) (List.cons_ne_nil _ _)
            exact mt GroupSet.mem_toFinset.1 hmissing
      | sequence =>
          refine (hthrough states).congr fun matched violations matched' => ⟨.sequence, ?_⟩
          intro h
          cases h with
          | sequence hwalk => exact hwalk
      | branch =>
          refine (hthrough states).congr fun matched violations matched' => ⟨.branch, ?_⟩
          intro h
          cases h with
          | branch hwalk => exact hwalk
      | group number =>
          cases number with
          | none =>
              refine (hthrough states).congr fun matched violations matched' => ⟨.nonCapturing, ?_⟩
              intro h
              cases h with
              | nonCapturing hwalk => exact hwalk
          | some group =>
              have hgroup := hroot.groupsFit _ hnode group rfl
              rw [Node.flow, Option.map_eq_bind]
              refine (hthrough states).bind (Collects.capture hgroup) ?_ ?_
              · intro matched
                exact ⟨[], insert group matched, rfl, rfl⟩
              · intro matched violations matched'
                constructor
                · intro h
                  cases h with
                  | capturing hwalk =>
                      exact ⟨_, _, [], hwalk, ⟨rfl, rfl⟩, (List.append_nil _).symm⟩
                · intro h
                  obtain ⟨first, middle, last, hwalk, ⟨rfl, rfl⟩, rfl⟩ := h
                  rw [List.append_nil]
                  exact .capturing hwalk
      | alternation =>
          refine (Node.collects_flowOver hroot children hchildren states).congr ?_
          intro matched violations matched'
          constructor
          · intro h
            obtain ⟨branch, hbranch, hwalk⟩ := h
            exact .alternation hbranch hwalk
          · intro h
            cases h with
            | alternation hbranch hwalk => exact ⟨_, hbranch, hwalk⟩
      | repetition =>
          refine ((rounds_closeUnder _ states).collects hthrough).congr ?_
          intro matched violations matched'
          constructor
          · exact .repetition
          · intro h
            cases h with
            | repetition hiterations => exact hiterations

/-- The analysis of some nodes one after the other collects the walks through them. -/
theorem Node.collects_flowThrough (hroot : root.Explorable relevant) : ∀ (nodes : List Node),
    (∀ node ∈ nodes, node ∈ root.subtree) →
    ∀ states, Collects (Node.WalkThrough nodes) states (Node.flowThrough nodes states)
  | [], _, states => by
      refine .idle fun matched violations matched' => ⟨fun h => ?_, fun h => ?_⟩
      · cases h
        exact ⟨rfl, rfl⟩
      · obtain ⟨rfl, rfl⟩ := h
        exact .nil
  | node :: nodes, hnodes, states => by
      obtain ⟨hnode, hnodes⟩ := List.forall_mem_cons.1 hnodes
      refine (Node.collects_flow hroot node hnode states).bind
        (Node.collects_flowThrough hroot nodes hnodes) ?_ fun _ _ _ => Node.walkThrough_cons_iff
      intro matched
      refine Node.exists_walkThrough (fun inner hinner => ?_) matched
      obtain ⟨other, hother, hinner⟩ := Node.mem_subtrees.1 hinner
      exact hroot.isFormed inner (Node.subtree_subset (hnodes other hother) hinner)

/-- The analysis of a choice collects the walks through the chosen nodes. -/
theorem Node.collects_flowOver (hroot : root.Explorable relevant) : ∀ (nodes : List Node),
    (∀ node ∈ nodes, node ∈ root.subtree) →
    ∀ states, Collects (fun matched violations matched' =>
        ∃ node ∈ nodes, node.Walk matched violations matched') states
      (Node.flowOver nodes states)
  | [], _, states => by
      refine .ends ?_ ?_
      · intro matched _ violations matched' h
        obtain ⟨node, hnode, _⟩ := h
        cases hnode
      · intro after hafter
        cases hafter
  | node :: nodes, hnodes, states => by
      obtain ⟨hnode, hnodes⟩ := List.forall_mem_cons.1 hnodes
      refine (Node.collects_flow hroot node hnode states).union
        (Node.collects_flowOver hroot nodes hnodes states) ?_
      intro matched violations matched'
      exact List.exists_mem_cons_iff _ _ _

end

end Backref
