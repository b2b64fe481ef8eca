import Backref.Proofs.Reference.Completion
import Backref.Proofs.Reference.Limit
import Mathlib.Algebra.BigOperators.Group.Multiset.Basic
import Mathlib.Algebra.Order.Ring.Nat

/-!
# Exploring in any order

Several workers may follow the paths of one exploration. They share the count of forks, the mark
that a fork was dropped and the first violation; which of the waiting paths makes the next move is
open. `Pool.Step` is such an exploration with any choice of the next path. Read
`Pattern.schedules_agree` first: the choice decides neither whether a pattern is accepted nor, with
room for all forks, whether a violation is found.

The order does not matter because `Pool.Acceptable` does not depend on it: the moves of a path
are its own, and a step keeps the sum of the forks met and the forks still to come.
-/

namespace Backref

/-! ## The forks before a path -/

namespace Path

variable {relevant : Node → Bool} {path next : Path} {forks : List Path}

/-- A path has no more work than it has together with other paths. -/
theorem work_le_totalWork {tick : Nat} {paths : List Path} (h : path ∈ paths) :
    path.work tick relevant ≤ totalWork tick relevant paths := by
  obtain ⟨before, after, rfl⟩ := List.append_of_mem h
  rw [totalWork_append, totalWork]
  omega

/-- The paths that come out of a move have less work than the path had. -/
theorem work_lt_of_mem (hmove : path.move relevant = .advances next forks) {other : Path}
    (hother : other ∈ next :: forks) : other.work 1 relevant < path.work 1 relevant := by
  have hwork : path.work 1 relevant =
      1 + next.work 1 relevant + totalWork 1 relevant forks := work_move hmove
  rcases List.mem_cons.1 hother with rfl | hfork
  · omega
  · have hle : other.work 1 relevant ≤ totalWork 1 relevant forks := work_le_totalWork hfork
    omega

/-- The number of forks on all ways of a path. A way that violates ends there. -/
def forkCount (relevant : Node → Bool) (path : Path) : Nat :=
  match _ : path.move relevant with
  | .finished => 0
  | .violates _ _ => 0
  | .advances next forks =>
      forks.length + (next.forkCount relevant +
        (forks.attach.map fun fork => fork.1.forkCount relevant).sum)
termination_by path.work 1 relevant
decreasing_by
  · exact work_lt_of_mem ‹_› List.mem_cons_self
  · exact work_lt_of_mem ‹_› (List.mem_cons_of_mem _ fork.2)

/-- A path that has come to its end does not fork. -/
theorem forkCount_of_finished (hmove : path.move relevant = .finished) :
    path.forkCount relevant = 0 := by
  rw [forkCount]
  split <;> simp_all

/-- A path that violates does not fork. -/
theorem forkCount_of_violates {group position : Nat}
    (hmove : path.move relevant = .violates group position) : path.forkCount relevant = 0 := by
  rw [forkCount]
  split <;> simp_all

/-- The forks of a move come before those of the paths that come out of it. -/
theorem forkCount_of_advances (hmove : path.move relevant = .advances next forks) :
    path.forkCount relevant =
      forks.length + (next.forkCount relevant + (forks.map (forkCount relevant)).sum) := by
  rw [forkCount]
  split
  · next hother => exact nomatch hmove.symm.trans hother
  · next hother => exact nomatch hmove.symm.trans hother
  · next hother =>
      obtain ⟨rfl, rfl⟩ := Move.advances.inj (hmove.symm.trans hother)
      rw [List.attach_map_val]

/-- A path is safe when those that come out of its move are. -/
theorem safe_iff_of_advances (hmove : path.move relevant = .advances next forks) :
    path.Safe relevant ↔ ∀ other ∈ next :: forks, other.Safe relevant := by
  constructor
  · intro h
    cases h with
    | finished hother => exact nomatch hmove.symm.trans hother
    | advances hother hnext hforks =>
        obtain ⟨rfl, rfl⟩ := Move.advances.inj (hmove.symm.trans hother)
        exact List.forall_mem_cons.2 ⟨hnext, hforks⟩
  · intro h
    obtain ⟨hnext, hforks⟩ := List.forall_mem_cons.1 h
    exact .advances hmove hnext hforks

/-- The ways of a path stay in the tree. -/
theorem Leads.within {root : Node} {last : Path} (h : path.Leads relevant last)
    (hgroups : root.GroupsFit) (hpath : path.Within root) : last.Within root := by
  induction h with
  | refl => exact hpath
  | tail _ hstep ih =>
      obtain ⟨next, forks, hmove, hother⟩ := hstep
      exact (moves_of_move_eq hmove).within hgroups ih _ hother

/-- A path of which a way comes to a violation violates. -/
theorem Leads.violates {last : Path} {group position : Nat} (h : path.Leads relevant last)
    (hlast : last.move relevant = .violates group position) :
    path.Violates relevant group position := by
  induction h using Relation.ReflTransGen.head_induction_on with
  | refl => exact .here hlast
  | head hstep _ ih =>
      obtain ⟨next, forks, hmove, hother⟩ := hstep
      rcases List.mem_cons.1 hother with rfl | hfork
      · exact .advances hmove ih
      · exact .fork hmove hfork ih

end Path

/-- The rejection that reports a violation. -/
def Violation.rejection (violation : Violation) : Rejection :=
  .uninitialized violation.group violation.position

/-- With room for all of them, the forks are kept. -/
theorem Budget.coe_keep {limit : Nat} {budget : Budget limit} {forks : List Path}
    (hroom : budget.met + forks.length ≤ limit) : (budget.keep forks : Multiset Path) = forks := by
  rw [Budget.keep_eq, Search.kept, List.take_of_length_le (by omega), Multiset.coe_reverse]

/-! ## Steps in any order -/

/-- An exploration shared by several workers: the paths to follow, in no order, the forks met so
far, and the first violation that was found. -/
structure Pool (limit : Nat) where
  paths : Multiset Path
  budget : Budget limit
  violation : Option Violation

namespace Pool

variable {relevant : Node → Bool} {limit : Nat} {pool pool' final : Pool limit}

/-- The exploration that has a pattern before it. -/
def start (pattern : Pattern) (limit : Nat) : Pool limit :=
  ⟨{Path.start pattern}, .start limit, none⟩

/-- Any path makes the next step. Its forks are counted one after the other, and each of them waits
with the other paths if there is room for it. The first violation is kept, and once there is one,
any path may be given up. -/
inductive Step (relevant : Node → Bool) : Pool limit → Pool limit → Prop where
  | finish {path : Path} {waiting : Multiset Path} {budget : Budget limit}
      {violation : Option Violation} : path.move relevant = .finished →
      Step relevant ⟨path ::ₘ waiting, budget, violation⟩ ⟨waiting, budget, violation⟩
  | advance {path next : Path} {forks : List Path} {waiting : Multiset Path}
      {budget : Budget limit} {violation : Option Violation} :
      path.move relevant = .advances next forks →
      Step relevant ⟨path ::ₘ waiting, budget, violation⟩
        ⟨next ::ₘ (budget.keep forks + waiting), budget.countAll forks, violation⟩
  | violate {path : Path} {waiting : Multiset Path} {budget : Budget limit}
      {violation : Option Violation} {group position : Nat} :
      path.move relevant = .violates group position →
      Step relevant ⟨path ::ₘ waiting, budget, violation⟩
        ⟨waiting, budget, violation.or (some ⟨group, position⟩)⟩
  | abandon {path : Path} {waiting : Multiset Path} {budget : Budget limit}
      {violation : Violation} :
      Step relevant ⟨path ::ₘ waiting, budget, some violation⟩ ⟨waiting, budget, some violation⟩

/-- The steps lead from the first state to the second one. -/
def Reaches (relevant : Node → Bool) : Pool limit → Pool limit → Prop :=
  Relation.ReflTransGen (Step relevant)

/-- The steps lead from the first state to the second one, where no path is left. -/
structure Completes (relevant : Node → Bool) (pool final : Pool limit) : Prop where
  reaches : pool.Reaches relevant final
  paths_eq : final.paths = 0

/-- What is found when no path is left. -/
def verdict (pool : Pool limit) : Except Rejection Unit :=
  match pool.violation with
  | some violation => .error violation.rejection
  | none => pool.budget.verdict

/-- A complete exploration accepts when it has found no violation and dropped no fork. -/
theorem verdict_eq_ok_iff :
    pool.verdict = .ok () ↔ pool.violation = none ∧ pool.budget.met ≤ limit := by
  obtain ⟨paths, budget, violation⟩ := pool
  cases violation with
  | some violation => exact iff_of_false (fun h => nomatch h) (fun h => nomatch h.1)
  | none =>
      have hdropped : budget.dropped = true ↔ limit < budget.met := by
        rw [budget.dropped_eq, decide_eq_true_eq]
      show budget.verdict = .ok () ↔ none = none ∧ budget.met ≤ limit
      rw [Budget.verdict, ← Nat.not_lt, ← hdropped]
      split
      · next h => simp [h]
      · next h => simp [h]

/-! ## Every exploration ends -/

/-- The work of all paths. -/
def work (relevant : Node → Bool) (pool : Pool limit) : Nat :=
  (pool.paths.map (Path.work 1 relevant)).sum

/-- The work of some paths is the sum of what each of them has to do. -/
theorem sum_work_eq (tick : Nat) (paths : List Path) :
    ((paths : Multiset Path).map (Path.work tick relevant)).sum =
      Path.totalWork tick relevant paths := by
  induction paths with
  | nil => rfl
  | cons path paths ih =>
      rw [← Multiset.cons_coe, Multiset.map_cons, Multiset.sum_cons, ih]
      rfl

/-- Each step lessens the work. -/
theorem Step.work_lt (h : Step relevant pool pool') : pool'.work relevant < pool.work relevant := by
  cases h with
  | finish | violate | abandon =>
      rw [work, work, Multiset.map_cons, Multiset.sum_cons]
      exact Nat.lt_add_of_pos_left (Task.workThrough_pos 1 relevant _ _)
  | @advance path next forks waiting budget violation hmove =>
      have hwork : path.work 1 relevant =
          1 + next.work 1 relevant + Path.totalWork 1 relevant forks := Path.work_move hmove
      have hkept := Search.totalWork_kept_le relevant limit budget.met forks
      rw [work, work, Multiset.map_cons, Multiset.sum_cons, Multiset.map_cons, Multiset.sum_cons,
        Multiset.map_add, Multiset.sum_add, sum_work_eq, budget.keep_eq]
      omega

/-! ## Accepting does not depend on the order -/

/-- The forks on all ways of all paths. -/
def forkCount (relevant : Node → Bool) (pool : Pool limit) : Nat :=
  (pool.paths.map (Path.forkCount relevant)).sum

/-- There is room for all forks that are still to come. -/
def Roomy (relevant : Node → Bool) (pool : Pool limit) : Prop :=
  pool.budget.met + pool.forkCount relevant ≤ limit

/-- No violation has been found, every way of every path comes to its end, and there is room for all
forks. -/
structure Acceptable (relevant : Node → Bool) (pool : Pool limit) : Prop where
  violation_eq : pool.violation = none
  safe : ∀ path ∈ pool.paths, path.Safe relevant
  roomy : pool.Roomy relevant

/-- With one path more, there is room if there is room for the forks of that path too. -/
theorem roomy_cons_iff {path : Path} {waiting : Multiset Path} {budget : Budget limit}
    {violation : Option Violation} :
    Roomy relevant ⟨path ::ₘ waiting, budget, violation⟩ ↔
      budget.met + (path.forkCount relevant +
        (waiting.map (Path.forkCount relevant)).sum) ≤ limit := by
  rw [Roomy, forkCount, Multiset.map_cons, Multiset.sum_cons]

/-- Without one of its paths, there is still room. -/
theorem Roomy.of_cons {path : Path} {waiting : Multiset Path} {budget : Budget limit}
    {violation : Option Violation} (h : Roomy relevant ⟨path ::ₘ waiting, budget, violation⟩)
    (violation' : Option Violation) : Roomy relevant ⟨waiting, budget, violation'⟩ := by
  have hroom := roomy_cons_iff.1 h
  show budget.met + (waiting.map (Path.forkCount relevant)).sum ≤ limit
  omega

/-- A path has room for its forks when the paths that come out of its move have. -/
theorem roomy_advance_iff {path next : Path} {forks : List Path}
    (hmove : path.move relevant = .advances next forks) {waiting : Multiset Path}
    {budget : Budget limit} {violation : Option Violation} :
    Roomy relevant ⟨path ::ₘ waiting, budget, violation⟩ ↔
      Roomy relevant
        ⟨next ::ₘ (budget.keep forks + waiting), budget.countAll forks, violation⟩ := by
  rw [roomy_cons_iff, roomy_cons_iff, budget.met_countAll, Path.forkCount_of_advances hmove]
  by_cases hroom : budget.met + forks.length ≤ limit
  · rw [Budget.coe_keep hroom, Multiset.map_add, Multiset.sum_add, Multiset.map_coe,
      Multiset.sum_coe]
    omega
  · exact iff_of_false (by omega) (by omega)

/-- A step leaves room for the forks that are still to come. -/
theorem Step.roomy (h : Step relevant pool pool') (hroomy : pool.Roomy relevant) :
    pool'.Roomy relevant := by
  cases h with
  | advance hmove => exact (roomy_advance_iff hmove).1 hroomy
  | finish | violate | abandon => exact hroomy.of_cons _

/-- A step changes nothing in whether a state is acceptable. -/
theorem Step.acceptable_iff (h : Step relevant pool pool') :
    pool.Acceptable relevant ↔ pool'.Acceptable relevant := by
  cases h with
  | @finish path waiting budget violation hmove =>
      have hsafe : (∀ other ∈ path ::ₘ waiting, other.Safe relevant) ↔
          ∀ other ∈ waiting, other.Safe relevant := by
        rw [Multiset.forall_mem_cons, and_iff_right (.finished hmove)]
      have hroomy : Roomy relevant ⟨path ::ₘ waiting, budget, violation⟩ ↔
          Roomy relevant ⟨waiting, budget, violation⟩ := by
        rw [roomy_cons_iff, Path.forkCount_of_finished hmove, Nat.zero_add]
        rfl
      constructor
      · intro h
        exact ⟨h.violation_eq, hsafe.1 h.safe, hroomy.1 h.roomy⟩
      · intro h
        exact ⟨h.violation_eq, hsafe.2 h.safe, hroomy.2 h.roomy⟩
  | @advance path next forks waiting budget violation hmove =>
      -- With room for all forks, the paths are those that come out of the move and the others.
      have hsafe : budget.met + forks.length ≤ limit →
          ((∀ other ∈ path ::ₘ waiting, other.Safe relevant) ↔
            ∀ other ∈ next ::ₘ (budget.keep forks + waiting), other.Safe relevant) := by
        intro hroom
        rw [Budget.coe_keep hroom]
        simp only [Multiset.mem_cons, Multiset.mem_add, Multiset.mem_coe, or_imp, forall_and,
          forall_eq, Path.safe_iff_of_advances hmove, List.mem_cons, and_assoc]
      constructor
      · intro h
        have hroom := roomy_cons_iff.1 h.roomy
        rw [Path.forkCount_of_advances hmove] at hroom
        exact ⟨h.violation_eq, (hsafe (by omega)).1 h.safe, (roomy_advance_iff hmove).1 h.roomy⟩
      · intro h
        have hroom := roomy_cons_iff.1 h.roomy
        rw [budget.met_countAll] at hroom
        exact ⟨h.violation_eq, (hsafe (by omega)).2 h.safe, (roomy_advance_iff hmove).2 h.roomy⟩
  | @violate path waiting budget violation group position hmove =>
      refine iff_of_false (fun h => ?_) fun h => ?_
      · exact (h.safe path (Multiset.mem_cons_self _ _)).not_violates _ _ (.here hmove)
      · have hnone := h.violation_eq
        cases violation <;> cases hnone
  | abandon => exact iff_of_false (fun h => nomatch h.violation_eq) fun h => nomatch h.violation_eq

/-- No step changes whether a state is acceptable. -/
theorem Reaches.acceptable_iff (h : pool.Reaches relevant final) :
    pool.Acceptable relevant ↔ final.Acceptable relevant := by
  induction h with
  | refl => rfl
  | tail _ hstep ih => exact ih.trans hstep.acceptable_iff

/-- An exploration that started with room for all forks has room for those that are still to
come. -/
theorem Reaches.roomy (h : pool.Reaches relevant final) (hroomy : pool.Roomy relevant) :
    final.Roomy relevant := by
  induction h with
  | refl => exact hroomy
  | tail _ hstep ih => exact hstep.roomy ih

/-- At the start there is room if the limit allows the forks of the pattern. -/
theorem roomy_start_iff {pattern : Pattern} :
    (start pattern limit).Roomy relevant ↔ (Path.start pattern).forkCount relevant ≤ limit := by
  rw [start, ← Multiset.cons_zero, roomy_cons_iff]
  show 0 + ((Path.start pattern).forkCount relevant + 0) ≤ limit ↔ _
  rw [Nat.zero_add, Nat.add_zero]

/-- Where no path is left, an acceptable state is one that accepts. -/
theorem verdict_eq_ok_iff_acceptable (hpaths : pool.paths = 0) :
    pool.verdict = .ok () ↔ pool.Acceptable relevant := by
  have hforks : pool.forkCount relevant = 0 := by rw [forkCount, hpaths]; rfl
  rw [verdict_eq_ok_iff]
  constructor
  · intro h
    obtain ⟨hnone, hmet⟩ := h
    refine ⟨hnone, fun path hpath => ?_, ?_⟩
    · rw [hpaths] at hpath
      exact absurd hpath (Multiset.notMem_zero path)
    · rw [Roomy, hforks]
      exact hmet
  · intro h
    exact ⟨h.violation_eq, (Nat.le_add_right _ _).trans h.roomy⟩

/-- A complete exploration accepts exactly if it started in an acceptable state. -/
theorem Completes.verdict_eq_ok_iff (h : pool.Completes relevant final) :
    final.verdict = .ok () ↔ pool.Acceptable relevant :=
  (verdict_eq_ok_iff_acceptable h.paths_eq).trans h.reaches.acceptable_iff.symm

/-- With room for all forks, a complete exploration accepts or has found a violation. -/
theorem Completes.verdict_cases (h : pool.Completes relevant final)
    (hroomy : pool.Roomy relevant) :
    final.verdict = .ok () ∨
      ∃ group index, final.verdict = .error (.uninitialized group index) := by
  have hfinal := h.reaches.roomy hroomy
  cases hviolation : final.violation with
  | none =>
      exact .inl (Pool.verdict_eq_ok_iff.2 ⟨hviolation, (Nat.le_add_right _ _).trans hfinal⟩)
  | some violation =>
      refine .inr ⟨violation.group, violation.position, ?_⟩
      rw [verdict, hviolation]
      rfl

/-! ## Violations are real -/

/-- Ways from the start lead to all paths, and one of them to the violation that is kept. -/
structure Reached (relevant : Node → Bool) (start : Path) (pool : Pool limit) : Prop where
  leads : ∀ path ∈ pool.paths, start.Leads relevant path
  violates : ∀ violation, pool.violation = some violation → ∃ path, start.Leads relevant path ∧
    path.move relevant = .violates violation.group violation.position

/-- A step goes on from paths that the ways have come to. -/
theorem Step.reached {start : Path} (h : Step relevant pool pool')
    (hreached : pool.Reached relevant start) : pool'.Reached relevant start := by
  cases h with
  | finish _ | abandon =>
      exact ⟨(Multiset.forall_mem_cons.1 hreached.leads).2, hreached.violates⟩
  | @advance path next forks waiting budget violation hmove =>
      obtain ⟨hpath, hwaiting⟩ := Multiset.forall_mem_cons.1 hreached.leads
      have hothers : ∀ other ∈ next :: forks, start.Leads relevant other := fun other hother =>
        hpath.tail ⟨next, forks, hmove, hother⟩
      refine ⟨fun other hother => ?_, hreached.violates⟩
      rcases Multiset.mem_cons.1 hother with rfl | hother
      · exact hothers other List.mem_cons_self
      · rcases Multiset.mem_add.1 hother with hfork | hwait
        · rw [Multiset.mem_coe, budget.keep_eq] at hfork
          exact hothers other (List.mem_cons_of_mem _ (Search.mem_of_mem_kept hfork))
        · exact hwaiting other hwait
  | @violate path waiting budget violation group position hmove =>
      obtain ⟨hpath, hwaiting⟩ := Multiset.forall_mem_cons.1 hreached.leads
      refine ⟨hwaiting, fun found hfound => ?_⟩
      cases violation with
      | some first => exact hreached.violates found hfound
      | none =>
          cases hfound
          exact ⟨path, hpath, hmove⟩

/-- What holds of the start holds of all that the steps lead to. -/
theorem Reaches.reached {start : Path} (h : pool.Reaches relevant final)
    (hreached : pool.Reached relevant start) : final.Reached relevant start := by
  induction h with
  | refl => exact hreached
  | tail _ hstep ih => exact hstep.reached ih

/-- At the start no violation has been found. -/
theorem reached_start (pattern : Pattern) (limit : Nat) :
    (start pattern limit).Reached relevant (Path.start pattern) := by
  refine ⟨fun path hpath => ?_, fun violation h => nomatch h⟩
  rw [Multiset.mem_singleton.1 hpath]
  exact .refl

/-! ## One worker -/

/-- After a violation all paths may be given up. -/
theorem reaches_abandoned (paths : Multiset Path) (budget : Budget limit)
    (violation : Violation) :
    Reaches relevant ⟨paths, budget, some violation⟩ ⟨0, budget, some violation⟩ := by
  induction paths using Multiset.induction with
  | empty => exact .refl
  | cons path waiting ih => exact .head .abandon ih

end Pool

/-- A search that always goes on with its first path is one of the explorations. -/
theorem Search.exists_completes {relevant : Node → Bool} {limit : Nat} {search : Search}
    {budget : Budget limit} (hmet : search.forks = budget.met)
    (hdropped : search.dropped = budget.dropped) :
    ∃ final : Pool limit, Pool.Completes relevant ⟨search.paths, budget, none⟩ final ∧
      final.verdict = search.run relevant limit := by
  induction search using Search.run.induct relevant limit generalizing budget with
  | case1 search hnext h =>
      rw [exhausted_cases hnext]
      refine ⟨⟨0, budget, none⟩, ⟨.refl, rfl⟩, ?_⟩
      rw [run_of_exhausted hnext, hdropped]
      rfl
  | case2 search hnext h =>
      rw [exhausted_cases hnext]
      refine ⟨⟨0, budget, none⟩, ⟨.refl, rfl⟩, ?_⟩
      rw [run_of_exhausted hnext, hdropped]
      rfl
  | case3 search group position hnext =>
      obtain ⟨path, waiting, hpaths, hmove⟩ := violated_cases hnext
      have habandoned : Pool.Reaches relevant ⟨waiting, budget, some ⟨group, position⟩⟩
          ⟨0, budget, some ⟨group, position⟩⟩ := Pool.reaches_abandoned waiting budget _
      refine ⟨⟨0, budget, some ⟨group, position⟩⟩, ⟨?_, rfl⟩, (run_of_violated hnext).symm⟩
      rw [hpaths, ← Multiset.cons_coe]
      exact .head (.violate hmove) habandoned
  | case4 search search' hnext ih =>
      rw [run_of_running hnext]
      obtain ⟨path, waiting, hpaths, ⟨hmove, rfl⟩ | ⟨next, forks, hmove, rfl⟩⟩ := next_cases hnext
      · obtain ⟨final, hfinal, hverdict⟩ := ih hmet hdropped
        rw [hpaths, ← Multiset.cons_coe]
        exact ⟨final, ⟨.head (.finish hmove) hfinal.reaches, hfinal.paths_eq⟩, hverdict⟩
      · have hcount : search.forks + forks.length = (budget.countAll forks).met := by
          rw [budget.met_countAll, hmet]
        have hdrop : (search.dropped || decide (limit < search.forks + forks.length)) =
            (budget.countAll forks).dropped := by
          rw [Budget.dropped_eq, ← hcount, hdropped, budget.dropped_eq, hmet, ← Bool.decide_or,
            decide_eq_decide]
          omega
        obtain ⟨final, hfinal, hverdict⟩ := ih hcount hdrop
        have hstep : Pool.Step relevant ⟨search.paths, budget, none⟩
            ⟨next :: (kept limit search.forks forks ++ waiting), budget.countAll forks, none⟩ := by
          rw [hpaths, hmet, ← budget.keep_eq, ← Multiset.cons_coe, ← Multiset.cons_coe,
            ← Multiset.coe_add]
          exact .advance hmove
        exact ⟨final, ⟨.head hstep hfinal.reaches, hfinal.paths_eq⟩, hverdict⟩

/-- A search accepts exactly if every way comes to its end and the limit allows all forks. -/
theorem Search.run_start_eq_ok_iff {relevant : Node → Bool} {limit : Nat} {pattern : Pattern} :
    (start pattern).run relevant limit = .ok () ↔
      (Path.start pattern).Safe relevant ∧ (Path.start pattern).forkCount relevant ≤ limit := by
  obtain ⟨final, hfinal, hverdict⟩ : ∃ final : Pool limit,
      (Pool.start pattern limit).Completes relevant final ∧
        final.verdict = (start pattern).run relevant limit :=
    @exists_completes relevant limit (start pattern) (.start limit) rfl rfl
  rw [← hverdict, hfinal.verdict_eq_ok_iff]
  constructor
  · intro h
    exact ⟨h.safe _ (Multiset.mem_singleton_self _), Pool.roomy_start_iff.1 h.roomy⟩
  · intro h
    refine ⟨rfl, fun path hpath => ?_, Pool.roomy_start_iff.2 h.2⟩
    rw [Multiset.mem_singleton.1 hpath]
    exact h.1

/-! ## Schedules of a pattern -/

namespace Pattern

/-- The number of forks of an exploration of the pattern that nothing but the end of a path and a
violation on it stops. -/
def forkCount (pattern : Pattern) : Nat :=
  (Path.start pattern).forkCount (Relevance.isMarked pattern.relevance)

/-- The exploration of the pattern may come to the given state. -/
def Explores {limit : Nat} (pattern : Pattern) (pool : Pool limit) : Prop :=
  (Pool.start pattern limit).Reaches (Relevance.isMarked pattern.relevance) pool

/-- The exploration of the pattern may be complete in the given state. -/
def Schedules {limit : Nat} (pattern : Pattern) (final : Pool limit) : Prop :=
  (Pool.start pattern limit).Completes (Relevance.isMarked pattern.relevance) final

/-- Some way through the pattern comes to a string reference before its group has matched. -/
def ReadsEarly (pattern : Pattern) (violation : Violation) : Prop :=
  ∃ path node rest, (Path.start pattern).Leads (Relevance.isMarked pattern.relevance) path ∧
    path.pending = .visit node :: rest ∧ node ∈ pattern.root.subtree ∧
    node.kind = .stringRef violation.group ∧ node.position = violation.position ∧
    ¬ path.matched.contains violation.group

variable {text : String} {pattern : Pattern} {limit : Nat}

/-- A violation that is kept has been read early, and some walk makes it. -/
theorem Explores.readsEarly (h : Pattern.parse text = .ok pattern) {pool : Pool limit}
    (hpool : pattern.Explores pool) {violation : Violation}
    (hviolation : pool.violation = some violation) :
    pattern.ReadsEarly violation ∧
      pattern.MayViolate violation.group violation.position := by
  have hroot := explorable_of_parse h
  obtain ⟨path, hleads, hmove⟩ :=
    (Pool.Reaches.reached hpool (Pool.reached_start pattern limit)).violates violation hviolation
  constructor
  · have hwithin := hleads.within hroot.groupsFit pattern.within_start
    obtain ⟨id, children, rest, hpending, hmatched⟩ := Path.exists_of_move_eq_violates hmove
    rw [Path.Within, hpending] at hwithin
    exact ⟨path, _, rest, hleads, hpending, (List.forall_mem_cons.1 hwithin).1, rfl, rfl, hmatched⟩
  · obtain ⟨violations, matched, hwalk, hmem⟩ :=
      (hleads.violates hmove).exists_walkThrough hroot pattern.within_start
    exact ⟨violations, matched, GroupSet.toFinset_empty ▸ walk_of_start hwalk, hmem⟩

/-- The check with one worker is one of the schedules. -/
theorem exists_schedules (href : pattern.hasStringRef) (limit : Nat) :
    ∃ final : Pool limit, pattern.Schedules final ∧ final.verdict = pattern.checkPaths limit := by
  rw [checkPaths, if_pos href]
  exact @Search.exists_completes _ limit (.start pattern) (.start limit) rfl rfl

/-- Every schedule of the pattern accepts if one does. -/
theorem Schedules.verdict_eq_ok {final final' : Pool limit} (h : pattern.Schedules final)
    (h' : pattern.Schedules final') (haccepted : final.verdict = .ok ()) :
    final'.verdict = .ok () :=
  h'.verdict_eq_ok_iff.2 (h.verdict_eq_ok_iff.1 haccepted)

/-- The order in which the paths of a pattern are followed does not matter for its verdict. No
exploration goes on forever, and the check with one worker is one of them. If one schedule accepts,
each does. A violation that is kept under any schedule is a string reference that some way comes to
before its group has matched. With room for the forks of an exploration that no violation stops, all
schedules accept or all find a violation. -/
theorem schedules_agree (h : Pattern.parse text = .ok pattern) (href : pattern.hasStringRef)
    (maxPaths : Nat) :
    (WellFounded fun later earlier : Pool maxPaths =>
      Pool.Step (Relevance.isMarked pattern.relevance) earlier later) ∧
    (∃ final : Pool maxPaths, pattern.Schedules final ∧
      final.verdict = (Config.mk maxPaths 1 .pathSensitive).check pattern) ∧
    ((∃ final : Pool maxPaths, pattern.Schedules final ∧ final.verdict = .ok ()) →
      ∀ final : Pool maxPaths, pattern.Schedules final → final.verdict = .ok ()) ∧
    (∀ (pool : Pool maxPaths) (violation : Violation), pattern.Explores pool →
      pool.violation = some violation → pattern.ReadsEarly violation ∧
        pattern.MayViolate violation.group violation.position) ∧
    (pattern.forkCount ≤ maxPaths → ∀ final final' : Pool maxPaths,
      pattern.Schedules final → pattern.Schedules final' →
      (final.verdict = .ok () ↔ final'.verdict = .ok ()) ∧
      (final.verdict = .ok () ∨
        ∃ group index, final.verdict = .error (.uninitialized group index))) := by
  refine ⟨?_, exists_schedules href maxPaths, ?_, ?_, ?_⟩
  · exact Subrelation.wf (fun hstep => hstep.work_lt) (measure (Pool.work _)).wf
  · intro hone other hother
    obtain ⟨final, hfinal, haccepted⟩ := hone
    exact hfinal.verdict_eq_ok hother haccepted
  · intro pool violation hpool hviolation
    exact Explores.readsEarly h hpool hviolation
  · intro hroom final final' hfinal hfinal'
    have hroomy : (Pool.start pattern maxPaths).Roomy (Relevance.isMarked pattern.relevance) :=
      Pool.roomy_start_iff.2 hroom
    exact ⟨⟨hfinal.verdict_eq_ok hfinal', hfinal'.verdict_eq_ok hfinal⟩,
      hfinal.verdict_cases hroomy⟩

/-- In `(?:(a)*\1|b\1)` either branch may be the first one to violate. The loop skipped, the loop
run again and the second branch are three forks, and with room for them every schedule finds a
violation. -/
theorem schedules_agree_branches :
    ∃ pattern, Pattern.parse "(?:(a)*\\1|b\\1)" = .ok pattern ∧ pattern.hasStringRef = true ∧
      pattern.forkCount ≤ 3 ∧ ∀ final : Pool 3, pattern.Schedules final →
        ∃ group index, final.verdict = .error (.uninitialized group index) := by
  obtain ⟨pattern, hparse, href, hroom, hcheck⟩ : ∃ pattern,
      Pattern.parse "(?:(a)*\\1|b\\1)" = .ok pattern ∧ pattern.hasStringRef = true ∧
        pattern.forkCount ≤ 3 ∧
        (Config.mk 3 1 .pathSensitive).check pattern = .error (.uninitialized 1 7) :=
    ⟨_, rfl, by decide +kernel, by decide +kernel, by decide +kernel⟩
  obtain ⟨_, ⟨single, hsingle, hverdict⟩, _, _, hagree⟩ := schedules_agree hparse href 3
  refine ⟨pattern, hparse, href, hroom, fun final hfinal => ?_⟩
  obtain ⟨hsame, haccepted | hviolated⟩ := hagree hroom final single hfinal hsingle
  · have hnone := (hverdict.symm.trans (hsame.1 haccepted)).symm.trans hcheck
    cases hnone
  · exact hviolated

end Pattern

end Backref
