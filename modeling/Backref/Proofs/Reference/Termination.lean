import Backref.Proofs.Reference.Completion
import Backref.Proofs.Reference.Move

/-!
# Searches end

`Pattern.search_ends` says that a search comes to its end after a number of steps that depends on
the pattern alone, whatever the limit on forks is, and that a search without a dropped fork takes
exactly that number of steps to follow every path. The number is the work before the first path.
Loops do not keep a search going: on every path in the course of a search the sets with which the
iterations of loops began lie in one another (`Path.Ascends`), so a loop that is offered again has
less room left for new groups.
-/

namespace Backref

/-! ## Sets at the beginning of iterations -/

/-- The set with which the last iteration of a loop began. -/
def Task.entry? : Task → Option GroupSet
  | .reenter _ entry => some entry
  | .visit _ | .capture _ => none

namespace Path

/-- The set of a path and the sets with which the iterations that it is in began, innermost loop
first. -/
def entries (path : Path) : List GroupSet := path.matched :: path.pending.filterMap Task.entry?

/-- The iterations of inner loops began with larger sets than those of the loops around them, and no
group is lost after that. -/
def Ascends (path : Path) : Prop := path.entries.Pairwise fun later earlier => earlier ⊆ later

variable {relevant : Node → Bool} {path next : Path} {forks : List Path}

/-- Nodes that are still to be visited are in no iteration. -/
theorem filterMap_entry?_visit (nodes : List Node) (rest : List Task) :
    (nodes.map Task.visit ++ rest).filterMap Task.entry? = rest.filterMap Task.entry? := by
  induction nodes with
  | nil => rfl
  | cons node nodes ih => exact ih

/-- Before the first move no iteration has begun. -/
theorem ascends_start (pattern : Pattern) : (start pattern).Ascends := List.pairwise_singleton _ _

/-- A loop is left with the sets of the loops around it. -/
theorem Ascends.leave {loop : Node} {entry matched : GroupSet} {rest : List Task}
    (h : Ascends ⟨matched, .reenter loop entry :: rest⟩) : Ascends ⟨matched, rest⟩ :=
  h.sublist ((List.sublist_cons_self entry _).cons_cons matched)

/-- An iteration begins with the present set. -/
theorem Ascends.iterate {loop : Node} {matched : GroupSet} {rest : List Task}
    (h : Ascends ⟨matched, rest⟩) (nodes : List Node) :
    Ascends ⟨matched, nodes.map .visit ++ .reenter loop matched :: rest⟩ := by
  rw [Ascends, entries, filterMap_entry?_visit]
  refine List.pairwise_cons.2 ⟨fun earlier hearlier => ?_, h⟩
  rcases List.mem_cons.1 hearlier with rfl | hearlier
  · exact GroupSet.subset_refl _
  · exact (List.pairwise_cons.1 h).1 earlier hearlier

/-- A group that matches stays matched. -/
theorem Ascends.capture {group : Nat} {matched : GroupSet} {rest : List Task}
    (h : Ascends ⟨matched, rest⟩) : Ascends ⟨matched.insert group, rest⟩ := by
  obtain ⟨hmatched, hrest⟩ := List.pairwise_cons.1 h
  exact List.pairwise_cons.2 ⟨fun earlier hearlier =>
    GroupSet.subset_trans (hmatched earlier hearlier) (GroupSet.subset_insert matched group), hrest⟩

/-- A move keeps the order of the sets, and so do the forks. -/
theorem Moves.ascends (h : Moves relevant path next forks) (hpath : path.Ascends) :
    ∀ other ∈ next :: forks, other.Ascends := by
  cases h with
  | skip _ | literal | expressionRef | read _ | noBranch => exact List.forall_mem_singleton.2 hpath
  | sequence | branch | nonCapturing | capturing =>
      refine List.forall_mem_singleton.2 ?_
      rw [Ascends, entries, filterMap_entry?_visit]
      exact hpath
  | alternation =>
      refine List.forall_mem_cons.2 ⟨hpath, fun other hother => ?_⟩
      obtain ⟨branch, _, rfl⟩ := List.mem_map.1 hother
      exact hpath
  | @repetition label children matched rest =>
      replace hpath : Ascends ⟨matched, rest⟩ := hpath
      exact List.forall_mem_cons.2 ⟨hpath.iterate _, List.forall_mem_singleton.2 hpath⟩
  | capture => exact List.forall_mem_singleton.2 (Ascends.capture hpath)
  | leave => exact List.forall_mem_singleton.2 hpath.leave
  | reenter _ =>
      exact List.forall_mem_cons.2
        ⟨hpath.leave.iterate _, List.forall_mem_singleton.2 hpath.leave⟩

/-- A loop that is offered again after its iteration has matched a new group has less room left. -/
theorem Ascends.room_lt {loop : Node} {entry : GroupSet} {rest : List Task}
    (h : path.Ascends) (hpending : path.pending = .reenter loop entry :: rest)
    (hne : path.matched ≠ entry) : entry ⊆ path.matched ∧ path.matched.room < entry.room := by
  have hmem : entry ∈ path.pending.filterMap Task.entry? :=
    hpending ▸ List.mem_cons_self
  have hsubset := (List.pairwise_cons.1 h).1 entry hmem
  exact ⟨hsubset, GroupSet.room_lt_room hsubset hne⟩

end Path

/-! ## Counting steps -/

/-- The search that goes on, unless this was its end. -/
def Search.Progress.search? : Search.Progress → Option Search
  | .running search => some search
  | .exhausted | .violated _ _ => none

namespace Search

/-- The search after a number of steps, unless it has ended before. -/
def after? (relevant : Node → Bool) (limit : Nat) (search : Search) : Nat → Option Search
  | 0 => some search
  | steps + 1 =>
      (search.after? relevant limit steps).bind fun later => (later.next relevant limit).search?

variable {relevant : Node → Bool} {limit steps : Nat} {search search' last : Search}

/-- A search goes on exactly when its next step leads to a search. -/
theorem search?_eq_some_iff :
    (search.next relevant limit).search? = some search' ↔
      search.next relevant limit = .running search' := by
  cases search.next relevant limit <;> simp [Progress.search?]

/-- One step more. -/
theorem after?_succ_eq_some_iff : search.after? relevant limit (steps + 1) = some search' ↔
    ∃ later, search.after? relevant limit steps = some later ∧
      later.next relevant limit = .running search' := by
  rw [after?, Option.bind_eq_some_iff]
  exact exists_congr fun later => and_congr_right fun _ => search?_eq_some_iff

/-- A search comes to the searches that are counted. -/
theorem reaches_of_after? (h : search.after? relevant limit steps = some last) :
    search.Reaches relevant limit last := by
  induction steps generalizing last with
  | zero =>
      obtain rfl := Option.some.inj h
      exact .refl
  | succ steps ih =>
      obtain ⟨later, hlater, hnext⟩ := after?_succ_eq_some_iff.1 h
      exact (ih hlater).tail hnext

/-- The answer of a run is that of each search that it comes to. -/
theorem Reaches.run_eq (h : search.Reaches relevant limit last) :
    search.run relevant limit = last.run relevant limit := by
  induction h with
  | refl => rfl
  | tail _ hnext ih => rw [ih, run_of_running hnext]

/-- A step that drops no fork spends one unit of work. -/
theorem work_next_eq (hnext : search.next relevant limit = .running search')
    (hkept : search'.dropped = false) :
    search.dropped = false ∧ search'.work relevant + 1 = search.work relevant := by
  obtain ⟨path, waiting, hpaths, ⟨hmove, rfl⟩ | ⟨path', forks, hmove, rfl⟩⟩ := next_cases hnext
  · refine ⟨hkept, ?_⟩
    have hpath : path.work 1 relevant = 1 := Path.work_finished hmove
    rw [work, work, hpaths, Path.totalWork, hpath, Nat.add_comm]
  · simp only [Bool.or_eq_false_iff, decide_eq_false_iff_not, Nat.not_lt] at hkept
    refine ⟨hkept.1, ?_⟩
    have hall : kept limit search.forks forks = forks.reverse := by
      rw [kept, List.take_of_length_le (by omega)]
    rw [work, work, hpaths, hall, Path.totalWork, Path.totalWork, Path.totalWork_append,
      Path.totalWork_reverse, Path.work_move hmove]
    omega

/-- The steps that were made and the work that is left come to the work at the beginning, or to less
of it if forks were dropped. -/
theorem work_after? (h : search.after? relevant limit steps = some last) :
    steps + last.work relevant ≤ search.work relevant ∧
      (last.dropped = false → steps + last.work relevant = search.work relevant) := by
  induction steps generalizing last with
  | zero =>
      obtain rfl := Option.some.inj h
      exact ⟨Nat.le_of_eq (Nat.zero_add _), fun _ => Nat.zero_add _⟩
  | succ steps ih =>
      obtain ⟨later, hlater, hnext⟩ := after?_succ_eq_some_iff.1 h
      obtain ⟨hle, heq⟩ := ih hlater
      have hlt := work_next_lt hnext
      refine ⟨by omega, fun hkept => ?_⟩
      obtain ⟨hkept', hwork⟩ := work_next_eq hnext hkept
      have hsum := heq hkept'
      omega

/-- A search that is not there after some steps has had a last one before. -/
theorem exists_last_of_after? (h : search.after? relevant limit steps = none) :
    ∃ before < steps, ∃ last, search.after? relevant limit before = some last ∧
      (last.next relevant limit).search? = none := by
  induction steps with
  | zero => cases h
  | succ steps ih =>
      cases hsteps : search.after? relevant limit steps with
      | none =>
          obtain ⟨before, hlt, hlast⟩ := ih hsteps
          exact ⟨before, Nat.lt_succ_of_lt hlt, hlast⟩
      | some last =>
          rw [after?, hsteps] at h
          exact ⟨steps, Nat.lt_succ_self steps, last, hsteps, h⟩

/-- What moves hand on, to the path that goes on and to its forks, holds of all paths in the course
of a search. -/
theorem Reaches.forall_paths {motive : Path → Prop}
    (hmove : ∀ path next forks, path.move relevant = .advances next forks → motive path →
      ∀ other ∈ next :: forks, motive other)
    (h : search.Reaches relevant limit last) (hsearch : ∀ path ∈ search.paths, motive path) :
    ∀ path ∈ last.paths, motive path := by
  induction h with
  | refl => exact hsearch
  | tail _ hnext ih =>
      obtain ⟨path, waiting, hpaths, ⟨_, rfl⟩ | ⟨next, forks, hadvances, rfl⟩⟩ := next_cases hnext
      · exact fun other hother => ih other (hpaths ▸ List.mem_cons_of_mem path hother)
      · have hmoved := hmove path next forks hadvances (ih path (hpaths ▸ List.mem_cons_self))
        intro other hother
        rcases List.mem_cons.1 hother with rfl | hother
        · exact hmoved _ List.mem_cons_self
        rcases List.mem_append.1 hother with hfork | hwaiting
        · exact hmoved other (List.mem_cons_of_mem _ (mem_of_mem_kept hfork))
        · exact ih other (hpaths ▸ List.mem_cons_of_mem path hwaiting)

end Search

namespace Pattern

variable {pattern : Pattern} {limit : Nat}

/-- The number of steps in which a search follows every path of the pattern. It does not depend on a
limit. -/
def stepBound (pattern : Pattern) : Nat :=
  (Path.start pattern).work 1 (Relevance.isMarked pattern.relevance)

/-- The search of the pattern makes the given number of steps and no more. -/
structure EndsIn (pattern : Pattern) (limit steps : Nat) (last : Search) : Prop where
  /-- This is the search after so many steps. -/
  after_eq : (Search.start pattern).after? (Relevance.isMarked pattern.relevance) limit steps =
    some last
  /-- It has no path left, or its present path reads a group that has not matched. -/
  next_cases : last.next (Relevance.isMarked pattern.relevance) limit = .exhausted ∨
    ∃ group position,
      last.next (Relevance.isMarked pattern.relevance) limit = .violated group position

/-- The paths in the course of a search keep the order of the sets of their loops. -/
theorem ascends_of_reaches {search : Search}
    (h : (Search.start pattern).Reaches (Relevance.isMarked pattern.relevance) limit search) :
    ∀ path ∈ search.paths, path.Ascends := by
  refine h.forall_paths (fun path next forks hmove hpath => ?_) ?_
  · exact (Path.moves_of_move_eq hmove).ascends hpath
  · exact List.forall_mem_singleton.2 (Path.ascends_start pattern)

/-- A search makes a last step, at the latest when its work is done. -/
theorem exists_endsIn (pattern : Pattern) (limit : Nat) :
    ∃ steps ≤ pattern.stepBound, ∃ last, pattern.EndsIn limit steps last := by
  have hstart : (Search.start pattern).work (Relevance.isMarked pattern.relevance) =
      pattern.stepBound := Nat.add_zero _
  obtain ⟨steps, _, last, hlast, hnext⟩ : ∃ before < pattern.stepBound + 1, ∃ last,
      (Search.start pattern).after? (Relevance.isMarked pattern.relevance) limit before =
        some last ∧ (last.next (Relevance.isMarked pattern.relevance) limit).search? = none := by
    refine Search.exists_last_of_after? (Option.eq_none_iff_forall_ne_some.2 fun last hlast => ?_)
    have hwork := (Search.work_after? hlast).1
    omega
  have hwork := (Search.work_after? hlast).1
  refine ⟨steps, by omega, last, hlast, ?_⟩
  cases hprogress : last.next (Relevance.isMarked pattern.relevance) limit with
  | exhausted => exact .inl rfl
  | violated group position => exact .inr ⟨group, position, rfl⟩
  | running search =>
      rw [hprogress] at hnext
      cases hnext

/-- Every search ends, whatever its limit is: after some number of steps, at most as many as the
pattern alone determines, no path is left or the present one reads a group that has not matched.
A search that has dropped no fork when no path is left has made exactly that many steps, and with a
large limit no fork is dropped at all. On every path in the course of the search, a loop forks again
only if its last iteration has enlarged the set with which it began. -/
theorem search_ends (pattern : Pattern) (limit : Nat) :
    (∃ steps ≤ pattern.stepBound, ∃ last, pattern.EndsIn limit steps last ∧
      (last.paths = [] → last.dropped = false → steps = pattern.stepBound) ∧
      (Search.start pattern).run (Relevance.isMarked pattern.relevance) limit =
        last.run (Relevance.isMarked pattern.relevance) limit) ∧
    (pattern.forkBound ≤ limit → pattern.KeepsForks limit) ∧
    ∀ search,
      (Search.start pattern).Reaches (Relevance.isMarked pattern.relevance) limit search →
      ∀ path ∈ search.paths, ∀ loop entry rest, path.pending = .reenter loop entry :: rest →
        ∀ next forks, path.move (Relevance.isMarked pattern.relevance) = .advances next forks →
          forks ≠ [] → entry ⊆ path.matched ∧ path.matched.room < entry.room := by
  obtain ⟨steps, hsteps, last, hends⟩ := pattern.exists_endsIn limit
  refine ⟨⟨steps, hsteps, last, hends, fun hpaths hkept => ?_, ?_⟩, keepsForks_of_forkBound_le, ?_⟩
  · have hwork := (Search.work_after? hends.after_eq).2 hkept
    rw [Search.work, hpaths] at hwork
    exact hwork
  · exact (Search.reaches_of_after? hends.after_eq).run_eq
  · intro search hreaches path hpath loop entry rest hpending next forks hmove hforks
    refine (ascends_of_reaches hreaches path hpath).room_lt hpending fun hsame => hforks ?_
    obtain ⟨matched, pending⟩ := path
    obtain rfl : matched = entry := hsame
    obtain rfl : pending = .reenter loop matched :: rest := hpending
    cases (Path.move_leave loop matched rest).symm.trans hmove
    rfl

/-- The loop of `(a)(?:(b)|\1)*` runs at most twice on each of the five ways through the pattern.
With room for four forks the search follows all of them in thirty steps. -/
theorem search_ends_loop :
    ∃ pattern, Pattern.parse "(a)(?:(b)|\\1)*" = .ok pattern ∧
      ∃ last, pattern.EndsIn 4 30 last ∧ last.paths = [] := by
  obtain ⟨pattern, hparse, hbound, hrun⟩ : ∃ pattern,
      Pattern.parse "(a)(?:(b)|\\1)*" = .ok pattern ∧ pattern.stepBound = 30 ∧
        (Search.start pattern).run (Relevance.isMarked pattern.relevance) 4 = .ok () :=
    ⟨_, rfl, by decide +kernel, by decide +kernel⟩
  obtain ⟨⟨steps, _, last, hends, hsteps, hlast⟩, _⟩ := pattern.search_ends 4
  rw [hrun] at hlast
  obtain hexhausted | ⟨group, position, hviolated⟩ := hends.next_cases
  · have hpaths := Search.exhausted_cases hexhausted
    rw [Search.run_of_exhausted hexhausted] at hlast
    have hkept : last.dropped = false := by
      by_contra hdropped
      rw [if_pos (Bool.eq_true_of_not_eq_false hdropped)] at hlast
      cases hlast
    obtain rfl := (hsteps hpaths hkept).trans hbound
    exact ⟨pattern, hparse, last, hends, hpaths⟩
  · rw [Search.run_of_violated hviolated] at hlast
    cases hlast

end Pattern

end Backref
