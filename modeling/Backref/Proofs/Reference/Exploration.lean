import Backref.Reference.Search

/-!
# What a search finds

A search answers for the ways through all of its paths. `Path.Safe` and `Path.Violates` describe
these ways without a stack or a limit. `Search.run_eq_ok` says that a search that accepts has
followed every way to its end, `Search.run_eq_error` says what a rejection means, and
`Search.Roomy` is the invariant of a search whose limit is large enough.
-/

namespace Backref

namespace Path

/-- Every way that parts from the path comes to its end. -/
inductive Safe (relevant : Node → Bool) : Path → Prop where
  | finished {path : Path} : path.move relevant = .finished → Safe relevant path
  | advances {path next : Path} {forks : List Path} : path.move relevant = .advances next forks →
      Safe relevant next → (∀ fork ∈ forks, Safe relevant fork) → Safe relevant path

/-- Some way that parts from the path reads a group that has not matched. -/
inductive Violates (relevant : Node → Bool) (group position : Nat) : Path → Prop where
  | here {path : Path} : path.move relevant = .violates group position →
      Violates relevant group position path
  | advances {path next : Path} {forks : List Path} : path.move relevant = .advances next forks →
      Violates relevant group position next → Violates relevant group position path
  | fork {path next fork : Path} {forks : List Path} : path.move relevant = .advances next forks →
      fork ∈ forks → Violates relevant group position fork →
      Violates relevant group position path

end Path

/-! ## Work is never zero -/

/-- A loop has work to do when there is work after it. -/
theorem loopWork_pos (tick : Nat) (body : (GroupSet → Nat) → GroupSet → Nat)
    {after : GroupSet → Nat} (hafter : ∀ matched, 0 < after matched) (matched : GroupSet) :
    0 < loopWork tick body after matched := by
  rw [loopWork]
  have hpos := hafter matched
  omega

mutual

/-- There is work to do when there is work after the node. -/
theorem Node.work_pos (tick : Nat) (relevant : Node → Bool) {after : GroupSet → Nat}
    (hafter : ∀ matched, 0 < after matched) :
    ∀ (node : Node) (matched : GroupSet), 0 < node.work tick relevant after matched
  | ⟨label, kind, children⟩, matched => by
      have hhere := hafter matched
      have hthrough : ∀ {later : GroupSet → Nat}, (∀ matched, 0 < later matched) →
          0 < Node.workThrough tick relevant children later matched :=
        fun hlater => Node.workThrough_pos tick relevant hlater children matched
      unfold Node.work
      refine Nat.lt_of_lt_of_le ?_ (Nat.le_add_left _ _)
      split
      · cases kind with
        | literal letter => exact hhere
        | expressionRef group => exact hhere
        | stringRef group => exact hhere
        | sequence => exact hthrough hafter
        | branch => exact hthrough hafter
        | group number =>
            cases number with
            | none => exact hthrough hafter
            | some group =>
                refine hthrough fun matched => ?_
                exact Nat.lt_of_lt_of_le (hafter _) (Nat.le_add_left _ _)
        | alternation =>
            cases children with
            | nil => exact hhere
            | cons first others =>
                show 0 < Node.workOver tick relevant (first :: others) after matched
                rw [Node.workOver]
                have hfirst := Node.work_pos tick relevant hafter first matched
                omega
        | repetition => exact loopWork_pos tick _ hafter matched
      · exact hhere

/-- There is work to do when there is work after the nodes. -/
theorem Node.workThrough_pos (tick : Nat) (relevant : Node → Bool) {after : GroupSet → Nat}
    (hafter : ∀ matched, 0 < after matched) :
    ∀ (nodes : List Node) (matched : GroupSet),
      0 < Node.workThrough tick relevant nodes after matched
  | [], matched => hafter matched
  | node :: nodes, matched => by
      rw [Node.workThrough]
      exact Node.work_pos tick relevant
        (fun later => Node.workThrough_pos tick relevant hafter nodes later) node matched

end

/-- There is work to do before a path has come to its end. -/
theorem Task.workThrough_pos (tick : Nat) (relevant : Node → Bool) (tasks : List Task)
    (matched : GroupSet) : 0 < Task.workThrough tick relevant tasks matched := by
  induction tasks generalizing matched with
  | nil => exact Nat.one_pos
  | cons task tasks ih =>
      show 0 < task.work tick relevant (Task.workThrough tick relevant tasks) matched
      cases task with
      | visit node => exact Node.work_pos tick relevant ih node matched
      | capture group => exact Nat.lt_of_lt_of_le (ih _) (Nat.le_add_left _ _)
      | reenter loop entry =>
          simp only [Task.work]
          refine Nat.lt_of_lt_of_le ?_ (Nat.le_add_left _ _)
          split
          · exact ih matched
          · exact loopWork_pos tick _ ih matched

/-- Some paths have at least as much work as there are paths. -/
theorem Path.length_le_totalWork (tick : Nat) (relevant : Node → Bool) (paths : List Path) :
    paths.length ≤ Path.totalWork tick relevant paths := by
  induction paths with
  | nil => exact Nat.zero_le _
  | cons path paths ih =>
      have hpos : 0 < path.work tick relevant := Task.workThrough_pos tick relevant _ _
      rw [List.length_cons, Path.totalWork]
      omega

namespace Search

variable {relevant : Node → Bool} {limit : Nat} {search search' : Search}

/-! ## Steps -/

/-- A step ends the first path or advances it and keeps some of the forks. -/
theorem next_cases (h : search.next relevant limit = .running search') :
    ∃ path waiting, search.paths = path :: waiting ∧
      (path.move relevant = .finished ∧ search' = { search with paths := waiting } ∨
        ∃ path' forks, path.move relevant = .advances path' forks ∧
          search' =
            { paths := path' :: (kept limit search.forks forks ++ waiting)
              forks := search.forks + forks.length
              dropped := search.dropped || decide (limit < search.forks + forks.length) }) := by
  unfold next at h
  split at h
  · cases h
  · next path waiting hpaths =>
      refine ⟨path, waiting, hpaths, ?_⟩
      split at h
      · next hmove =>
          cases h
          exact .inl ⟨hmove, rfl⟩
      · cases h
      · next path' forks hmove =>
          cases h
          exact .inr ⟨path', forks, hmove, rfl⟩

/-- A step finds a violation on the first path. -/
theorem violated_cases {group position : Nat}
    (h : search.next relevant limit = .violated group position) :
    ∃ path waiting, search.paths = path :: waiting ∧
      path.move relevant = .violates group position := by
  unfold next at h
  split at h
  · cases h
  · next path waiting hpaths =>
      refine ⟨path, waiting, hpaths, ?_⟩
      split at h
      · cases h
      · next hmove =>
          cases h
          exact hmove
      · cases h

/-- A search has no step left when it has no path. -/
theorem exhausted_cases (h : search.next relevant limit = .exhausted) : search.paths = [] := by
  unfold next at h
  split at h
  · next hpaths => exact hpaths
  · split at h <;> cases h

/-- Within the limit every fork is kept. -/
theorem mem_kept {met : Nat} {forks : List Path} (h : met + forks.length ≤ limit) {fork : Path} :
    fork ∈ kept limit met forks ↔ fork ∈ forks := by
  rw [kept, List.mem_reverse, List.take_of_length_le (by omega)]

/-- Only forks are kept. -/
theorem mem_of_mem_kept {met : Nat} {forks : List Path} {fork : Path}
    (h : fork ∈ kept limit met forks) : fork ∈ forks :=
  List.mem_of_mem_take (List.mem_reverse.1 h)

/-! ## Runs -/

/-- A run ends when there is no path left. -/
theorem run_of_exhausted (h : search.next relevant limit = .exhausted) :
    search.run relevant limit = if search.dropped then .error (.pathLimit limit) else .ok () := by
  rw [run]
  split <;> simp_all

/-- A run ends with a violation. -/
theorem run_of_violated {group position : Nat}
    (h : search.next relevant limit = .violated group position) :
    search.run relevant limit = .error (.uninitialized group position) := by
  rw [run]
  split <;> simp_all

/-- A run goes on after a step. -/
theorem run_of_running (h : search.next relevant limit = .running search') :
    search.run relevant limit = search'.run relevant limit := by
  rw [run]
  split <;> simp_all

/-- What holds of an exhausted search that has dropped nothing, and before a step if it holds after
it, holds of every search that accepts. -/
theorem run_ok_induction {motive : (search : Search) → search.run relevant limit = .ok () → Prop}
    (exhausted : ∀ (search : Search) (h : search.run relevant limit = .ok ()),
      search.next relevant limit = .exhausted → search.dropped = false → motive search h)
    (running : ∀ (search search' : Search) (h : search.run relevant limit = .ok ())
      (h' : search'.run relevant limit = .ok ()), search.next relevant limit = .running search' →
      motive search' h' → motive search h)
    {search : Search} (h : search.run relevant limit = .ok ()) : motive search h := by
  induction search using Search.run.induct relevant limit with
  | case1 search hnext hdropped =>
      have hlimit := h
      rw [run_of_exhausted hnext, if_pos hdropped] at hlimit
      cases hlimit
  | case2 search hnext hdropped => exact exhausted search h hnext (Bool.eq_false_iff.2 hdropped)
  | case3 search group position hnext =>
      have hviolated := h
      rw [run_of_violated hnext] at hviolated
      cases hviolated
  | case4 search search' hnext ih =>
      have h' := (run_of_running hnext).symm.trans h
      exact running search search' h h' hnext (ih h')

/-- What holds before a violation, and before a step if it holds after it, holds of every search
that finds the violation. -/
theorem run_uninitialized_induction {group position : Nat}
    {motive : (search : Search) →
      search.run relevant limit = .error (.uninitialized group position) → Prop}
    (violated : ∀ (search : Search)
      (h : search.run relevant limit = .error (.uninitialized group position)),
      search.next relevant limit = .violated group position → motive search h)
    (running : ∀ (search search' : Search)
      (h : search.run relevant limit = .error (.uninitialized group position))
      (h' : search'.run relevant limit = .error (.uninitialized group position)),
      search.next relevant limit = .running search' → motive search' h' → motive search h)
    {search : Search} (h : search.run relevant limit = .error (.uninitialized group position)) :
    motive search h := by
  induction search using Search.run.induct relevant limit with
  | case1 search hnext hdropped =>
      have hlimit := h
      rw [run_of_exhausted hnext, if_pos hdropped] at hlimit
      cases hlimit
  | case2 search hnext hdropped =>
      have hok := h
      rw [run_of_exhausted hnext, if_neg hdropped] at hok
      cases hok
  | case3 search found index hnext =>
      have hviolated := h
      rw [run_of_violated hnext] at hviolated
      cases hviolated
      exact violated search h hnext
  | case4 search search' hnext ih =>
      have h' := (run_of_running hnext).symm.trans h
      exact running search search' h h' hnext (ih h')

/-- Accepting means that nothing was dropped and that every way comes to its end. -/
theorem run_eq_ok (h : search.run relevant limit = .ok ()) :
    search.dropped = false ∧ ∀ path ∈ search.paths, path.Safe relevant := by
  induction h using run_ok_induction with
  | exhausted search _ hnext hdropped =>
      rw [exhausted_cases hnext]
      exact ⟨hdropped, fun _ h => nomatch h⟩
  | running search search' _ _ hnext ih =>
      obtain ⟨hdropped, hsafe⟩ := ih
      obtain ⟨path, waiting, hpaths, ⟨hmove, rfl⟩ | ⟨path', forks, hmove, rfl⟩⟩ := next_cases hnext
      · refine ⟨hdropped, fun other hother => ?_⟩
        rw [hpaths] at hother
        rcases List.mem_cons.1 hother with rfl | hother
        · exact .finished hmove
        · exact hsafe other hother
      · simp only [Bool.or_eq_false_iff, decide_eq_false_iff_not, Nat.not_lt] at hdropped
        refine ⟨hdropped.1, fun other hother => ?_⟩
        rw [hpaths] at hother
        rcases List.mem_cons.1 hother with rfl | hother
        · -- The limit has not been exceeded up to the end, so every fork of this step was kept.
          refine .advances hmove (hsafe path' List.mem_cons_self) fun fork hfork => ?_
          have hkept := (mem_kept hdropped.2).2 hfork
          exact hsafe fork (List.mem_cons_of_mem _ (List.mem_append_left _ hkept))
        · exact hsafe other (List.mem_cons_of_mem _ (List.mem_append_right _ hother))

/-- Rejecting means that some way violates or that the limit was too small. -/
theorem run_eq_error {rejection : Rejection} (h : search.run relevant limit = .error rejection) :
    (∃ group position, rejection = .uninitialized group position ∧
      ∃ path ∈ search.paths, path.Violates relevant group position) ∨
    rejection = .pathLimit limit := by
  induction search using Search.run.induct relevant limit with
  | case1 search hnext hdropped =>
      rw [run_of_exhausted hnext, if_pos hdropped] at h
      cases h
      exact .inr rfl
  | case2 search hnext hdropped =>
      rw [run_of_exhausted hnext, if_neg hdropped] at h
      cases h
  | case3 search group position hnext =>
      rw [run_of_violated hnext] at h
      cases h
      obtain ⟨path, waiting, hpaths, hmove⟩ := violated_cases hnext
      rw [hpaths]
      exact .inl ⟨group, position, rfl, path, List.mem_cons_self, .here hmove⟩
  | case4 search search' hnext ih =>
      rw [run_of_running hnext] at h
      obtain ⟨group, position, rfl, found, hfound, hviolates⟩ | hlimit := ih h
      · refine .inl ⟨group, position, rfl, ?_⟩
        obtain ⟨path, waiting, hpaths, ⟨_, rfl⟩ | ⟨path', forks, hmove, rfl⟩⟩ := next_cases hnext
        · rw [hpaths]
          exact ⟨found, List.mem_cons_of_mem _ hfound, hviolates⟩
        · rw [hpaths]
          rcases List.mem_cons.1 hfound with rfl | hfound
          · exact ⟨path, List.mem_cons_self, .advances hmove hviolates⟩
          · rcases List.mem_append.1 hfound with hfork | hwaiting
            · exact ⟨path, List.mem_cons_self, .fork hmove (mem_of_mem_kept hfork) hviolates⟩
            · exact ⟨found, List.mem_cons_of_mem _ hwaiting, hviolates⟩
      · exact .inr hlimit

/-! ## Large limits -/

/-- A step that drops no fork keeps the balance of forks met, complete ways ahead and paths. -/
theorem next_balance (hnext : search.next relevant limit = .running search')
    (hkept : search'.forks ≤ limit) :
    search'.forks + Path.totalWork 0 relevant search'.paths + search.paths.length =
      search.forks + Path.totalWork 0 relevant search.paths + search'.paths.length := by
  obtain ⟨path, waiting, hpaths, ⟨hmove, rfl⟩ | ⟨path', forks, hmove, rfl⟩⟩ := next_cases hnext
  · have hpath : path.work 0 relevant = 1 := Path.work_finished hmove
    rw [hpaths, Path.totalWork, List.length_cons]
    show search.forks + Path.totalWork 0 relevant waiting + (waiting.length + 1) =
      search.forks + (path.work 0 relevant + Path.totalWork 0 relevant waiting) + waiting.length
    omega
  · replace hkept : search.forks + forks.length ≤ limit := hkept
    have hall : kept limit search.forks forks = forks.reverse := by
      rw [kept, List.take_of_length_le (by omega)]
    rw [hpaths, hall, Path.totalWork, Path.totalWork, Path.totalWork_append,
      Path.totalWork_reverse, Path.work_move hmove, List.length_cons, List.length_cons,
      List.length_append, List.length_reverse]
    show search.forks + forks.length + _ + _ = _
    omega

/-- The search has dropped nothing, and its limit leaves room for every fork that is still to
come: a path with `n` complete ways before it forks `n - 1` times. -/
structure Roomy (relevant : Node → Bool) (limit : Nat) (search : Search) : Prop where
  dropped_eq : search.dropped = false
  forks_le : search.forks + Path.totalWork 0 relevant search.paths ≤ limit + search.paths.length

/-- With a limit of at least the number of complete ways less one, a search starts with room. -/
theorem roomy_start {pattern : Pattern} (h : (Path.start pattern).work 0 relevant ≤ limit + 1) :
    (start pattern).Roomy relevant limit := by
  refine ⟨rfl, ?_⟩
  show 0 + ((Path.start pattern).work 0 relevant + 0) ≤ limit + 1
  omega

/-- A step leaves room for the forks that are still to come. -/
theorem Roomy.next (h : search.Roomy relevant limit)
    (hnext : search.next relevant limit = .running search') : search'.Roomy relevant limit := by
  obtain ⟨hdropped, hforks⟩ := h
  have hkept : search'.forks ≤ limit ∧ search'.dropped = false := by
    obtain ⟨path, waiting, hpaths, ⟨_, rfl⟩ | ⟨path', forks, hmove, rfl⟩⟩ := next_cases hnext
    · have hcount := Path.length_le_totalWork 0 relevant search.paths
      refine ⟨?_, hdropped⟩
      show search.forks ≤ limit
      omega
    · -- The ways of the path are shared out among its successors, each of which has at least one.
      rw [hpaths, Path.totalWork, List.length_cons, Path.work_move hmove] at hforks
      have hpath' : 0 < path'.work 0 relevant := Task.workThrough_pos 0 relevant _ _
      have hkept := Path.length_le_totalWork 0 relevant forks
      have hwaiting := Path.length_le_totalWork 0 relevant waiting
      have hmet : search.forks + forks.length ≤ limit := by omega
      refine ⟨hmet, ?_⟩
      rw [hdropped, Bool.false_or, decide_eq_false_iff_not]
      omega
  have hbalance := next_balance hnext hkept.1
  exact ⟨hkept.2, by omega⟩

/-- A search with enough room does not give up. -/
theorem Roomy.run_ne_pathLimit (h : search.Roomy relevant limit) (given : Nat) :
    search.run relevant limit ≠ .error (.pathLimit given) := by
  induction search using Search.run.induct relevant limit with
  | case1 search hnext hdropped =>
      rw [h.dropped_eq] at hdropped
      cases hdropped
  | case2 search hnext hdropped =>
      rw [run_of_exhausted hnext, if_neg hdropped]
      exact fun h => nomatch h
  | case3 search group position hnext =>
      rw [run_of_violated hnext]
      exact fun h => nomatch h
  | case4 search search' hnext ih =>
      rw [run_of_running hnext]
      exact ih (h.next hnext)

end Search

end Backref
