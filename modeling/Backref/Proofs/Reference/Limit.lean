import Backref.Proofs.Reference.Descent

/-!
# The limit on forks

What a search finds depends on its limit only in whether it gives up. `Config.check_eq_of_runCount`
gives the exact limit from which on a pattern without a violation is accepted: a pattern with `n`
complete runs forks `n - 1` times. `Config.check_mono_maxPaths` says that a larger limit never
turns one verdict into another one; in both searches the same forks come first.
-/

namespace Backref

namespace Path

variable {relevant : Node → Bool} {path next : Path} {forks : List Path}

/-- A path of which every way comes to its end has no way that violates. -/
theorem Safe.not_violates (h : path.Safe relevant) (group position : Nat) :
    ¬ path.Violates relevant group position := by
  intro hviolates
  induction h with
  | finished hmove =>
      cases hviolates with
      | here hother => exact nomatch hmove.symm.trans hother
      | advances hother _ => exact nomatch hmove.symm.trans hother
      | fork hother _ _ => exact nomatch hmove.symm.trans hother
  | advances hmove _ _ ihnext ihforks =>
      cases hviolates with
      | here hother => exact nomatch hmove.symm.trans hother
      | advances hother hnext =>
          obtain ⟨rfl, rfl⟩ := Move.advances.inj (hmove.symm.trans hother)
          exact ihnext hnext
      | fork hother hmem hfork =>
          obtain ⟨rfl, rfl⟩ := Move.advances.inj (hmove.symm.trans hother)
          exact ihforks _ hmem hfork

/-- The path violates before its end, whatever its forks do. -/
inductive Fails (relevant : Node → Bool) : Path → Prop where
  | here {path : Path} {group position : Nat} : path.move relevant = .violates group position →
      Fails relevant path
  | advances {path next : Path} {forks : List Path} : path.move relevant = .advances next forks →
      Fails relevant next → Fails relevant path

/-- A path that fails has not come to its end. -/
theorem Fails.move_ne_finished (h : path.Fails relevant) : path.move relevant ≠ .finished := by
  intro hmove
  cases h with
  | here hother => exact nomatch hmove.symm.trans hother
  | advances hother _ => exact nomatch hmove.symm.trans hother

/-- A path that fails goes on to fail. -/
theorem Fails.of_move_eq (h : path.Fails relevant)
    (hmove : path.move relevant = .advances next forks) : next.Fails relevant := by
  cases h with
  | here hother => exact nomatch hmove.symm.trans hother
  | advances hother hnext =>
      obtain ⟨rfl, rfl⟩ := Move.advances.inj (hmove.symm.trans hother)
      exact hnext

end Path

namespace Search

variable {relevant : Node → Bool} {limit limit' : Nat} {search search' : Search}

/-! ## The limit that is needed -/

/-- A search that accepts has met no more forks after a step than its limit allows. -/
theorem forks_le_of_run_eq_ok (hnext : search.next relevant limit = .running search')
    (hforks : search.forks ≤ limit) (h : search'.run relevant limit = .ok ()) :
    search'.forks ≤ limit := by
  have hdropped := (run_eq_ok h).1
  obtain ⟨path, waiting, _, ⟨_, rfl⟩ | ⟨path', forks, _, rfl⟩⟩ := next_cases hnext
  · exact hforks
  · replace hdropped := (Bool.or_eq_false_iff.1 hdropped).2
    exact Nat.not_lt.1 (of_decide_eq_false hdropped)

/-- A search that accepts has had room for every fork. -/
theorem totalWork_le_of_run_eq_ok (h : search.run relevant limit = .ok ())
    (hforks : search.forks ≤ limit) :
    search.forks + Path.totalWork 0 relevant search.paths ≤ limit + search.paths.length := by
  induction h using run_ok_induction with
  | exhausted search _ hnext _ =>
      rw [exhausted_cases hnext]
      exact Nat.add_le_add_right hforks 0
  | running search search' _ h' hnext ih =>
      have hkept := forks_le_of_run_eq_ok hnext hforks h'
      have hlater := ih hkept
      have hbalance := next_balance hnext hkept
      omega

/-! ## A larger limit -/

/-- A path that fails makes the search find a violation. -/
theorem exists_uninitialized_of_fails {path : Path} (hpath : path ∈ search.paths)
    (hfails : path.Fails relevant) :
    ∃ group position, search.run relevant limit = .error (.uninitialized group position) := by
  induction search using Search.run.induct relevant limit generalizing path with
  | case1 search hnext hdropped =>
      rw [exhausted_cases hnext] at hpath
      cases hpath
  | case2 search hnext hdropped =>
      rw [exhausted_cases hnext] at hpath
      cases hpath
  | case3 search group position hnext => exact ⟨group, position, run_of_violated hnext⟩
  | case4 search search' hnext ih =>
      rw [run_of_running hnext]
      obtain ⟨first, waiting, hpaths, ⟨hmove, rfl⟩ | ⟨next, forks, hmove, rfl⟩⟩ := next_cases hnext
      · rw [hpaths] at hpath
        rcases List.mem_cons.1 hpath with rfl | hwaiting
        · exact absurd hmove hfails.move_ne_finished
        · exact ih hwaiting hfails
      · rw [hpaths] at hpath
        rcases List.mem_cons.1 hpath with rfl | hwaiting
        · exact ih List.mem_cons_self (hfails.of_move_eq hmove)
        · exact ih (List.mem_cons_of_mem _ (List.mem_append_right _ hwaiting)) hfails

/-- When the limit leaves no room for a fork, a violation is found on a path that fails. -/
theorem exists_fails_of_uninitialized {group position : Nat} (hfull : limit ≤ search.forks)
    (h : search.run relevant limit = .error (.uninitialized group position)) :
    ∃ path ∈ search.paths, path.Fails relevant := by
  induction h using run_uninitialized_induction with
  | violated search _ hnext =>
      obtain ⟨path, waiting, hpaths, hmove⟩ := violated_cases hnext
      rw [hpaths]
      exact ⟨path, List.mem_cons_self, .here hmove⟩
  | running search search' _ _ hnext ih =>
      obtain ⟨first, waiting, hpaths, ⟨hmove, rfl⟩ | ⟨next, forks, hmove, rfl⟩⟩ := next_cases hnext
      · obtain ⟨path, hpath, hfails⟩ := ih hfull
        rw [hpaths]
        exact ⟨path, List.mem_cons_of_mem _ hpath, hfails⟩
      · have hnone : kept limit search.forks forks = [] := by
          rw [kept, Nat.sub_eq_zero_of_le hfull, List.take_zero, List.reverse_nil]
        obtain ⟨path, hpath, hfails⟩ := ih (Nat.le_add_right_of_le hfull)
        rw [hpaths]
        rw [hnone, List.nil_append] at hpath
        rcases List.mem_cons.1 hpath with rfl | hwaiting
        · exact ⟨first, List.mem_cons_self, .advances hmove hfails⟩
        · exact ⟨path, List.mem_cons_of_mem _ hwaiting, hfails⟩

/-- What is kept under one limit is kept under a larger one. -/
theorem kept_subset_kept (hle : limit ≤ limit') (met : Nat) (forks : List Path) :
    kept limit met forks ⊆ kept limit' met forks := by
  intro fork hfork
  have hfewer : forks.take (limit - met) <+: forks.take (limit' - met) :=
    List.take_prefix_take_left (by omega)
  exact List.mem_reverse.2 (hfewer.subset (List.mem_reverse.1 hfork))

/-- A step drops a path that has come to its end. -/
theorem next_of_finished {path : Path} {waiting : List Path}
    (hpaths : search.paths = path :: waiting) (hmove : path.move relevant = .finished) :
    search.next relevant limit = .running { search with paths := waiting } := by
  simp only [next, hpaths, hmove]

/-- A step finds the violation of the first path. -/
theorem next_of_violates {path : Path} {waiting : List Path} {group position : Nat}
    (hpaths : search.paths = path :: waiting)
    (hmove : path.move relevant = .violates group position) :
    search.next relevant limit = .violated group position := by
  simp only [next, hpaths, hmove]

/-- A step advances the first path and keeps as many of its forks as the limit allows. -/
theorem next_of_advances {path path' : Path} {waiting forks : List Path}
    (hpaths : search.paths = path :: waiting)
    (hmove : path.move relevant = .advances path' forks) :
    search.next relevant limit = .running
      { paths := path' :: (kept limit search.forks forks ++ waiting)
        forks := search.forks + forks.length
        dropped := search.dropped || decide (limit < search.forks + forks.length) } := by
  simp only [next, hpaths, hmove]

/-- While no fork is dropped, a larger limit makes the same step. -/
theorem next_of_limit_le (hle : limit ≤ limit')
    (hnext : search.next relevant limit = .running search') (hkept : search'.forks ≤ limit) :
    search.next relevant limit' = .running search' := by
  obtain ⟨path, waiting, hpaths, ⟨hmove, rfl⟩ | ⟨path', forks, hmove, rfl⟩⟩ := next_cases hnext
  · exact next_of_finished hpaths hmove
  · replace hkept : search.forks + forks.length ≤ limit := hkept
    have hsame : kept limit' search.forks forks = kept limit search.forks forks := by
      rw [kept, kept, List.take_of_length_le (by omega), List.take_of_length_le (by omega)]
    have hroom : decide (limit < search.forks + forks.length) = false :=
      decide_eq_false (Nat.not_lt.2 hkept)
    have hroom' : decide (limit' < search.forks + forks.length) = false :=
      decide_eq_false (Nat.not_lt.2 (hkept.trans hle))
    rw [next_of_advances hpaths hmove, hsame, hroom, hroom']

/-- A search that accepts does so under a larger limit. -/
theorem run_eq_ok_of_limit_le (hle : limit ≤ limit') (hforks : search.forks ≤ limit)
    (h : search.run relevant limit = .ok ()) : search.run relevant limit' = .ok () := by
  induction h using run_ok_induction with
  | exhausted search _ hnext hdropped =>
      have hlater : search.next relevant limit' = .exhausted := by
        rw [next, exhausted_cases hnext]
      rw [run_of_exhausted hlater, hdropped]
      rfl
  | running search search' _ h' hnext ih =>
      have hkept := forks_le_of_run_eq_ok hnext hforks h'
      rw [run_of_running (next_of_limit_le hle hnext hkept)]
      exact ih hkept

/-- A search that finds a violation finds one under a larger limit. Both make the same steps until
the smaller limit leaves no room; from then on the paths that one of them has are among those of
the other. -/
theorem exists_uninitialized_of_limit_le (hle : limit ≤ limit') {group position : Nat}
    (h : search.run relevant limit = .error (.uninitialized group position)) :
    ∃ group position, search.run relevant limit' = .error (.uninitialized group position) := by
  induction h using run_uninitialized_induction with
  | violated search _ hnext =>
      obtain ⟨path, waiting, hpaths, hmove⟩ := violated_cases hnext
      exact ⟨group, position, run_of_violated (next_of_violates hpaths hmove)⟩
  | running search search' _ h' hnext ih =>
      obtain ⟨path, waiting, hpaths, ⟨hmove, rfl⟩ | ⟨path', forks, hmove, rfl⟩⟩ := next_cases hnext
      · rw [run_of_running (next_of_finished hpaths hmove)]
        exact ih
      · by_cases hroom : search.forks + forks.length ≤ limit
        · rw [run_of_running (next_of_limit_le hle hnext hroom)]
          exact ih
        · have hfull : limit ≤ search.forks + forks.length := by omega
          obtain ⟨failing, hmem, hfails⟩ := exists_fails_of_uninitialized hfull h'
          have hlater : failing ∈ path' :: (kept limit' search.forks forks ++ waiting) := by
            rcases List.mem_cons.1 hmem with rfl | hmem
            · exact List.mem_cons_self
            · refine List.mem_cons_of_mem _ (List.mem_append.2 ?_)
              exact (List.mem_append.1 hmem).imp_left fun hfork => kept_subset_kept hle _ _ hfork
          rw [run_of_running (next_of_advances hpaths hmove)]
          exact exists_uninitialized_of_fails hlater hfails

end Search

namespace Pattern

variable {text : String} {pattern : Pattern}

/-- The number of complete runs of an exploration without a limit, counted along the tree: a node
that is not relevant is passed over, an alternation adds up the runs of its branches, and a loop
(`loopWork_eq`) has the runs that leave it and those that run its body and return to it, where it
counts again if the set has changed. -/
def runCount (pattern : Pattern) : Nat := (Path.start pattern).work 0 Node.isRelevant

/-- The search that asks each node whether it is relevant finds what the search with marks finds. -/
theorem checkPaths_eq_run (h : Pattern.parse text = .ok pattern) (href : pattern.hasStringRef)
    (limit : Nat) :
    pattern.checkPaths limit = (Search.start pattern).run Node.isRelevant limit := by
  have hroot : pattern.root.Explorable Node.isRelevant :=
    { isFormed := fun node hnode => isFormed_of_parse h hnode
      groupsFit := (explorable_of_parse h).groupsFit
      relevant_iff := fun node _ => by rw [Node.isRelevant, decide_eq_true_eq] }
  have hwithin : ∀ path ∈ (Search.start pattern).paths, path.Within pattern.root :=
    List.forall_mem_singleton.2 pattern.within_start
  have hmarks : (Search.start pattern).run (Relevance.isMarked pattern.relevance) limit =
      Path.descendAll [Path.start pattern] (.start limit) >>= Budget.verdict :=
    Search.run_eq_descendAll (explorable_of_parse h) hwithin rfl rfl
  have hnodes : (Search.start pattern).run Node.isRelevant limit =
      Path.descendAll [Path.start pattern] (.start limit) >>= Budget.verdict :=
    Search.run_eq_descendAll hroot hwithin rfl rfl
  rw [checkPaths, if_pos href, hnodes]
  exact hmarks

/-- The verdict of the path-sensitive rule: the pattern is accepted, or a violation is found, or the
search gives up. -/
theorem checkPaths_cases (pattern : Pattern) (limit : Nat) :
    pattern.checkPaths limit = .ok () ∨
      (∃ group index, pattern.checkPaths limit = .error (.uninitialized group index)) ∨
      pattern.checkPaths limit = .error (.pathLimit limit) := by
  cases hresult : pattern.checkPaths limit with
  | ok _ => exact .inl rfl
  | error rejection =>
      rw [checkPaths] at hresult
      split at hresult
      · obtain ⟨group, index, rfl, _⟩ | rfl := Search.run_eq_error hresult
        · exact .inr (.inl ⟨group, index, rfl⟩)
        · exact .inr (.inr rfl)
      · cases hresult

/-- A pattern that is accepted is accepted with a larger limit. -/
theorem checkPaths_eq_ok_of_limit_le {limit limit' : Nat} (hle : limit ≤ limit')
    (h : pattern.checkPaths limit = .ok ()) : pattern.checkPaths limit' = .ok () := by
  unfold checkPaths at h ⊢
  split
  · next href =>
      rw [if_pos href] at h
      exact Search.run_eq_ok_of_limit_le hle (Nat.zero_le limit) h
  · rfl

/-- If a violation is found, one is found with a larger limit. -/
theorem exists_uninitialized_of_limit_le {limit limit' : Nat} (hle : limit ≤ limit')
    {group index : Nat} (h : pattern.checkPaths limit = .error (.uninitialized group index)) :
    ∃ group index, pattern.checkPaths limit' = .error (.uninitialized group index) := by
  unfold checkPaths at h ⊢
  split
  · next href =>
      rw [if_pos href] at h
      exact Search.exists_uninitialized_of_limit_le hle h
  · next href =>
      rw [if_neg href] at h
      cases h

end Pattern

namespace Config

/-- With one worker, a pattern that reads a group and of which no run violates is accepted exactly
if it has at most one run more than forks are allowed. Otherwise the search gives up. -/
theorem check_eq_of_runCount {text : String} {pattern : Pattern}
    (h : Pattern.parse text = .ok pattern) (href : pattern.hasStringRef)
    (hsafe : ∀ group index, ¬ (Path.start pattern).Violates Node.isRelevant group index)
    (maxPaths : Nat) :
    (Config.mk maxPaths 1 .pathSensitive).check pattern =
      if pattern.runCount ≤ maxPaths + 1 then .ok () else .error (.pathLimit maxPaths) := by
  have hrun : (Config.mk maxPaths 1 .pathSensitive).check pattern =
      (Search.start pattern).run Node.isRelevant maxPaths :=
    Pattern.checkPaths_eq_run h href maxPaths
  rw [hrun]
  cases hresult : (Search.start pattern).run Node.isRelevant maxPaths with
  | ok _ =>
      have hle := Search.totalWork_le_of_run_eq_ok hresult (Nat.zero_le maxPaths)
      replace hle : 0 + (pattern.runCount + 0) ≤ maxPaths + 1 := hle
      rw [if_pos (by omega)]
  | error rejection =>
      obtain ⟨group, index, _, path, hpath, hviolates⟩ | rfl := Search.run_eq_error hresult
      · obtain rfl := List.mem_singleton.1 hpath
        exact absurd hviolates (hsafe group index)
      · -- With room for all forks the search would not have given up.
        have hgt : ¬ pattern.runCount ≤ maxPaths + 1 := fun hle =>
          (Search.roomy_start hle).run_ne_pathLimit maxPaths hresult
        rw [if_neg hgt]

/-- The pattern `(a)(?:(b)|\1)*` has five runs. The loop is left at once, or after its second
branch; after its first branch, which matches a new group, it is left or run once more with either
one. -/
theorem check_eq_of_runCount_loop :
    ∃ pattern, Pattern.parse "(a)(?:(b)|\\1)*" = .ok pattern ∧ pattern.hasStringRef = true ∧
      (∀ group index, ¬ (Path.start pattern).Violates Node.isRelevant group index) ∧
      (Config.mk 4 1 .pathSensitive).check pattern = .ok () ∧
      (Config.mk 3 1 .pathSensitive).check pattern = .error (.pathLimit 3) := by
  obtain ⟨pattern, hparse, href, haccepted, hcount⟩ : ∃ pattern,
      Pattern.parse "(a)(?:(b)|\\1)*" = .ok pattern ∧ pattern.hasStringRef = true ∧
        (Search.start pattern).run Node.isRelevant 4 = .ok () ∧ pattern.runCount = 5 :=
    ⟨_, rfl, by decide +kernel, by decide +kernel, by decide +kernel⟩
  have hsafe : ∀ group index, ¬ (Path.start pattern).Violates Node.isRelevant group index :=
    ((Search.run_eq_ok haccepted).2 _ List.mem_cons_self).not_violates
  have hcheck := check_eq_of_runCount hparse href hsafe
  rw [hcount] at hcheck
  exact ⟨pattern, hparse, href, hsafe, hcheck 4, hcheck 3⟩

/-- Raising the limit never turns a definite verdict into another one. -/
theorem check_mono_maxPaths (pattern : Pattern) {maxPaths maxPaths' : Nat}
    (hle : maxPaths ≤ maxPaths') :
    ((Config.mk maxPaths 1 .pathSensitive).check pattern = .ok () →
      (Config.mk maxPaths' 1 .pathSensitive).check pattern = .ok ()) ∧
    (∀ group index,
      (Config.mk maxPaths 1 .pathSensitive).check pattern =
        .error (.uninitialized group index) →
      ∃ group' index', (Config.mk maxPaths' 1 .pathSensitive).check pattern =
        .error (.uninitialized group' index')) ∧
    ((Config.mk maxPaths' 1 .pathSensitive).check pattern = .error (.pathLimit maxPaths') →
      (Config.mk maxPaths 1 .pathSensitive).check pattern = .error (.pathLimit maxPaths)) := by
  refine ⟨Pattern.checkPaths_eq_ok_of_limit_le hle, ?_, ?_⟩
  · intro group index hrejected
    exact Pattern.exists_uninitialized_of_limit_le hle hrejected
  · intro hlimit
    obtain haccepted | ⟨group, index, hrejected⟩ | hsmall := pattern.checkPaths_cases maxPaths
    · have hlater := Pattern.checkPaths_eq_ok_of_limit_le hle haccepted
      exact nomatch hlimit.symm.trans hlater
    · obtain ⟨_, _, hlater⟩ := Pattern.exists_uninitialized_of_limit_le hle hrejected
      exact nomatch hlimit.symm.trans hlater
    · exact hsmall

/-- In `(?:(a)*\1|b\1)` a limit of one finds the violation of the second branch, and a larger one
finds the violation of the first branch instead. -/
theorem check_mono_maxPaths_branches :
    ∃ pattern, Pattern.parse "(?:(a)*\\1|b\\1)" = .ok pattern ∧ 1 ≤ 2 ∧
      (Config.mk 1 1 .pathSensitive).check pattern = .error (.uninitialized 1 11) ∧
      ∃ group index,
        (Config.mk 2 1 .pathSensitive).check pattern = .error (.uninitialized group index) := by
  obtain ⟨pattern, hparse, hrejected⟩ : ∃ pattern,
      Pattern.parse "(?:(a)*\\1|b\\1)" = .ok pattern ∧
        (Config.mk 1 1 .pathSensitive).check pattern = .error (.uninitialized 1 11) :=
    ⟨_, rfl, by decide +kernel⟩
  have hle : 1 ≤ 2 := by decide
  exact ⟨pattern, hparse, hle, hrejected, (check_mono_maxPaths pattern hle).2.1 1 11 hrejected⟩

end Config

end Backref
