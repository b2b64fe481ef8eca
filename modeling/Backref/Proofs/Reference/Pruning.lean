import Backref.Proofs.Reference.Schedule
import Mathlib.Algebra.Order.BigOperators.Group.List

/-!
# Passing over nodes

A search passes over the nodes that use no group. If it entered them, each choice inside would
multiply all that comes after it, and yet the search would find the same: all ways through such a
node come to the same path (`Node.converges`), so whichever of them is followed first, the first
violation after it is the same one. Read `Config.check_eq_run_all` first.
-/

namespace Backref

/-! ## What a path finds first -/

namespace Path

variable {relevant : Node → Bool} {path next last : Path} {forks : List Path}

/-- What is found first in a list depends on its members alone. -/
theorem findSome?_congr {paths : List Path} {find find' : Path → Option Violation}
    (h : ∀ path ∈ paths, find path = find' path) :
    paths.findSome? find = paths.findSome? find' := by
  induction paths with
  | nil => rfl
  | cons path paths ih =>
      obtain ⟨hpath, hpaths⟩ := List.forall_mem_cons.1 h
      rw [List.findSome?_cons, List.findSome?_cons, hpath, ih hpaths]

/-- The violation that is found first when a path is followed to its end, and after it the forks of
each move from the last one to the first. -/
def firstViolation (relevant : Node → Bool) (path : Path) : Option Violation :=
  match _ : path.move relevant with
  | .finished => none
  | .violates group position => some ⟨group, position⟩
  | .advances next forks =>
      (next :: forks.reverse).attach.findSome? fun other => other.1.firstViolation relevant
termination_by path.work 1 relevant
decreasing_by
  refine work_lt_of_mem ‹_› ?_
  simpa using other.2

/-- On a path that has come to its end nothing is found. -/
theorem firstViolation_of_finished (hmove : path.move relevant = .finished) :
    path.firstViolation relevant = none := by
  rw [firstViolation]
  split <;> simp_all

/-- A path that violates is found. -/
theorem firstViolation_of_violates {group position : Nat}
    (hmove : path.move relevant = .violates group position) :
    path.firstViolation relevant = some ⟨group, position⟩ := by
  rw [firstViolation]
  split <;> simp_all

/-- What is found first after a move. -/
theorem firstViolation_of_advances (hmove : path.move relevant = .advances next forks) :
    path.firstViolation relevant =
      (next :: forks.reverse).findSome? (firstViolation relevant) := by
  rw [firstViolation]
  split
  · next hother => exact nomatch hmove.symm.trans hother
  · next hother => exact nomatch hmove.symm.trans hother
  · next hother =>
      obtain ⟨rfl, rfl⟩ := Move.advances.inj (hmove.symm.trans hother)
      conv => rhs; rw [← List.attach_map_subtype_val (next :: forks.reverse), List.findSome?_map]
      rfl

/-- On a path that goes on without a fork, the same is found as after the move. -/
theorem firstViolation_of_follow (hmove : path.move relevant = .advances next []) :
    path.firstViolation relevant = next.firstViolation relevant := by
  rw [firstViolation_of_advances hmove, List.reverse_nil, List.findSome?_singleton]

/-- What holds of a path when it holds of all paths that come out of its move holds of every
path. -/
@[elab_as_elim]
theorem move_induction (relevant : Node → Bool) {motive : Path → Prop}
    (step : ∀ path : Path, (∀ next forks, path.move relevant = .advances next forks →
      ∀ other ∈ next :: forks, motive other) → motive path)
    (path : Path) : motive path := by
  induction hwork : path.work 1 relevant using Nat.strongRecOn generalizing path with
  | ind work ih =>
      subst hwork
      refine step path fun next forks hmove other hother => ?_
      exact ih _ (work_lt_of_mem hmove hother) other rfl

/-- Nothing is found exactly on the safe paths. -/
theorem firstViolation_eq_none_iff :
    path.firstViolation relevant = none ↔ path.Safe relevant := by
  induction path using move_induction relevant with
  | step path ih =>
      cases hmove : path.move relevant with
      | finished => exact iff_of_true (firstViolation_of_finished hmove) (.finished hmove)
      | violates group position =>
          rw [firstViolation_of_violates hmove]
          exact iff_of_false (fun h => nomatch h) fun h => h.not_violates _ _ (.here hmove)
      | advances next forks =>
          rw [firstViolation_of_advances hmove, List.findSome?_eq_none_iff,
            safe_iff_of_advances hmove]
          simp only [List.mem_cons, List.mem_reverse]
          exact forall₂_congr fun other hother =>
            ih next forks hmove other (List.mem_cons.2 hother)

/-! ## Ways that come together -/

/-- All ways of the path come to the last one. -/
inductive Converges (relevant : Node → Bool) (last : Path) : Path → Prop where
  | here : Converges relevant last last
  | advances {path next : Path} {forks : List Path} : path.move relevant = .advances next forks →
      Converges relevant last next → (∀ fork ∈ forks, Converges relevant last fork) →
      Converges relevant last path

/-- A move without a fork comes before ways that come together. -/
theorem Converges.of_follow (hmove : path.move relevant = .advances next [])
    (h : Converges relevant last next) : Converges relevant last path :=
  .advances hmove h fun _ hfork => nomatch hfork

/-- Where all ways come to a path, they go on with it. -/
theorem Converges.trans {middle : Path} (h : Converges relevant middle path)
    (h' : Converges relevant last middle) : Converges relevant last path := by
  induction h with
  | here => exact h'
  | advances hmove _ _ ihnext ihforks => exact .advances hmove ihnext ihforks

/-- What is found first is found on the path to which all ways come. -/
theorem Converges.firstViolation_eq (h : Converges relevant last path) :
    path.firstViolation relevant = last.firstViolation relevant := by
  induction h with
  | here => rfl
  | advances hmove _ _ ihnext ihforks =>
      rw [firstViolation_of_advances hmove, List.findSome?_cons, ihnext]
      cases hlast : last.firstViolation relevant with
      | some violation => rfl
      | none =>
          refine List.findSome?_eq_none_iff.2 fun fork hfork => ?_
          exact (ihforks fork (List.mem_reverse.1 hfork)).trans hlast

/-- A path forks at least as often as the path to which all its ways come. -/
theorem Converges.forkCount_le (h : Converges relevant last path) :
    last.forkCount relevant ≤ path.forkCount relevant := by
  induction h with
  | here => exact Nat.le_refl _
  | advances hmove _ _ ihnext _ =>
      rw [forkCount_of_advances hmove]
      omega

end Path

/-! ## Nodes that use no group -/

mutual

/-- All ways through a node that uses no group come to the path that passes over it. -/
theorem Node.converges : ∀ {node : Node}, ¬ node.UsesGroups →
    ∀ (matched : GroupSet) (rest : List Task), Path.Converges (fun _ => true)
      ⟨matched, rest⟩ ⟨matched, .visit node :: rest⟩
  | ⟨label, kind, children⟩, h, matched, rest => by
      have hchildren := Node.not_anyUsesGroups_children h
      have hthrough := Node.converges_through hchildren matched
      cases kind with
      | literal letter => exact .of_follow rfl .here
      | expressionRef group => exact .of_follow rfl .here
      | stringRef group => exact absurd rfl (Node.not_usesGroup_kind h)
      | sequence => exact .of_follow rfl (hthrough rest)
      | branch => exact .of_follow rfl (hthrough rest)
      | group number =>
          cases number with
          | none => exact .of_follow rfl (hthrough rest)
          | some group => exact absurd rfl (Node.not_usesGroup_kind h)
      | alternation =>
          have hover := Node.converges_over hchildren matched rest
          cases children with
          | nil => exact .of_follow rfl .here
          | cons first others =>
              refine .advances rfl (hover first List.mem_cons_self) fun fork hfork => ?_
              obtain ⟨branch, hbranch, rfl⟩ := List.mem_map.1 hfork
              exact hover branch (List.mem_cons_of_mem first hbranch)
      | repetition =>
          -- The body has changed nothing, so after one run the loop is left.
          have hleave : Path.Converges (fun _ => true) ⟨matched, rest⟩
              ⟨matched, .reenter ⟨label, .repetition, children⟩ matched :: rest⟩ :=
            .of_follow (Path.move_leave _ matched rest) .here
          refine .advances rfl ((hthrough _).trans hleave) fun fork hfork => ?_
          rw [List.mem_singleton.1 hfork]
          exact .here

/-- All ways through some nodes that use no group come to the path that passes over them. -/
theorem Node.converges_through : ∀ {nodes : List Node}, ¬ Node.AnyUsesGroups nodes →
    ∀ (matched : GroupSet) (rest : List Task), Path.Converges (fun _ => true)
      ⟨matched, rest⟩ ⟨matched, nodes.map .visit ++ rest⟩
  | [], _, _, _ => .here
  | node :: nodes, h, matched, rest => by
      obtain ⟨hnode, hnodes⟩ := Node.not_anyUsesGroups_cons h
      exact (Node.converges hnode matched (nodes.map .visit ++ rest)).trans
        (Node.converges_through hnodes matched rest)

/-- All ways through each of some nodes that use no group come to the path that passes over it. -/
theorem Node.converges_over : ∀ {nodes : List Node}, ¬ Node.AnyUsesGroups nodes →
    ∀ (matched : GroupSet) (rest : List Task), ∀ branch ∈ nodes, Path.Converges (fun _ => true)
      ⟨matched, rest⟩ ⟨matched, .visit branch :: rest⟩
  | [], _, _, _, _, hbranch => nomatch hbranch
  | node :: nodes, h, matched, rest, branch, hbranch => by
      obtain ⟨hnode, hnodes⟩ := Node.not_anyUsesGroups_cons h
      rcases List.mem_cons.1 hbranch with heq | hbranch
      · rw [heq]
        exact Node.converges hnode matched rest
      · exact Node.converges_over hnodes matched rest branch hbranch

end

namespace Path

variable {root : Node} {relevant : Node → Bool} {path next last : Path} {forks : List Path}

/-- A path passes over a node to which all ways through the node come, or it does what it does when
every node is entered. -/
theorem converges_or_move_eq (hroot : root.Explorable relevant) (hwithin : path.Within root) :
    (∃ last, path.move relevant = .advances last [] ∧ Converges (fun _ => true) last path) ∨
      path.move relevant = path.move fun _ => true := by
  obtain ⟨matched, pending⟩ := path
  cases pending with
  | nil => exact .inr rfl
  | cons task rest =>
      cases task with
      | visit node =>
          by_cases hrelevant : relevant node
          · exact .inr (move_visit hrelevant matched rest)
          · have hnode : node ∈ root.subtree := hwithin _ List.mem_cons_self
            refine .inl ⟨_, move_skip hrelevant matched rest, Node.converges ?_ matched rest⟩
            exact fun huses => hrelevant ((hroot.relevant_iff node hnode).2 huses)
      | capture group => exact .inr rfl
      | reenter loop entry => exact .inr rfl

/-- What holds of a path if it holds after the nodes that are passed over, and if it holds of all
paths that come out of a move that is made in any case, holds of every path in the tree. -/
@[elab_as_elim]
theorem pruned_induction {motive : Path → Prop} (hroot : root.Explorable relevant)
    (skip : ∀ path last : Path, path.move relevant = .advances last [] →
      Converges (fun _ => true) last path → motive last → motive path)
    (same : ∀ path : Path, path.move relevant = path.move (fun _ => true) →
      (∀ next forks, path.move relevant = .advances next forks →
        ∀ other ∈ next :: forks, motive other) → motive path)
    (hwithin : path.Within root) : motive path := by
  induction path using move_induction relevant with
  | step path ih =>
      have hothers : ∀ next forks, path.move relevant = .advances next forks →
          ∀ other ∈ next :: forks, motive other := by
        intro next forks hmove other hother
        have hmoves := (moves_of_move_eq hmove).within hroot.groupsFit hwithin
        exact ih next forks hmove other hother (hmoves other hother)
      rcases converges_or_move_eq hroot hwithin with ⟨last, hmove, hlast⟩ | hsame
      · exact skip path last hmove hlast (hothers last [] hmove last List.mem_cons_self)
      · exact same path hsame hothers

/-- The same is found first whether or not nodes are passed over. -/
theorem firstViolation_eq_all (hroot : root.Explorable relevant) (hwithin : path.Within root) :
    path.firstViolation relevant = path.firstViolation fun _ => true := by
  refine pruned_induction hroot ?skip ?same hwithin
  case skip =>
    intro path last hmove hlast ih
    rw [firstViolation_of_follow hmove, ih, hlast.firstViolation_eq]
  case same =>
    intro path hsame ih
    cases hmove : path.move relevant with
    | finished =>
        rw [firstViolation_of_finished hmove, firstViolation_of_finished (hsame.symm.trans hmove)]
    | violates group position =>
        rw [firstViolation_of_violates hmove, firstViolation_of_violates (hsame.symm.trans hmove)]
    | advances next forks =>
        rw [firstViolation_of_advances hmove, firstViolation_of_advances (hsame.symm.trans hmove)]
        refine findSome?_congr fun other hother => ih next forks hmove other ?_
        simpa only [List.mem_cons, List.mem_reverse] using hother

/-- Passing over nodes saves forks. -/
theorem forkCount_le_all (hroot : root.Explorable relevant) (hwithin : path.Within root) :
    path.forkCount relevant ≤ path.forkCount fun _ => true := by
  refine pruned_induction hroot ?skip ?same hwithin
  case skip =>
    intro path last hmove hlast ih
    rw [forkCount_of_advances hmove, List.map_nil, List.sum_nil, List.length_nil]
    have hle := hlast.forkCount_le
    omega
  case same =>
    intro path hsame ih
    cases hmove : path.move relevant with
    | finished => exact (forkCount_of_finished hmove).trans_le (Nat.zero_le _)
    | violates group position => exact (forkCount_of_violates hmove).trans_le (Nat.zero_le _)
    | advances next forks =>
        obtain ⟨hnext, hforks⟩ := List.forall_mem_cons.1 (ih next forks hmove)
        rw [forkCount_of_advances hmove, forkCount_of_advances (hsame.symm.trans hmove)]
        have hsum := List.sum_le_sum hforks
        omega

end Path

/-! ## Searches that keep their forks -/

namespace Search

variable {relevant : Node → Bool} {limit : Nat} {search search' : Search}

/-- The search drops no fork in its whole course. -/
def KeepsForks (relevant : Node → Bool) (limit : Nat) (search : Search) : Prop :=
  ∀ later, search.Reaches relevant limit later → later.dropped = false

/-- A search that starts with room for all forks keeps them. -/
theorem Roomy.keepsForks (h : search.Roomy relevant limit) : search.KeepsForks relevant limit :=
  fun _ hreaches => (h.reaches hreaches).dropped_eq

/-- After a step too no fork is dropped. -/
theorem KeepsForks.next (h : search.KeepsForks relevant limit)
    (hnext : search.next relevant limit = .running search') : search'.KeepsForks relevant limit :=
  fun later hreaches => h later (.head hnext hreaches)

/-- The answer to a violation that was found first, or to none. -/
def answer : Option Violation → Except Rejection Unit
  | some violation => .error violation.rejection
  | none => .ok ()

/-- A search that keeps its forks reports what is found first on its paths. -/
theorem KeepsForks.run_eq (h : search.KeepsForks relevant limit) :
    search.run relevant limit =
      answer (search.paths.findSome? (Path.firstViolation relevant)) := by
  induction search using Search.run.induct relevant limit with
  | case1 search hnext hdropped =>
      rw [h search .refl] at hdropped
      cases hdropped
  | case2 search hnext hdropped =>
      rw [run_of_exhausted hnext, if_neg hdropped, exhausted_cases hnext]
      rfl
  | case3 search group position hnext =>
      obtain ⟨path, waiting, hpaths, hmove⟩ := violated_cases hnext
      rw [run_of_violated hnext, hpaths, List.findSome?_cons,
        Path.firstViolation_of_violates hmove]
      rfl
  | case4 search search' hnext ih =>
      have hkeeps := h.next hnext
      rw [run_of_running hnext, ih hkeeps]
      obtain ⟨path, waiting, hpaths, ⟨hmove, rfl⟩ | ⟨next, forks, hmove, rfl⟩⟩ := next_cases hnext
      · rw [hpaths, List.findSome?_cons, Path.firstViolation_of_finished hmove]
      · have hroom : search.forks + forks.length ≤ limit := by
          have hdropped := hkeeps _ .refl
          rw [Bool.or_eq_false_iff, decide_eq_false_iff_not] at hdropped
          omega
        have hfound : (next :: (kept limit search.forks forks ++ waiting)).findSome?
              (Path.firstViolation relevant) =
            search.paths.findSome? (Path.firstViolation relevant) := by
          -- All forks are kept, latest first, and they come before the paths that waited already.
          rw [kept, List.take_of_length_le (by omega), ← List.cons_append, List.findSome?_append,
            ← Path.firstViolation_of_advances hmove, hpaths, List.findSome?_cons]
          cases path.firstViolation relevant <;> rfl
        rw [hfound]

/-- A search of a pattern that keeps its forks reports what is found first from the start. -/
theorem KeepsForks.run_start_eq {pattern : Pattern}
    (h : (start pattern).KeepsForks relevant limit) :
    (start pattern).run relevant limit =
      answer ((Path.start pattern).firstViolation relevant) := by
  rw [h.run_eq]
  exact congrArg answer List.findSome?_singleton

end Search

namespace Config

/-- To pass over the nodes that use no group is not to be noticed. With limits under which neither
drops a fork, the check and the search that enters every node give the same answer, and report the
same violation. A pattern that is accepted when every node is entered is accepted by the check with
the same limit. -/
theorem check_eq_run_all {text : String} {pattern : Pattern}
    (h : Pattern.parse text = .ok pattern) (href : pattern.hasStringRef) :
    (∀ maxPaths maxPaths', pattern.KeepsForks maxPaths →
      (Search.start pattern).KeepsForks (fun _ => true) maxPaths' →
      (Config.mk maxPaths 1 .pathSensitive).check pattern =
        (Search.start pattern).run (fun _ => true) maxPaths') ∧
    ∀ maxPaths, (Search.start pattern).run (fun _ => true) maxPaths = .ok () →
      (Config.mk maxPaths 1 .pathSensitive).check pattern = .ok () := by
  have hroot := Pattern.explorable_of_parse h
  have hcheck : ∀ maxPaths, (Config.mk maxPaths 1 .pathSensitive).check pattern =
      (Search.start pattern).run (Relevance.isMarked pattern.relevance) maxPaths := by
    intro maxPaths
    show pattern.checkPaths maxPaths = _
    rw [Pattern.checkPaths, if_pos href]
  have hviolation : (Path.start pattern).firstViolation (Relevance.isMarked pattern.relevance) =
      (Path.start pattern).firstViolation fun _ => true :=
    Path.firstViolation_eq_all hroot pattern.within_start
  constructor
  · intro maxPaths maxPaths' hkeeps hkeeps'
    rw [hcheck, Search.KeepsForks.run_start_eq hkeeps, hkeeps'.run_start_eq, hviolation]
  · intro maxPaths haccepted
    obtain ⟨hsafe, hforks⟩ := Search.run_start_eq_ok_iff.1 haccepted
    rw [hcheck]
    refine Search.run_start_eq_ok_iff.2 ⟨?_, ?_⟩
    · rwa [← Path.firstViolation_eq_none_iff, hviolation, Path.firstViolation_eq_none_iff]
    · exact (Path.forkCount_le_all hroot pattern.within_start).trans hforks

/-- In `(?:a|b)*(c)*\\1` the first loop is passed over, so that two forks are met; there are eight
when it is entered. The search finds the same violation. -/
theorem check_eq_run_all_loop :
    ∃ pattern, Pattern.parse "(?:a|b)*(c)*\\1" = .ok pattern ∧ pattern.hasStringRef = true ∧
      pattern.KeepsForks 2 ∧ (Search.start pattern).KeepsForks (fun _ => true) 8 ∧
      (Search.start pattern).run (fun _ => true) 8 = .error (.uninitialized 1 12) := by
  obtain ⟨pattern, hparse, href, hwork, hwork', hcheck⟩ : ∃ pattern,
      Pattern.parse "(?:a|b)*(c)*\\1" = .ok pattern ∧ pattern.hasStringRef = true ∧
        (Path.start pattern).work 0 (Relevance.isMarked pattern.relevance) ≤ 3 ∧
        (Path.start pattern).work 0 (fun _ => true) ≤ 9 ∧
        (Config.mk 2 1 .pathSensitive).check pattern = .error (.uninitialized 1 12) :=
    ⟨_, rfl, by decide +kernel, by decide +kernel, by decide +kernel, by decide +kernel⟩
  have hkeeps : pattern.KeepsForks 2 := (Search.roomy_start hwork).keepsForks
  have hkeeps' := (Search.roomy_start hwork').keepsForks
  refine ⟨pattern, hparse, href, hkeeps, hkeeps', ?_⟩
  rw [← (check_eq_run_all hparse href).1 2 8 hkeeps hkeeps', hcheck]

end Config

end Backref
