import Backref.Proofs.Reference.Exactness

/-!
# The search as a recursive descent

`Search.run` keeps all forks of all paths in one stack. `Path.descend` needs no such stack: it
follows a path to its end and then, one after the other, the forks that were kept on the way, each
with all of its own forks. Both meet the forks in the same order, so they drop the same ones and
find the same violation first (`Search.run_eq_descendAll`).
-/

namespace Backref

/-- The forks met so far, kept or not, and whether one was dropped: one is when the limit leaves no
room for it. -/
structure Budget (limit : Nat) where
  met : Nat
  dropped : Bool
  dropped_eq : dropped = decide (limit < met)
  deriving DecidableEq, Repr

namespace Budget

variable {limit : Nat}

/-- The budget before the first fork. -/
def start (limit : Nat) : Budget limit where
  met := 0
  dropped := false
  dropped_eq := rfl

/-- Whether the limit leaves room for the next fork. -/
def hasRoom (budget : Budget limit) : Bool := budget.met < limit

/-- There is room as long as fewer forks have been met than the limit allows. -/
theorem hasRoom_iff {budget : Budget limit} : budget.hasRoom ↔ budget.met < limit :=
  decide_eq_true_iff

/-- Counts a fork, which is dropped when there is no room for it. -/
def count (budget : Budget limit) : Budget limit where
  met := budget.met + 1
  dropped := budget.dropped || !budget.hasRoom
  dropped_eq := by
    rw [budget.dropped_eq, hasRoom, ← decide_not, ← Bool.decide_or, decide_eq_decide]
    omega

/-- Counts some forks one after the other. -/
def countAll (budget : Budget limit) (forks : List Path) : Budget limit :=
  forks.foldl (fun budget _ => budget.count) budget

/-- Those of some forks that are kept when they are counted one after the other, latest first. -/
def keep : List Path → Budget limit → List Path
  | [], _ => []
  | fork :: forks, budget => keep forks budget.count ++ if budget.hasRoom then [fork] else []

/-- What is found when all paths that were kept have come to their end. -/
def verdict (budget : Budget limit) : Except Rejection Unit :=
  if budget.dropped then .error (.pathLimit limit) else .ok ()

/-- Every fork counts, whether it is kept or not. -/
theorem met_countAll (budget : Budget limit) (forks : List Path) :
    (budget.countAll forks).met = budget.met + forks.length := by
  induction forks generalizing budget with
  | nil => rfl
  | cons fork forks ih =>
      have hforks := ih budget.count
      rw [count, Nat.add_right_comm] at hforks
      exact hforks

/-- The forks that are kept are the first ones, as far as the limit leaves room. -/
theorem keep_eq (budget : Budget limit) (forks : List Path) :
    budget.keep forks = Search.kept limit budget.met forks := by
  induction forks generalizing budget with
  | nil => rw [Search.kept, List.take_nil]; rfl
  | cons fork forks ih =>
      rw [keep, ih]
      show Search.kept limit (budget.met + 1) forks ++ _ = _
      by_cases hroom : budget.met < limit
      · have hlimit : limit - budget.met = limit - (budget.met + 1) + 1 := by omega
        rw [if_pos (hasRoom_iff.2 hroom), Search.kept, Search.kept, hlimit, List.take_succ_cons,
          List.reverse_cons]
      · have hlimit : limit - budget.met = 0 := by omega
        have hlimit' : limit - (budget.met + 1) = 0 := by omega
        rw [if_neg (mt hasRoom_iff.1 hroom), Search.kept, Search.kept, hlimit, hlimit',
          List.take_zero, List.take_zero]
        rfl

end Budget

instance (node : Node) : Decidable node.UsesGroups :=
  inferInstanceAs (Decidable (∃ inner ∈ node.subtree, inner.kind.usesGroup = true))

/-- Whether a group is set or read at the node or below it. -/
def Node.isRelevant (node : Node) : Bool := decide node.UsesGroups

namespace Path

/-- A move lessens the work of the path. -/
theorem work_lt_of_move {path next : Path} {forks : List Path}
    (h : path.move Node.isRelevant = .advances next forks) :
    next.work 1 Node.isRelevant < path.work 1 Node.isRelevant := by
  have hwork : path.work 1 Node.isRelevant = 1 + next.work 1 Node.isRelevant +
      totalWork 1 Node.isRelevant forks := work_move h
  omega

/-- The forks of a move have less work than the path had. -/
theorem totalWork_lt_of_move {path next : Path} {forks : List Path}
    (h : path.move Node.isRelevant = .advances next forks) {limit : Nat} (budget : Budget limit) :
    totalWork 1 Node.isRelevant (budget.keep forks) < path.work 1 Node.isRelevant := by
  have hwork : path.work 1 Node.isRelevant = 1 + next.work 1 Node.isRelevant +
      totalWork 1 Node.isRelevant forks := work_move h
  have hkept := Search.totalWork_kept_le Node.isRelevant limit budget.met forks
  rw [budget.keep_eq]
  omega

/-- The paths that match one of the nodes before the remaining tasks. -/
def choices (nodes : List Node) (matched : GroupSet) (rest : List Task) : List Path :=
  nodes.map fun node => ⟨matched, .visit node :: rest⟩

mutual

/-- Follows a path to its end and then the forks that it has left behind. -/
def descend {limit : Nat} (path : Path) (budget : Budget limit) :
    Except Rejection (Budget limit) :=
  match path with
  | ⟨_, []⟩ => .ok budget
  | ⟨matched, .capture group :: rest⟩ => descend ⟨matched.insert group, rest⟩ budget
  | ⟨matched, .reenter loop mark :: rest⟩ =>
      if matched = mark then descend ⟨matched, rest⟩ budget
      else do
        let budget' ← descend
          ⟨matched, loop.children.map .visit ++ .reenter loop matched :: rest⟩
          (budget.countAll [⟨matched, rest⟩])
        descendAll (budget.keep [⟨matched, rest⟩]) budget'
  | ⟨matched, .visit ⟨label, kind, children⟩ :: rest⟩ =>
      if hrelevant : Node.isRelevant ⟨label, kind, children⟩ then
        match kind, children, hrelevant with
        | .literal _, _, _ | .expressionRef _, _, _ => descend ⟨matched, rest⟩ budget
        | .stringRef group, _, _ =>
            if matched.contains group then descend ⟨matched, rest⟩ budget
            else .error (.uninitialized group label.position)
        | .sequence, children, _ | .branch, children, _ | .group none, children, _ =>
            descend ⟨matched, children.map .visit ++ rest⟩ budget
        | .group (some group), children, _ =>
            descend ⟨matched, children.map .visit ++ .capture group :: rest⟩ budget
        | .alternation, [], _ => descend ⟨matched, rest⟩ budget
        | .alternation, first :: others, _ => do
            let budget' ← descend ⟨matched, .visit first :: rest⟩
              (budget.countAll (choices others matched rest))
            descendAll (budget.keep (choices others matched rest)) budget'
        | .repetition, children, _ => do
            let budget' ← descend
              ⟨matched, children.map .visit ++
                .reenter ⟨label, .repetition, children⟩ matched :: rest⟩
              (budget.countAll [⟨matched, rest⟩])
            descendAll (budget.keep [⟨matched, rest⟩]) budget'
      else descend ⟨matched, rest⟩ budget
termination_by (path.work 1 Node.isRelevant, 0)
decreasing_by
  -- One goal for each call, in the order of the calls; each call follows one move.
  all_goals apply Prod.Lex.left
  · exact work_lt_of_move rfl
  · exact work_lt_of_move (if_pos ‹_›)
  · exact work_lt_of_move (move_reenter ‹_› _)
  · exact totalWork_lt_of_move (move_reenter ‹_› _) budget
  · exact work_lt_of_move (move_visit ‹_› _ _)
  · exact work_lt_of_move (move_visit ‹_› _ _)
  · exact work_lt_of_move ((move_visit ‹_› _ _).trans (if_pos ‹_›))
  · exact work_lt_of_move (move_visit ‹_› _ _)
  · exact work_lt_of_move (move_visit ‹_› _ _)
  · exact work_lt_of_move (move_visit ‹_› _ _)
  · exact work_lt_of_move (move_visit ‹_› _ _)
  · exact work_lt_of_move (move_visit ‹_› _ _)
  · exact work_lt_of_move (move_visit ‹_› _ _)
  · exact totalWork_lt_of_move (move_visit ‹_› _ _) budget
  · exact work_lt_of_move (move_visit ‹_› _ _)
  · exact totalWork_lt_of_move (move_visit ‹_› _ _) budget
  · exact work_lt_of_move (if_neg ‹_›)

/-- Follows some paths one after the other, each with all of its forks. -/
def descendAll {limit : Nat} (paths : List Path) (budget : Budget limit) :
    Except Rejection (Budget limit) :=
  match paths with
  | [] => .ok budget
  | path :: paths => do
      let budget' ← descend path budget
      descendAll paths budget'
termination_by (totalWork 1 Node.isRelevant paths, 1)
decreasing_by
  · exact Prod.Lex.right' _ (Nat.le_add_right _ _) Nat.one_pos
  · exact .left _ _ (Nat.lt_add_of_pos_left (Task.workThrough_pos _ _ _ _))

end

variable {limit : Nat} {path : Path}

/-- A path that goes on without a fork leaves none behind. -/
theorem descend_follow (path : Path) (budget : Budget limit) :
    path.descend (budget.countAll []) >>= descendAll (budget.keep []) = path.descend budget := by
  have hnone : (descendAll [] : Budget limit → Except Rejection (Budget limit)) = pure := by
    funext budget
    rw [descendAll]
    rfl
  rw [Budget.keep, hnone, bind_pure]
  rfl

/-- A single path is followed like any other. -/
theorem descendAll_singleton (path : Path) (budget : Budget limit) :
    descendAll [path] budget = path.descend budget := by
  rw [← descend_follow, descendAll]
  rfl

/-- Descending begins with the next move. -/
theorem descend_eq (path : Path) (budget : Budget limit) :
    path.descend budget =
      match path.move Node.isRelevant with
      | .finished => .ok budget
      | .violates group position => .error (.uninitialized group position)
      | .advances next forks =>
          next.descend (budget.countAll forks) >>= descendAll (budget.keep forks) := by
  obtain ⟨matched, pending⟩ := path
  cases pending with
  | nil => rw [descend]; rfl
  | cons task rest =>
      cases task with
      | capture group =>
          rw [descend]
          exact (descend_follow _ budget).symm
      | reenter loop mark =>
          rw [descend]
          by_cases h : matched = mark
          · subst h
            rw [if_pos rfl, move_leave]
            exact (descend_follow _ budget).symm
          · rw [if_neg h, move_reenter h]
            rfl
      | visit node =>
          obtain ⟨label, kind, children⟩ := node
          rw [descend]
          by_cases h : Node.isRelevant ⟨label, kind, children⟩
          · rw [dif_pos h, move_visit h]
            cases kind with
            | literal letter => exact (descend_follow _ budget).symm
            | expressionRef group => exact (descend_follow _ budget).symm
            | stringRef group =>
                by_cases hmatched : matched.contains group
                · simp only [enter, if_pos hmatched, follow]
                  exact (descend_follow _ budget).symm
                · simp only [enter, if_neg hmatched]
                  rfl
            | sequence => exact (descend_follow _ budget).symm
            | branch => exact (descend_follow _ budget).symm
            | group number =>
                cases number with
                | none => exact (descend_follow _ budget).symm
                | some group => exact (descend_follow _ budget).symm
            | alternation =>
                cases children with
                | nil => exact (descend_follow _ budget).symm
                | cons first others => rfl
            | repetition => rfl
          · rw [dif_neg h, move_skip h]
            exact (descend_follow _ budget).symm

/-- Some paths can be followed in two parts. -/
theorem descendAll_append (paths paths' : List Path) (budget : Budget limit) :
    descendAll (paths ++ paths') budget = descendAll paths budget >>= descendAll paths' := by
  induction paths generalizing budget with
  | nil => rw [descendAll]; rfl
  | cons path paths ih =>
      rw [List.cons_append, descendAll, descendAll, bind_assoc]
      exact bind_congr fun budget' => ih budget'

/-- Relevance decides the moves of a path that lies in the tree. -/
theorem move_congr {root : Node} {relevant : Node → Bool} (hroot : root.Explorable relevant)
    (hwithin : path.Within root) : path.move relevant = path.move Node.isRelevant := by
  obtain ⟨matched, pending⟩ := path
  cases pending with
  | nil => rfl
  | cons task rest =>
      cases task with
      | visit node =>
          have hnode : node ∈ root.subtree := hwithin _ List.mem_cons_self
          have hrelevant : relevant node = node.isRelevant := by
            rw [Bool.eq_iff_iff, hroot.relevant_iff node hnode, Node.isRelevant, decide_eq_true_eq]
          simp only [move, perform, hrelevant]
      | capture group => rfl
      | reenter loop mark => rfl

end Path

/-- A search finds what is found by following its paths one after the other, each with all of its
forks. -/
theorem Search.run_eq_descendAll {root : Node} {relevant : Node → Bool} {limit : Nat}
    (hroot : root.Explorable relevant) {search : Search}
    (hwithin : ∀ path ∈ search.paths, path.Within root) {budget : Budget limit}
    (hmet : search.forks = budget.met) (hdropped : search.dropped = budget.dropped) :
    search.run relevant limit = Path.descendAll search.paths budget >>= Budget.verdict := by
  -- A step replaces the first path by what it leads to, before the paths that wait.
  induction search using Search.run.induct relevant limit generalizing budget with
  | case1 search hnext h =>
      rw [run_of_exhausted hnext, exhausted_cases hnext, Path.descendAll, hdropped]
      rfl
  | case2 search hnext h =>
      rw [run_of_exhausted hnext, exhausted_cases hnext, Path.descendAll, hdropped]
      rfl
  | case3 search group position hnext =>
      obtain ⟨path, waiting, hpaths, hmove⟩ := violated_cases hnext
      rw [hpaths] at hwithin
      rw [Path.move_congr hroot (hwithin path List.mem_cons_self)] at hmove
      rw [run_of_violated hnext, hpaths, Path.descendAll, Path.descend_eq, hmove]
      rfl
  | case4 search search' hnext ih =>
      rw [run_of_running hnext]
      obtain ⟨path, waiting, hpaths, hstep⟩ := next_cases hnext
      obtain ⟨hmove, rfl⟩ | ⟨next, forks, hmove, rfl⟩ := hstep
      · rw [hpaths] at hwithin ⊢
        obtain ⟨hpath, hwaiting⟩ := List.forall_mem_cons.1 hwithin
        rw [Path.move_congr hroot hpath] at hmove
        rw [ih hwaiting hmet hdropped, Path.descendAll, Path.descend_eq, hmove]
        rfl
      · rw [hpaths] at hwithin ⊢
        obtain ⟨hpath, hwaiting⟩ := List.forall_mem_cons.1 hwithin
        have hothers := (Path.moves_of_move_eq hmove).within hroot.groupsFit hpath
        rw [Path.move_congr hroot hpath] at hmove
        have hcount : search.forks + forks.length = (budget.countAll forks).met := by
          rw [budget.met_countAll, hmet]
        have hdrop : (search.dropped || decide (limit < search.forks + forks.length)) =
            (budget.countAll forks).dropped := by
          rw [Budget.dropped_eq, ← hcount, hdropped, budget.dropped_eq, hmet, ← Bool.decide_or,
            decide_eq_decide]
          omega
        have hkept : ∀ other ∈ next :: (kept limit search.forks forks ++ waiting),
            other.Within root := by
          intro other hother
          rcases List.mem_cons.1 hother with rfl | hother
          · exact hothers other List.mem_cons_self
          · rcases List.mem_append.1 hother with hfork | hwait
            · exact hothers other (List.mem_cons_of_mem _ (mem_of_mem_kept hfork))
            · exact hwaiting other hwait
        rw [ih hkept hcount hdrop, hmet, ← budget.keep_eq, Path.descendAll, Path.descendAll,
          Path.descend_eq path, hmove]
        simp only [bind_assoc, Path.descendAll_append]

/-- The path-sensitive rule finds what is found by descending. -/
theorem Pattern.checkPaths_eq_descend {text : String} {pattern : Pattern}
    (h : Pattern.parse text = .ok pattern) (href : pattern.hasStringRef) (limit : Nat) :
    pattern.checkPaths limit =
      (Path.start pattern).descend (.start limit) >>= Budget.verdict := by
  rw [checkPaths, if_pos href, ← Path.descendAll_singleton]
  exact Search.run_eq_descendAll (explorable_of_parse h)
    (List.forall_mem_singleton.2 pattern.within_start) rfl rfl

/-- With one worker, a pattern that reads a group is checked by descending: the way through it that
takes the first branches and stays in its loops as long as they match a new group comes first, then
the forks from the last one that was kept to the first. A violation ends the descent; without one,
the pattern is accepted if no fork was dropped. -/
theorem Config.check_eq_descend {text : String} {pattern : Pattern}
    (h : Pattern.parse text = .ok pattern) (href : pattern.hasStringRef) (maxPaths : Nat) :
    (Config.mk maxPaths 1 .pathSensitive).check pattern =
      (Path.start pattern).descend (.start maxPaths) >>= Budget.verdict :=
  Pattern.checkPaths_eq_descend h href maxPaths

/-- In `(a)*\1(?:\1|b)` the fork that skips the loop reads the group too early; it is the first fork
that is met and the last one that is followed. -/
theorem Config.check_eq_descend_loop :
    ∃ pattern, Pattern.parse "(a)*\\1(?:\\1|b)" = .ok pattern ∧ pattern.hasStringRef = true ∧
      ∀ maxPaths, (Config.mk maxPaths 1 .pathSensitive).check pattern =
        (Path.start pattern).descend (.start maxPaths) >>= Budget.verdict := by
  obtain ⟨pattern, hparse, href⟩ : ∃ pattern,
      Pattern.parse "(a)*\\1(?:\\1|b)" = .ok pattern ∧ pattern.hasStringRef = true :=
    ⟨_, rfl, by decide +kernel⟩
  exact ⟨pattern, hparse, href, fun maxPaths => check_eq_descend hparse href maxPaths⟩

end Backref
