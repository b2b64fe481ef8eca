import Backref.Reference.Relevance
import Backref.Reference.Work
import Backref.Rejection

/-!
# Searching all paths

The path-sensitive rule accepts a pattern when no way through it reads a group that has not
matched. `Search` holds the paths that are still to be followed, as a stack: the first one is
followed to its end before the next. Only a limited number of forks is kept; a fork beyond the
limit is dropped, and a search that has dropped a fork cannot accept.

`Search.next` makes one step and `Search.run` makes all of them. Each step lessens the work of
the paths, so a search ends whatever the limit is.
-/

namespace Backref

/-- The state of a search between two steps. -/
structure Search where
  /-- The paths to follow, the present one first. -/
  paths : List Path
  /-- The number of forks met, kept or not. -/
  forks : Nat
  /-- Whether a fork was dropped. -/
  dropped : Bool
  deriving Repr

namespace Search

/-- What a step of a search leads to. -/
inductive Progress
  /-- Every path has come to its end. -/
  | exhausted
  /-- The present path reads a group that has not matched. -/
  | violated (group position : Nat)
  /-- The search goes on. -/
  | running (search : Search)
  deriving Repr

/-- The search that has a pattern before it. -/
def start (pattern : Pattern) : Search := ⟨[.start pattern], 0, false⟩

/-- The forks that are kept when the given number was met before, latest first. -/
def kept (limit met : Nat) (forks : List Path) : List Path :=
  (forks.take (limit - met)).reverse

/-- Makes one step on the present path. -/
def next (relevant : Node → Bool) (limit : Nat) (search : Search) : Progress :=
  match search.paths with
  | [] => .exhausted
  | path :: waiting =>
    match path.move relevant with
    | .finished => .running { search with paths := waiting }
    | .violates group position => .violated group position
    | .advances path forks =>
      .running
        { paths := path :: (kept limit search.forks forks ++ waiting)
          forks := search.forks + forks.length
          dropped := search.dropped || decide (limit < search.forks + forks.length) }

/-- The work of all paths of a search. -/
def work (relevant : Node → Bool) (search : Search) : Nat :=
  Path.totalWork 1 relevant search.paths

/-- The forks that are kept hold no more work than all of them. -/
theorem totalWork_kept_le (relevant : Node → Bool) (limit met : Nat) (forks : List Path) :
    Path.totalWork 1 relevant (kept limit met forks) ≤ Path.totalWork 1 relevant forks := by
  rw [kept, Path.totalWork_reverse]
  conv => rhs; rw [← List.take_append_drop (limit - met) forks, Path.totalWork_append]
  exact Nat.le_add_right _ _

/-- Each step lessens the work. -/
theorem work_next_lt {relevant : Node → Bool} {limit : Nat} {search search' : Search}
    (h : search.next relevant limit = .running search') :
    search'.work relevant < search.work relevant := by
  obtain ⟨paths, met, dropped⟩ := search
  cases paths with
  | nil => cases h
  | cons path waiting =>
    simp only [next] at h
    split at h
    · next hmove =>
      cases h
      have hwork : path.work 1 relevant = 1 := Path.work_finished hmove
      simp only [work, Path.totalWork]
      omega
    · cases h
    · next path' forks hmove =>
      cases h
      have hwork : path.work 1 relevant = 1 + path'.work 1 relevant +
          Path.totalWork 1 relevant forks := Path.work_move hmove
      have hkept := totalWork_kept_le relevant limit met forks
      simp only [work, Path.totalWork, Path.totalWork_append]
      omega

/-- Follows all paths. A violation is reported even after a fork was dropped. -/
def run (relevant : Node → Bool) (limit : Nat) (search : Search) : Except Rejection Unit :=
  match _ : search.next relevant limit with
  | .exhausted => if search.dropped then .error (.pathLimit limit) else .ok ()
  | .violated group position => .error (.uninitialized group position)
  | .running search' => run relevant limit search'
termination_by search.work relevant
decreasing_by exact work_next_lt ‹_›

end Search

/-- Whether a pattern contains a string reference. -/
def Pattern.hasStringRef (pattern : Pattern) : Bool :=
  pattern.sites.any fun site => site.kind matches .stringRef _

/-- The path-sensitive rule: on every way through the pattern, each string reference comes
after its group has matched. -/
def Pattern.checkPaths (pattern : Pattern) (limit : Nat) : Except Rejection Unit :=
  if pattern.hasStringRef then
    let marks := pattern.relevance
    (Search.start pattern).run (Relevance.isMarked marks) limit
  else .ok ()

end Backref
