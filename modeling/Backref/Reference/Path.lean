import Backref.GroupSet
import Backref.Pattern.Node

/-!
# Paths through a pattern

A `Path` is one way to match a pattern from left to right: the groups that have matched so far
and the tasks that remain, next one first. `Path.move` performs the next task. At an
alternation and at a repetition the ways part: the path itself takes the first branch, or runs
the body of the loop, and each other choice becomes a fork.
-/

namespace Backref

/-- What a path still has to do. -/
inductive Task
  /-- Match a node. -/
  | visit (node : Node)
  /-- Record that a group has matched, after its body. -/
  | capture (group : Nat)
  /-- Return to a loop whose last iteration began with the set `entry`. -/
  | reenter (loop : Node) (entry : GroupSet)
  deriving Repr

/-- One way through a pattern. -/
structure Path where
  /-- The groups that have matched. -/
  matched : GroupSet
  /-- The remaining tasks, next one first. -/
  pending : List Task
  deriving Repr

/-- What happens when a path performs its next task. -/
inductive Move
  /-- No task is left. -/
  | finished
  /-- The task reads a group that has not matched. -/
  | violates (group position : Nat)
  /-- The path goes on, and other ways part from it. -/
  | advances (path : Path) (forks : List Path)
  deriving Repr

namespace Path

/-- The path that has a pattern before it. -/
def start (pattern : Pattern) : Path := ⟨.empty, [.visit pattern.root]⟩

/-- Goes on with the given tasks, without a fork. -/
def follow (matched : GroupSet) (pending : List Task) : Move := .advances ⟨matched, pending⟩ []

/-- Runs the body of a loop once and returns to it; the fork leaves the loop. -/
def iterate (loop : Node) (matched : GroupSet) (rest : List Task) : Move :=
  .advances ⟨matched, loop.children.map .visit ++ .reenter loop matched :: rest⟩
    [⟨matched, rest⟩]

/-- Matches a relevant node before the remaining tasks. -/
def enter (node : Node) (matched : GroupSet) (rest : List Task) : Move :=
  match node.kind with
  | .literal _ | .expressionRef _ => follow matched rest
  | .stringRef group =>
    if matched.contains group then follow matched rest else .violates group node.position
  | .sequence | .branch | .group none => follow matched (node.children.map .visit ++ rest)
  | .group (some group) => follow matched (node.children.map .visit ++ .capture group :: rest)
  | .alternation =>
    match node.children with
    | [] => follow matched rest
    | first :: others =>
      .advances ⟨matched, .visit first :: rest⟩
        (others.map fun branch => ⟨matched, .visit branch :: rest⟩)
  | .repetition => iterate node matched rest

/-- Performs one task before the remaining ones. A node that is not relevant is passed over. A
loop is offered again only if its last iteration has matched a new group: from an unchanged
set, another iteration would repeat checks already made. -/
def perform (relevant : Node → Bool) (matched : GroupSet) (rest : List Task) : Task → Move
  | .visit node => if relevant node then enter node matched rest else follow matched rest
  | .capture group => follow (matched.insert group) rest
  | .reenter loop entry =>
    if matched = entry then follow matched rest else iterate loop matched rest

/-- Performs the next task of a path. -/
def move (relevant : Node → Bool) (path : Path) : Move :=
  match path.pending with
  | [] => .finished
  | task :: rest => perform relevant path.matched rest task

end Path

end Backref
