/-!
# Patterns as trees

A parsed pattern is an ordered tree. Every node carries a `Label`: an identifier, given out in
the order in which the parser creates the nodes, and the index of the character where its text
starts. `Kind` says what a node is; what it contains is its list of children.
-/

namespace Backref

/-- The identifier of a node and the index where its text starts. -/
structure Label where
  id : Nat
  position : Nat
  deriving DecidableEq, Repr

/-- The kinds of nodes. -/
inductive Kind
  /-- The whole pattern. -/
  | sequence
  /-- A choice between its children, which are branches. -/
  | alternation
  /-- One choice of an alternation. -/
  | branch
  /-- Its only child, any number of times. -/
  | repetition
  /-- A letter that matches itself. -/
  | literal (letter : Char)
  /-- A group in parentheses; without a number it does not capture. -/
  | group (number : Option Nat)
  /-- A reference `(?N)` to the expression inside a group. -/
  | expressionRef (group : Nat)
  /-- A reference `\N` to the string that a group has matched. -/
  | stringRef (group : Nat)
  deriving DecidableEq, Repr

/-- A node of a pattern, with everything below it. -/
structure Node where
  label : Label
  kind : Kind
  children : List Node
  deriving Repr

namespace Node

/-- The identifier of a node. -/
def id (node : Node) : Nat := node.label.id

/-- The index where the text of a node starts. -/
def position (node : Node) : Nat := node.label.position

end Node

/-- Whether a star may follow a node of this kind. -/
def Kind.isRepeatable : Kind → Bool
  | .literal _ | .group _ | .expressionRef _ => true
  | .sequence | .alternation | .branch | .repetition | .stringRef _ => false

/-- A parsed pattern. -/
structure Pattern where
  root : Node
  deriving Repr

end Backref
