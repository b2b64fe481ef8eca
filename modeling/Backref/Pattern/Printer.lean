import Backref.Pattern.Node

/-!
# The text of a pattern

`Pattern.render` writes a pattern in its one canonical form. The text is built from the right:
printing a node puts its characters in front of the text that follows it.
-/

namespace Backref

mutual

/-- The text of a node, followed by `rest`. -/
def Node.print : Node → List Char → List Char
  | ⟨_, .sequence, children⟩, rest => Node.printAll children rest
  | ⟨_, .branch, children⟩, rest => Node.printAll children rest
  | ⟨_, .alternation, []⟩, rest => rest
  | ⟨_, .alternation, first :: others⟩, rest => first.print (Node.printBarred others rest)
  | ⟨_, .repetition, children⟩, rest => Node.printAll children ('*' :: rest)
  | ⟨_, .literal letter, _⟩, rest => letter :: rest
  | ⟨_, .group (some _), children⟩, rest => '(' :: Node.printAll children (')' :: rest)
  | ⟨_, .group none, children⟩, rest =>
    '(' :: '?' :: ':' :: Node.printAll children (')' :: rest)
  | ⟨_, .expressionRef group, _⟩, rest => '(' :: '?' :: group.digitChar :: ')' :: rest
  | ⟨_, .stringRef group, _⟩, rest => '\\' :: group.digitChar :: rest

/-- The texts of the nodes one after the other, followed by `rest`. -/
def Node.printAll : List Node → List Char → List Char
  | [], rest => rest
  | node :: nodes, rest => node.print (Node.printAll nodes rest)

/-- The texts of the nodes with a bar before each of them, followed by `rest`. -/
def Node.printBarred : List Node → List Char → List Char
  | [], rest => rest
  | node :: nodes, rest => '|' :: node.print (Node.printBarred nodes rest)

end

/-- The canonical text of a pattern. -/
def Pattern.render (pattern : Pattern) : String :=
  String.ofList (pattern.root.print [])

end Backref
