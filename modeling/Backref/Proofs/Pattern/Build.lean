import Backref.Proofs.Pattern.Regex

/-!
# The tree of an abstract pattern

`Regex.build` gives the nodes of a pattern their identifiers, positions and group numbers by
recursion on the abstract syntax. A `Cursor` holds what the next node needs to know of the text
before it. `Regex.consumeAll_tokens` says that the parser builds this tree from the printed tokens.
-/

namespace Backref

/-- A place in the scan: the characters read, the identifier of the next node and the number of
capturing groups opened. -/
structure Cursor where
  position : Nat
  nextId : Nat
  groups : Nat
  deriving DecidableEq, Repr

namespace Cursor

/-- The place before the first character; the root has the identifier zero. -/
def start : Cursor := ⟨0, 1, 0⟩

/-- The label of a node that starts here. -/
def label (cursor : Cursor) : Label := ⟨cursor.nextId, cursor.position⟩

/-- The place some characters and some nodes later. -/
def skip (cursor : Cursor) (characters nodes : Nat) : Cursor :=
  { cursor with position := cursor.position + characters, nextId := cursor.nextId + nodes }

/-- The place after the opening of a group. -/
def enter (cursor : Cursor) : Bool → Cursor
  | true => { cursor.skip 1 1 with groups := cursor.groups + 1 }
  | false => cursor.skip 3 1

/-- The number of a group that opens here, if it captures. -/
def groupNumber? (cursor : Cursor) (captures : Bool) : Option Nat :=
  if captures then some (cursor.groups + 1) else none

end Cursor

/-- Wraps a node into a repetition if a star follows it. -/
def Node.starIf (starred : Bool) (node : Node) (cursor : Cursor) : Node × Cursor :=
  if starred then (⟨⟨cursor.nextId, node.position⟩, .repetition, [node]⟩, cursor.skip 1 1)
  else (node, cursor)

/-- The index where a sequence begins; an empty one begins where it ends. -/
def Node.beginning (nodes : List Node) (cursor : Cursor) : Nat :=
  (nodes.head?.map Node.position).getD cursor.position

/-- The children of a node around the sequence `nodes`, which ends at `cursor`, and the branches
after it. -/
def Node.alternate (nodes : List Node) (cursor : Cursor) : List Node → List Node
  | [] => nodes
  | branch :: branches =>
      let beginning := Node.beginning nodes cursor
      [⟨⟨cursor.nextId, beginning⟩, .alternation,
        ⟨⟨cursor.nextId + 1, beginning⟩, .branch, nodes⟩ :: branch :: branches⟩]

/-- The place from which the branches after the first one are built: the alternation and its first
branch are created by the first bar. -/
def Cursor.alternate (cursor : Cursor) (others : List (List Item)) : Cursor :=
  if others.isEmpty then cursor else cursor.skip 0 2

mutual

/-- The node of an item, and the place after it. -/
def Item.build : Item → Cursor → Node × Cursor
  | .letter c starred, cursor =>
      Node.starIf starred ⟨cursor.label, .literal c.char, []⟩ (cursor.skip 1 1)
  | .group captures first others starred, cursor =>
      let body := Item.buildSequence first (cursor.enter captures)
      let branches := Item.buildBranches others (body.2.alternate others)
      Node.starIf starred
        ⟨cursor.label, .group (cursor.groupNumber? captures),
          Node.alternate body.1 body.2 branches.1⟩
        (branches.2.skip 1 0)
  | .expressionRef number starred, cursor =>
      Node.starIf starred ⟨cursor.label, .expressionRef number.value, []⟩ (cursor.skip 4 1)
  | .stringRef number, cursor =>
      (⟨cursor.label, .stringRef number.value, []⟩, cursor.skip 2 1)

/-- The nodes of a sequence, and the place after it. -/
def Item.buildSequence : List Item → Cursor → List Node × Cursor
  | [], cursor => ([], cursor)
  | item :: items, cursor =>
      let node := item.build cursor
      let nodes := Item.buildSequence items node.2
      (node.1 :: nodes.1, nodes.2)

/-- The branches of some sequences with a bar before each, and the place after them. -/
def Item.buildBranches : List (List Item) → Cursor → List Node × Cursor
  | [], cursor => ([], cursor)
  | items :: others, cursor =>
      let body := Item.buildSequence items (cursor.skip 1 1)
      let branches := Item.buildBranches others body.2
      (⟨⟨cursor.nextId, cursor.position + 1⟩, .branch, body.1⟩ :: branches.1, branches.2)

end

namespace Regex

/-- The children of a node around an abstract pattern, and the place after it. -/
def buildBody (regex : Regex) (cursor : Cursor) : List Node × Cursor :=
  let body := Item.buildSequence regex.first cursor
  let branches := Item.buildBranches regex.others (body.2.alternate regex.others)
  (Node.alternate body.1 body.2 branches.1, branches.2)

/-- The tree of an abstract pattern. -/
def build (regex : Regex) : Pattern :=
  ⟨⟨⟨0, 0⟩, .sequence, (regex.buildBody .start).1⟩⟩

end Regex

/-- The node of a group is built around its body. -/
theorem Item.build_group (captures : Bool) (first : List Item) (others : List (List Item))
    (starred : Bool) (cursor : Cursor) :
    (Item.group captures first others starred).build cursor =
      Node.starIf starred
        ⟨cursor.label, .group (cursor.groupNumber? captures),
          ((Regex.mk first others).buildBody (cursor.enter captures)).1⟩
        (((Regex.mk first others).buildBody (cursor.enter captures)).2.skip 1 0) := rfl

/-- The tokens of a group are those of its body in parentheses. -/
theorem Item.tokens_group (captures : Bool) (first : List Item) (others : List (List Item))
    (starred : Bool) :
    (Item.group captures first others starred).tokens =
      .opening captures :: ((Regex.mk first others).tokens ++ .closing :: Token.starIf starred) :=
  rfl

/-- One sequence alone makes no alternation. -/
theorem Regex.buildBody_single (first : List Item) (cursor : Cursor) :
    (Regex.mk first []).buildBody cursor = Item.buildSequence first cursor := rfl

end Backref
