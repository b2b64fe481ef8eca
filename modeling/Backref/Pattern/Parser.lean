import Backref.Alphabet
import Backref.Pattern.Node
import Backref.Rejection

/-!
# Reading a pattern

The parser takes one character at a time. `Parser.feed` reads a character and either rejects it
for good, whatever follows, or moves on; `Parser.finish` decides whether the text may end here.
`Pattern.parse` feeds all characters of a text and finishes.

What is open during the scan is a stack of levels: the whole pattern, then the body of every
open group. A `Level` holds the items read since the last bar of that level and, once there is
a bar, the branches before it.
-/

namespace Backref

/-- An alternation in progress. -/
structure Choice where
  label : Label
  /-- The branches already closed by a bar, latest first. -/
  closed : List Node
  /-- The label of the branch that is being read. -/
  current : Label
  deriving Repr

/-- The branches, latest first, when the current one ends after the given items. -/
def Choice.close (choice : Choice) (items : List Node) : List Node :=
  ⟨choice.current, .branch, items.reverse⟩ :: choice.closed

/-- What has been read of the whole pattern or of the body of one group. -/
structure Level where
  /-- The items since the last bar, latest first. -/
  items : List Node
  /-- The alternation that the first bar has started. -/
  choice : Option Choice
  deriving Repr

namespace Level

/-- The level before its first character. -/
def start : Level := ⟨[], none⟩

/-- Appends an item. -/
def add (level : Level) (item : Node) : Level :=
  { level with items := item :: level.items }

/-- The children of the node that owns the level, when the level ends. -/
def nodes (level : Level) : List Node :=
  match level.choice with
  | none => level.items.reverse
  | some choice => [⟨choice.label, .alternation, (choice.close level.items).reverse⟩]

/-- The index where the items begin; without items, where the bar after them stands. -/
def beginning (level : Level) (bar : Nat) : Nat :=
  match level.items.getLast? with
  | some first => first.position
  | none => bar

end Level

/-- A group that is still open. -/
structure OpenGroup where
  label : Label
  number : Option Nat
  /-- The level in which the group stands. -/
  outer : Level
  deriving Repr

/-- A construct of which only the first characters are read. -/
inductive Pending
  | nothing
  /-- A bar, which may not be the last character. -/
  | bar (index : Nat)
  /-- `(`, which opens a capturing group unless `?` follows. -/
  | parenthesis (start : Nat)
  /-- `(?`, before `:` or the digit of an expression reference. -/
  | query (start : Nat)
  /-- `(?N`, before its `)`. -/
  | queryDigit (start group : Nat)
  /-- `\`, before the digit of a string reference. -/
  | backslash (start : Nat)
  deriving DecidableEq, Repr

/-- The state of the scan between two characters. -/
structure Parser where
  /-- The number of characters read. -/
  position : Nat
  /-- The identifier of the next node. -/
  nextId : Nat
  /-- The number of capturing groups opened. -/
  groupCount : Nat
  /-- The largest group named by an expression reference. -/
  maxExpressionRef : Nat
  pending : Pending
  level : Level
  /-- The groups that are open, innermost first. -/
  enclosing : List OpenGroup
  deriving Repr

namespace Parser

/-- The state before the first character; the root has the identifier zero. -/
def start : Parser :=
  { position := 0
    nextId := 1
    groupCount := 0
    maxExpressionRef := 0
    pending := .nothing
    level := .start
    enclosing := [] }

/-- Appends an item without children, whose text starts at the given index. -/
def addLeaf (parser : Parser) (kind : Kind) (start : Nat) : Parser :=
  { parser with
    nextId := parser.nextId + 1
    pending := .nothing
    level := parser.level.add ⟨⟨parser.nextId, start⟩, kind, []⟩ }

/-- Opens a group whose `(` is at the given index. -/
def openGroup (parser : Parser) (number : Option Nat) (start : Nat) : Parser :=
  { parser with
    nextId := parser.nextId + 1
    pending := .nothing
    level := .start
    enclosing := ⟨⟨parser.nextId, start⟩, number, parser.level⟩ :: parser.enclosing }

/-- Opens a capturing group, unless the pattern has as many as it may have. -/
def openCapturing (parser : Parser) (start : Nat) : Except Rejection Parser :=
  if parser.groupCount = maxGroups then .error (.tooManyGroups start)
  else
    .ok ({ parser with groupCount := parser.groupCount + 1 }.openGroup
      (some (parser.groupCount + 1)) start)

/-- Reads `*`, which wraps the last item into a repetition. -/
def star (parser : Parser) : Except Rejection Parser :=
  match parser.level.items with
  | [] => .error (.misplacedStar parser.position)
  | item :: items =>
    if item.kind.isRepeatable then
      .ok { parser with
        nextId := parser.nextId + 1
        level := { parser.level with
          items := ⟨⟨parser.nextId, item.position⟩, .repetition, [item]⟩ :: items } }
    else .error (.misplacedStar parser.position)

/-- Reads `|`. The first bar of a level starts an alternation with the items before it as its
first branch; a later bar closes the current branch. -/
def bar (parser : Parser) : Except Rejection Parser :=
  if parser.position = 0 then .error (.misplacedBar 0)
  else
    match parser.level.choice with
    | some choice =>
      .ok { parser with
        nextId := parser.nextId + 1
        pending := .bar parser.position
        level := ⟨[], some { choice with
          closed := choice.close parser.level.items
          current := ⟨parser.nextId, parser.position + 1⟩ }⟩ }
    | none =>
      let beginning := parser.level.beginning parser.position
      .ok { parser with
        nextId := parser.nextId + 3
        pending := .bar parser.position
        level := ⟨[], some
          { label := ⟨parser.nextId, beginning⟩
            closed := [⟨⟨parser.nextId + 1, beginning⟩, .branch, parser.level.items.reverse⟩]
            current := ⟨parser.nextId + 2, parser.position + 1⟩ }⟩ }

/-- Reads `)`, which ends the innermost open group. -/
def close (parser : Parser) : Except Rejection Parser :=
  match parser.enclosing with
  | [] => .error (.unmatchedClose parser.position)
  | group :: enclosing =>
    .ok { parser with
      level := group.outer.add ⟨group.label, .group group.number, parser.level.nodes⟩
      enclosing := enclosing }

/-- Reads the first character of an item, or a character that stands for itself. -/
def begin (parser : Parser) (c : Char) : Except Rejection Parser :=
  let parser := { parser with pending := .nothing }
  if c = '*' then parser.star
  else if c = '|' then parser.bar
  else if c = '(' then .ok { parser with pending := .parenthesis parser.position }
  else if c = ')' then parser.close
  else if c = '\\' then .ok { parser with pending := .backslash parser.position }
  else if Alphabet.isLetter c then .ok (parser.addLeaf (.literal c) parser.position)
  else .error (.unexpectedChar c parser.position)

/-- Reads the character after `(?`. -/
def afterQuery (parser : Parser) (start : Nat) (c : Char) : Except Rejection Parser :=
  if c = ':' then .ok (parser.openGroup none start)
  else
    match Alphabet.groupNumber? c with
    | some group => .ok { parser with pending := .queryDigit start group }
    | none => .error (.unexpectedChar c parser.position)

/-- Reads the character after `(?N`. -/
def afterQueryDigit (parser : Parser) (start group : Nat) (c : Char) :
    Except Rejection Parser :=
  if c = ')' then
    .ok ({ parser with maxExpressionRef := max parser.maxExpressionRef group }.addLeaf
      (.expressionRef group) start)
  else .error (.unexpectedChar c parser.position)

/-- Reads the character after `\`. A string reference may only name a group that is open or
closed already. -/
def afterBackslash (parser : Parser) (start : Nat) (c : Char) : Except Rejection Parser :=
  match Alphabet.groupNumber? c with
  | some group =>
    if parser.groupCount < group then .error (.undeclaredGroup group start)
    else .ok (parser.addLeaf (.stringRef group) start)
  | none => .error (.unexpectedChar c parser.position)

/-- Reads a character of the alphabet. -/
def read (parser : Parser) (c : Char) : Except Rejection Parser :=
  match parser.pending with
  | .nothing | .bar _ => parser.begin c
  | .parenthesis start =>
    if c = '?' then .ok { parser with pending := .query start }
    else do
      let parser ← parser.openCapturing start
      parser.begin c
  | .query start => parser.afterQuery start c
  | .queryDigit start group => parser.afterQueryDigit start group c
  | .backslash start => parser.afterBackslash start c

/-- Reads the next character of the text. -/
def feed (parser : Parser) (c : Char) : Except Rejection Parser :=
  if Alphabet.contains c then do
    let parser ← parser.read c
    return { parser with position := parser.position + 1 }
  else .error (.invalidChar c parser.position)

/-- The pattern that has been read, when no construct is pending. -/
def conclude (parser : Parser) : Except Rejection Pattern :=
  if parser.enclosing ≠ [] then .error (.unclosed parser.enclosing.length)
  else if parser.groupCount < parser.maxExpressionRef then
    .error (.unknownGroup parser.maxExpressionRef parser.groupCount)
  else .ok ⟨⟨⟨0, 0⟩, .sequence, parser.level.nodes⟩⟩

/-- Ends the text. -/
def finish (parser : Parser) : Except Rejection Pattern :=
  match parser.pending with
  | .nothing => parser.conclude
  | .bar index => .error (.misplacedBar index)
  | .parenthesis start => do
    let parser ← parser.openCapturing start
    parser.conclude
  | .query _ | .queryDigit .. | .backslash _ => .error (.unexpectedEnd parser.position)

end Parser

/-- The pattern that a list of characters spells, or the first fault in it. -/
def Pattern.parseChars (text : List Char) : Except Rejection Pattern := do
  let parser ← text.foldlM Parser.feed Parser.start
  parser.finish

/-- The pattern that a text spells, or the first fault in it. -/
def Pattern.parse (text : String) : Except Rejection Pattern := Pattern.parseChars text.toList

end Backref
