/-!
# The pattern alphabet

A pattern is written with lower-case letters, the digits `1` to `9` and seven operators.
`CharClass.of?` puts a character into its class; a character without a class may not occur in a
pattern at all.
-/

namespace Backref

/-- The largest number of capturing groups in one pattern. A digit can name each of them. -/
def maxGroups : Nat := 9

/-- The three classes of characters that a pattern may contain. -/
inductive CharClass
  | letter
  | digit
  | operator
  deriving DecidableEq, Repr

/-- The characters that build groups, alternations, repetitions and references. -/
def Alphabet.operators : List Char := ['(', ')', '|', '*', '?', ':', '\\']

/-- The class of a character, if the alphabet has it. -/
def CharClass.of? (c : Char) : Option CharClass :=
  if 'a' ≤ c ∧ c ≤ 'z' then some .letter
  else if '1' ≤ c ∧ c ≤ '9' then some .digit
  else if c ∈ Alphabet.operators then some .operator
  else none

namespace Alphabet

/-- Whether a pattern may contain the character. -/
def contains (c : Char) : Bool := (CharClass.of? c).isSome

/-- Whether the character is one of `a` to `z`. -/
def isLetter (c : Char) : Bool := CharClass.of? c = some .letter

/-- The number of the group that a digit names; `0` is not in the alphabet and names none. -/
def groupNumber? (c : Char) : Option Nat :=
  if CharClass.of? c = some .digit then some (c.toNat - '0'.toNat) else none

end Alphabet

end Backref
