import Backref.Alphabet
import Backref.Text.Quoted

/-!
# Reasons to reject a pattern

A pattern is rejected for one reason. `Rejection` lists the reasons with the data that a
reader needs, and `Rejection.message` is the one place where they are put into words.
Indices count characters from the start of the pattern, from zero.
-/

namespace Backref

/-- Why a pattern was rejected. -/
inductive Rejection
  /-- A character outside the alphabet. -/
  | invalidChar (found : Char) (index : Nat)
  /-- A character of the alphabet in a place where it cannot stand. -/
  | unexpectedChar (found : Char) (index : Nat)
  /-- The pattern stops inside `(?`, `(?N` or `\`. -/
  | unexpectedEnd (index : Nat)
  /-- A star after something that cannot be repeated. -/
  | misplacedStar (index : Nat)
  /-- A bar as the first or the last character. -/
  | misplacedBar (index : Nat)
  /-- A `)` without its `(`. -/
  | unmatchedClose (index : Nat)
  /-- The pattern stops while `count` groups are open. -/
  | unclosed (count : Nat)
  /-- One capturing group more than `maxGroups`. -/
  | tooManyGroups (index : Nat)
  /-- A string reference to a group that is not opened before it. -/
  | undeclaredGroup (group index : Nat)
  /-- An expression reference beyond the `count` groups of the pattern. -/
  | unknownGroup (group count : Nat)
  /-- A string reference that can be reached before its group has matched. -/
  | uninitialized (group index : Nat)
  /-- More forks than the limit allows, and no violation on the paths explored. -/
  | pathLimit (limit : Nat)
  deriving DecidableEq, Repr

namespace Rejection

/-- The broad kinds of rejections. -/
inductive Category
  | lexical
  | syntactic
  | referenceSyntax
  | referenceSemantics
  | resource
  deriving DecidableEq, Repr

/-- The kind of fault that a rejection reports. -/
def category : Rejection → Category
  | invalidChar .. => .lexical
  | unexpectedChar .. | unexpectedEnd .. | misplacedStar .. | misplacedBar ..
  | unmatchedClose .. | unclosed .. => .syntactic
  | tooManyGroups .. | undeclaredGroup .. | unknownGroup .. => .referenceSyntax
  | uninitialized .. => .referenceSemantics
  | pathLimit .. => .resource

/-- The index of the offending character, where there is one. -/
def index? : Rejection → Option Nat
  | invalidChar _ index | unexpectedChar _ index | unexpectedEnd index | misplacedStar index
  | misplacedBar index | unmatchedClose index | tooManyGroups index
  | undeclaredGroup _ index | uninitialized _ index => some index
  | unclosed _ | unknownGroup .. | pathLimit _ => none

/-- The rejection in words. -/
def message : Rejection → String
  | invalidChar found index => s!"character {Text.quoted found} at index {index} is not allowed"
  | unexpectedChar found index => s!"unexpected {Text.quoted found} at index {index}"
  | unexpectedEnd index => s!"pattern ends in the middle of a construct at index {index}"
  | misplacedStar index => s!"'*' at index {index} must follow a letter or ')'"
  | misplacedBar index => s!"'|' at index {index} cannot start or end the pattern"
  | unmatchedClose index => s!"unmatched closing parenthesis at index {index}"
  | unclosed count => s!"{count} parenthesis left unclosed"
  | tooManyGroups index =>
    s!"group opened at index {index} exceeds the limit of {maxGroups} capturing groups"
  | undeclaredGroup group index => s!"reference to undeclared group {group} at index {index}"
  | unknownGroup group count =>
    s!"expression reference (?{group}) names a missing group, pattern has {count}"
  | uninitialized group index =>
    s!"string back-reference to group {group} at index {index} is not guaranteed initialized"
  | pathLimit limit => s!"validation gave up after exploring {limit} paths"

end Rejection

end Backref
