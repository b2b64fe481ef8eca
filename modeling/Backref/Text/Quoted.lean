import Backref.Text.DefaultIgnorable
import Backref.Text.GraphemeExtend
import Backref.Text.Unprintable

/-!
# Quoted characters

`Text.quoted` shows a single character inside a message. A character that could not be told
apart on a terminal is written as an escape, so every message is one visible line.
-/

namespace Backref.Text

/-- The code point in lower-case hexadecimal, without leading zeros. -/
def hexadecimal (c : Char) : String :=
  String.ofList (Nat.toDigits 16 c.toNat)

/-- Whether the character is a halfwidth sound mark. These extend a grapheme, but they are letters
with a form and a width of their own. -/
def isHalfwidthSoundMark (c : Char) : Bool := c = '\uFF9E' || c = '\uFF9F'

/-- Whether the character is drawn only as a part of the one before it. -/
def isCombining (c : Char) : Bool := isGraphemeExtend c && !isHalfwidthSoundMark c

/-- Whether a character could not be made out on its own: it joins the character before it, may
be shown as nothing, or has no visible form. -/
def isInvisible (c : Char) : Bool :=
  isCombining c || isDefaultIgnorable c || isUnprintable c

/-- The text that stands for a character between single quotes. -/
def escaped (c : Char) : String :=
  match c with
  | '\x00' => "\\0"
  | '\t' => "\\t"
  | '\r' => "\\r"
  | '\n' => "\\n"
  | '\'' => "\\'"
  | '\\' => "\\\\"
  | c =>
    if isInvisible c then "\\u\x7b" ++ hexadecimal c ++ "\x7d"
    else c.toString

/-- A character in single quotes, escaped where it has no visible form. -/
def quoted (c : Char) : String :=
  "'" ++ escaped c ++ "'"

end Backref.Text
