import Backref.Text.Utf8

/-!
# Lines of input

Input is read as bytes and cut into lines. A line ends with LF or with CR and LF; the last line
may lack its end, and the end of the last line does not begin another one.
-/

namespace Backref.Text

/-- The byte that ends a line. -/
def lineFeed : UInt8 := 10

/-- The byte that may stand before the end of a line. -/
def carriageReturn : UInt8 := 13

/-- What a reader of bytes delivers at once. -/
inductive Chunk
  /-- The next bytes; no bytes at all mean the end of the input. -/
  | bytes (content : List UInt8)
  /-- The reader was interrupted and can be asked again. -/
  | interrupted
  /-- The reader has failed. -/
  | failed (reason : String)
  deriving Repr

/-- All bytes up to the end of the input, or the reason why the reader failed. -/
def gather : List Chunk → Except String (List UInt8)
  | [] => .ok []
  | .bytes [] :: _ => .ok []
  | .bytes content :: chunks => do
    let rest ← gather chunks
    return content ++ rest
  | .interrupted :: chunks => gather chunks
  | .failed reason :: _ => .error reason

/-- Puts a byte in front of the lines that follow it. -/
def consByte (byte : UInt8) (lines : List (List UInt8)) : List (List UInt8) :=
  if byte = lineFeed then [] :: lines
  else
    match lines with
    | [] => [[byte]]
    | line :: lines => (byte :: line) :: lines

/-- The lines without their line feeds. -/
def splitLines (bytes : List UInt8) : List (List UInt8) := bytes.foldr consByte []

/-- A line without the carriage return at its end. -/
def dropReturn (line : List UInt8) : List UInt8 :=
  if line.getLast? = some carriageReturn then line.dropLast else line

/-- The text of a line. -/
def decodeLine (line : List UInt8) : String := String.ofList (Utf8.decode (dropReturn line))

/-- The texts of all lines. -/
def lines (bytes : List UInt8) : List String := (splitLines bytes).map decodeLine

end Backref.Text
