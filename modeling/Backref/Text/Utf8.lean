/-!
# Decoding bytes

`Utf8.decode` reads bytes as UTF-8. It never fails: each longest start of a character that is
not completed, and each byte that cannot start one, becomes the replacement character, and
decoding goes on with the next byte.
-/

namespace Backref.Text.Utf8

/-- The character that stands for bytes that are not well formed. -/
def replacement : Char := '\uFFFD'

/-- A character of which some bytes are read. -/
structure Unfinished where
  /-- The least byte that may come next. -/
  low : UInt8
  /-- The greatest byte that may come next. -/
  high : UInt8
  /-- The number of bytes after the next one. -/
  further : Nat
  /-- The bits read so far. -/
  bits : Nat
  deriving DecidableEq, Repr

/-- What the first byte of a longer character promises. The interval of the second byte keeps
out overlong forms, surrogates and values beyond the last code point. -/
def Unfinished.ofFirst? (byte : UInt8) : Option Unfinished :=
  if 0xC2 ≤ byte ∧ byte ≤ 0xDF then some ⟨0x80, 0xBF, 0, byte.toNat - 0xC0⟩
  else if byte = 0xE0 then some ⟨0xA0, 0xBF, 1, 0x0⟩
  else if byte = 0xED then some ⟨0x80, 0x9F, 1, 0xD⟩
  else if 0xE1 ≤ byte ∧ byte ≤ 0xEF then some ⟨0x80, 0xBF, 1, byte.toNat - 0xE0⟩
  else if byte = 0xF0 then some ⟨0x90, 0xBF, 2, 0x0⟩
  else if byte = 0xF4 then some ⟨0x80, 0x8F, 2, 0x4⟩
  else if 0xF1 ≤ byte ∧ byte ≤ 0xF3 then some ⟨0x80, 0xBF, 2, byte.toNat - 0xF0⟩
  else none

/-- The state of decoding between two bytes. -/
structure Decoder where
  /-- The characters decoded, latest first. -/
  chars : List Char
  unfinished : Option Unfinished
  deriving DecidableEq, Repr

namespace Decoder

/-- The state before the first byte. -/
def start : Decoder := ⟨[], none⟩

/-- Reads the first byte of a character, after the given characters. -/
def first (chars : List Char) (byte : UInt8) : Decoder :=
  if byte < 0x80 then ⟨Char.ofNat byte.toNat :: chars, none⟩
  else
    match Unfinished.ofFirst? byte with
    | some unfinished => ⟨chars, some unfinished⟩
    | none => ⟨replacement :: chars, none⟩

/-- Reads the next byte. A byte that cannot continue an unfinished character starts a new
one. -/
def feed (decoder : Decoder) (byte : UInt8) : Decoder :=
  match decoder.unfinished with
  | none => first decoder.chars byte
  | some ⟨low, high, further, bits⟩ =>
    if low ≤ byte ∧ byte ≤ high then
      let bits := bits * 64 + (byte.toNat - 0x80)
      match further with
      | 0 => ⟨Char.ofNat bits :: decoder.chars, none⟩
      | further + 1 => ⟨decoder.chars, some ⟨0x80, 0xBF, further, bits⟩⟩
    else first (replacement :: decoder.chars) byte

/-- The characters decoded, when no byte follows. -/
def finish (decoder : Decoder) : List Char :=
  match decoder.unfinished with
  | none => decoder.chars.reverse
  | some _ => (replacement :: decoder.chars).reverse

end Decoder

/-- The characters that the bytes encode. -/
def decode (bytes : List UInt8) : List Char :=
  (bytes.foldl Decoder.feed .start).finish

end Backref.Text.Utf8
