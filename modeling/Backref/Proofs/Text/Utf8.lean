import Backref.Text.Utf8
import Mathlib.Data.List.Induction
import Mathlib.Data.String.Basic

/-!
# Decoding what was encoded

`encode` writes characters in UTF-8. The decoder reads them back, whatever they are
(`decode_encode`). Bytes that do not encode any text are decoded as well, but not without a
replacement character: `decode_spells` says how the characters come out of the bytes, and
`encode_decode` that the bytes can be told from the characters unless one of them is a
replacement.
-/

namespace Backref.Text.Utf8

/-- The bytes of the characters. -/
def encode (chars : List Char) : List UInt8 := chars.flatMap String.utf8EncodeChar

@[simp] theorem encode_nil : encode [] = [] := rfl

@[simp] theorem encode_cons (c : Char) (chars : List Char) :
    encode (c :: chars) = String.utf8EncodeChar c ++ encode chars := rfl

@[simp] theorem encode_append (chars rest : List Char) :
    encode (chars ++ rest) = encode chars ++ encode rest := List.flatMap_append

theorem encode_toList (text : String) : encode text.toList = text.toUTF8.data.toList := by
  have htext : text.toList.utf8Encode = text.toByteArray := String.utf8Encode_toList
  rw [String.toUTF8, ← htext, List.utf8Encode, List.toList_data_toByteArray, encode]

/-! ## The forms of a character -/

/-- The last bytes of a long character. Each of them holds six bits of the code point. -/
def continuation (code : Nat) : Nat → List UInt8
  | 0 => []
  | count + 1 => UInt8.ofNat (0x80 + code / 64 ^ count % 64) :: continuation code count

theorem le_of_mem_continuation {code count : Nat} {byte : UInt8}
    (h : byte ∈ continuation code count) : 0x80 ≤ byte.toNat := by
  induction count with
  | zero => cases h
  | succ count ih =>
      rw [continuation, List.mem_cons] at h
      obtain rfl | h := h
      · rw [UInt8.toNat_ofNat']
        omega
      · exact ih h

theorem toNat_char {code : Nat} (h : code.isValidChar) : (Char.ofNat code).toNat = code := by
  rw [Char.ofNat, dif_pos h]
  rfl

theorem encodeChar_one {code : Nat} (h : code < 0x80) :
    String.utf8EncodeChar (Char.ofNat code) = [UInt8.ofNat code] := by
  have hcode : (Char.ofNat code).toNat = code := toNat_char (by left; omega)
  simp only [String.utf8EncodeChar, Char.toNat_val, hcode]
  rw [if_pos (by omega)]

theorem encodeChar_two {code : Nat} (h : 0x80 ≤ code) (h' : code < 0x800) :
    String.utf8EncodeChar (Char.ofNat code) =
      UInt8.ofNat (0xC0 + code / 64) :: continuation code 1 := by
  have hcode : (Char.ofNat code).toNat = code := toNat_char (by left; omega)
  have hfirst : code / 64 % 32 = code / 64 := by omega
  simp only [String.utf8EncodeChar, Char.toNat_val, hcode]
  rw [if_neg (by omega), if_pos (by omega), hfirst]
  simp only [continuation, Nat.pow_zero, Nat.div_one, Nat.add_comm]

theorem encodeChar_three {code : Nat} (h : 0x800 ≤ code) (h' : code < 0x10000)
    (hvalid : code.isValidChar) :
    String.utf8EncodeChar (Char.ofNat code) =
      UInt8.ofNat (0xE0 + code / 64 ^ 2) :: continuation code 2 := by
  have hcode : (Char.ofNat code).toNat = code := toNat_char hvalid
  have hfirst : code / 4096 % 16 = code / 4096 := by omega
  simp only [String.utf8EncodeChar, Char.toNat_val, hcode]
  rw [if_neg (by omega), if_neg (by omega), if_pos (by omega), hfirst]
  simp only [continuation, Nat.pow_zero, Nat.pow_one, Nat.div_one, Nat.add_comm, Nat.reducePow]

theorem encodeChar_four {code : Nat} (h : 0x10000 ≤ code) (h' : code < 0x110000) :
    String.utf8EncodeChar (Char.ofNat code) =
      UInt8.ofNat (0xF0 + code / 64 ^ 3) :: continuation code 3 := by
  have hcode : (Char.ofNat code).toNat = code := toNat_char (by right; omega)
  have hfirst : code / 262144 % 8 = code / 262144 := by omega
  simp only [String.utf8EncodeChar, Char.toNat_val, hcode]
  rw [if_neg (by omega), if_neg (by omega), if_neg (by omega), hfirst]
  simp only [continuation, Nat.pow_zero, Nat.pow_one, Nat.div_one, Nat.add_comm, Nat.reducePow]

/-! ## The first byte -/

namespace Unfinished

/-- The code points that an unfinished character can turn out to be. -/
structure Admits (unfinished : Unfinished) (code : Nat) : Prop where
  bits : code / 64 ^ (unfinished.further + 1) = unfinished.bits
  low : unfinished.low.toNat ≤ 0x80 + code / 64 ^ unfinished.further % 64
  high : 0x80 + code / 64 ^ unfinished.further % 64 ≤ unfinished.high.toNat

/-- The table of first bytes, in numbers. -/
theorem ofFirst?_eq (byte : UInt8) :
    ofFirst? byte =
      if 0xC2 ≤ byte.toNat ∧ byte.toNat ≤ 0xDF then some ⟨0x80, 0xBF, 0, byte.toNat - 0xC0⟩
      else if byte.toNat = 0xE0 then some ⟨0xA0, 0xBF, 1, 0x0⟩
      else if byte.toNat = 0xED then some ⟨0x80, 0x9F, 1, 0xD⟩
      else if 0xE1 ≤ byte.toNat ∧ byte.toNat ≤ 0xEF then some ⟨0x80, 0xBF, 1, byte.toNat - 0xE0⟩
      else if byte.toNat = 0xF0 then some ⟨0x90, 0xBF, 2, 0x0⟩
      else if byte.toNat = 0xF4 then some ⟨0x80, 0x8F, 2, 0x4⟩
      else if 0xF1 ≤ byte.toNat ∧ byte.toNat ≤ 0xF3 then some ⟨0x80, 0xBF, 2, byte.toNat - 0xF0⟩
      else none := by
  simp only [ofFirst?, UInt8.le_iff_toNat_le, ← UInt8.toNat_inj]
  rfl

theorem le_of_ofFirst? {byte : UInt8} {unfinished : Unfinished}
    (h : ofFirst? byte = some unfinished) : 0x80 ≤ byte.toNat := by
  rw [ofFirst?_eq] at h
  split_ifs at h <;> omega

/-- The bytes that may come second are those that continue a character. -/
theorem bounds_of_ofFirst? {byte : UInt8} {unfinished : Unfinished}
    (h : ofFirst? byte = some unfinished) :
    0x80 ≤ unfinished.low.toNat ∧ unfinished.high.toNat ≤ 0xBF := by
  rw [ofFirst?_eq] at h
  split_ifs at h <;> cases h <;> simp

/-- Whatever an unfinished character turns out to be, the byte read is its first one. -/
theorem encodeChar_of_ofFirst? {byte : UInt8} {unfinished : Unfinished} {code : Nat}
    (h : ofFirst? byte = some unfinished) (hadmits : unfinished.Admits code) :
    String.utf8EncodeChar (Char.ofNat code) =
      byte :: continuation code (unfinished.further + 1) := by
  obtain ⟨hbits, hlow, hhigh⟩ := hadmits
  have hbyte : UInt8.ofNat byte.toNat = byte := UInt8.ofNat_toNat
  -- One case for each row of the table. What it asks of the second byte bounds the code point, so
  -- that no shorter form exists and no surrogate is met.
  rw [ofFirst?_eq] at h
  split_ifs at h with hC2 hE0 hED hE1 hF0 hF4 hF1 <;> cases h <;>
    simp only [UInt8.reduceToNat, Nat.reduceAdd, Nat.reducePow, Nat.pow_zero, Nat.pow_one,
      Nat.div_one] at hbits hlow hhigh
  · have hfirst : 0xC0 + code / 64 = byte.toNat := by omega
    rw [encodeChar_two (by omega) (by omega), hfirst, hbyte]
  · have hfirst : 0xE0 + code / 64 ^ 2 = byte.toNat := by omega
    rw [encodeChar_three (by omega) (by omega) (by left; omega), hfirst, hbyte]
  · have hfirst : 0xE0 + code / 64 ^ 2 = byte.toNat := by omega
    rw [encodeChar_three (by omega) (by omega) (by left; omega), hfirst, hbyte]
  · have hfirst : 0xE0 + code / 64 ^ 2 = byte.toNat := by omega
    have hvalid : code.isValidChar := by
      rw [Nat.isValidChar]
      omega
    rw [encodeChar_three (by omega) (by omega) hvalid, hfirst, hbyte]
  all_goals
    have hfirst : 0xF0 + code / 64 ^ 3 = byte.toNat := by omega
    rw [encodeChar_four (by omega) (by omega), hfirst, hbyte]

theorem exists_byte {value : Nat} (h : value < 256) : ∃ byte : UInt8, byte.toNat = value :=
  ⟨UInt8.ofNat value, UInt8.toNat_ofNat_of_lt' h⟩

/-- Every long character has a first byte that promises it. -/
theorem exists_ofFirst? {c : Char} (h : 0x80 ≤ c.toNat) :
    ∃ byte unfinished, ofFirst? byte = some unfinished ∧ unfinished.Admits c.toNat := by
  have hvalid : c.toNat < 0xD800 ∨ 0xDFFF < c.toNat ∧ c.toNat < 0x110000 := c.valid
  generalize c.toNat = code at h hvalid
  obtain htwo | ⟨hthree, hthree'⟩ | hfour :
      code < 0x800 ∨ (0x800 ≤ code ∧ code < 0x10000) ∨ 0x10000 ≤ code := by omega
  · obtain ⟨byte, hbyte⟩ := exists_byte (show 0xC0 + code / 64 < 256 by omega)
    refine ⟨byte, ?_⟩
    rw [ofFirst?_eq, hbyte, if_pos (by omega)]
    exact ⟨_, rfl, by simp, by simp, by simp; omega⟩
  · obtain ⟨byte, hbyte⟩ := exists_byte (show 0xE0 + code / 64 ^ 2 < 256 by omega)
    refine ⟨byte, ?_⟩
    rw [ofFirst?_eq, hbyte]
    -- The rows for other lengths contradict the size of the code point.
    split_ifs <;> first | omega | refine ⟨_, rfl, ?_, ?_, ?_⟩ <;> simp <;> omega
  · obtain ⟨byte, hbyte⟩ := exists_byte (show 0xF0 + code / 64 ^ 3 < 256 by omega)
    refine ⟨byte, ?_⟩
    rw [ofFirst?_eq, hbyte]
    split_ifs <;> first | omega | refine ⟨_, rfl, ?_, ?_, ?_⟩ <;> simp <;> omega

end Unfinished

/-- A long character is a first byte and those that it promises. -/
theorem encodeChar_eq_cons {c : Char} (h : 0x80 ≤ c.toNat) :
    ∃ byte unfinished, Unfinished.ofFirst? byte = some unfinished ∧
      unfinished.Admits c.toNat ∧
      String.utf8EncodeChar c = byte :: continuation c.toNat (unfinished.further + 1) := by
  obtain ⟨byte, unfinished, hfirst, hadmits⟩ := Unfinished.exists_ofFirst? h
  have hencode := Unfinished.encodeChar_of_ofFirst? hfirst hadmits
  rw [Char.ofNat_toNat] at hencode
  exact ⟨byte, unfinished, hfirst, hadmits, hencode⟩

/-! ## Characters of one byte -/

theorem encodeChar_of_lt {c : Char} (h : c.toNat < 0x80) :
    String.utf8EncodeChar c = [UInt8.ofNat c.toNat] := by
  have hencode := encodeChar_one h
  rwa [Char.ofNat_toNat] at hencode

theorem encode_of_forall_lt {chars : List Char} (h : ∀ c ∈ chars, c.toNat < 0x80) :
    encode chars = chars.map fun c => UInt8.ofNat c.toNat := by
  induction chars with
  | nil => rfl
  | cons c chars ih =>
      rw [List.forall_mem_cons] at h
      rw [encode_cons, encodeChar_of_lt h.1, ih h.2]
      rfl

/-- A byte below 0x80 occurs in no other character than the one that it is. -/
theorem toNat_of_mem_encodeChar {c : Char} {byte : UInt8} (h : byte ∈ String.utf8EncodeChar c)
    (hbyte : byte.toNat < 0x80) : c.toNat = byte.toNat := by
  obtain hc | hc := Nat.lt_or_ge c.toNat 0x80
  · rw [encodeChar_of_lt hc, List.mem_singleton] at h
    rw [h, UInt8.toNat_ofNat']
    omega
  · obtain ⟨first, unfinished, hfirst, -, hencode⟩ := encodeChar_eq_cons hc
    rw [hencode, List.mem_cons] at h
    obtain rfl | h := h
    · have hle := Unfinished.le_of_ofFirst? hfirst
      omega
    · have hle := le_of_mem_continuation h
      omega

theorem toNat_ofNat_of_lt {c : Char} (h : c.toNat < 0x80) :
    (UInt8.ofNat c.toNat).toNat = c.toNat := UInt8.toNat_ofNat_of_lt' (show _ < 256 by omega)

theorem eq_of_mem_encodeChar {c d : Char} (h : c.toNat < 0x80)
    (hmem : UInt8.ofNat c.toNat ∈ String.utf8EncodeChar d) : d = c := by
  have hbyte := toNat_ofNat_of_lt h
  have hcode := toNat_of_mem_encodeChar hmem (by rwa [hbyte])
  exact Char.toNat_inj.1 (hcode.trans hbyte)

/-- A character of one byte can be found among the bytes of a text. -/
theorem mem_encode_iff {c : Char} (h : c.toNat < 0x80) (chars : List Char) :
    UInt8.ofNat c.toNat ∈ encode chars ↔ c ∈ chars := by
  rw [encode, List.mem_flatMap]
  constructor
  · rintro ⟨found, hfound, hbyte⟩
    rwa [← eq_of_mem_encodeChar h hbyte]
  · intro hc
    exact ⟨c, hc, by rw [encodeChar_of_lt h, List.mem_singleton]⟩

/-- A character of one byte can be told from the last byte of a text. -/
theorem getLast?_encode_iff {c : Char} (h : c.toNat < 0x80) (chars : List Char) :
    (encode chars).getLast? = some (UInt8.ofNat c.toNat) ↔ chars.getLast? = some c := by
  cases chars using List.reverseRecOn with
  | nil => simp
  | append_singleton before last =>
      have hlast : String.utf8EncodeChar last ≠ [] := String.utf8EncodeChar_ne_nil
      rw [List.getLast?_concat, Option.some_inj, encode_append, encode_cons, encode_nil,
        List.append_nil, List.getLast?_append_of_ne_nil _ hlast]
      constructor
      · intro hbyte
        exact eq_of_mem_encodeChar h (List.mem_of_getLast? hbyte)
      · rintro rfl
        rw [encodeChar_of_lt h, List.getLast?_singleton]

/-! ## Decoding an encoded text -/

namespace Decoder

theorem feed_of_mem {low high byte : UInt8} (hlow : low.toNat ≤ byte.toNat)
    (hhigh : byte.toNat ≤ high.toNat) (chars : List Char) (further bits : Nat) :
    feed ⟨chars, some ⟨low, high, further, bits⟩⟩ byte =
      match further with
      | 0 => ⟨Char.ofNat (bits * 64 + (byte.toNat - 0x80)) :: chars, none⟩
      | further + 1 =>
        ⟨chars, some ⟨0x80, 0xBF, further, bits * 64 + (byte.toNat - 0x80)⟩⟩ := by
  have hmem : low ≤ byte ∧ byte ≤ high := by
    simpa only [UInt8.le_iff_toNat_le] using ⟨hlow, hhigh⟩
  cases further with
  | zero => exact if_pos hmem
  | succ further => exact if_pos hmem

theorem feed_of_not_mem {low high byte : UInt8}
    (h : ¬(low.toNat ≤ byte.toNat ∧ byte.toNat ≤ high.toNat)) (chars : List Char)
    (further bits : Nat) :
    feed ⟨chars, some ⟨low, high, further, bits⟩⟩ byte = first (replacement :: chars) byte := by
  have hmem : ¬(low ≤ byte ∧ byte ≤ high) := by
    simpa only [UInt8.le_iff_toNat_le] using h
  exact if_neg hmem

theorem first_of_lt {byte : UInt8} (h : byte.toNat < 0x80) (chars : List Char) :
    first chars byte = ⟨Char.ofNat byte.toNat :: chars, none⟩ := by
  have hbyte : byte < 0x80 := UInt8.lt_iff_toNat_lt.2 h
  exact if_pos hbyte

theorem first_of_le {byte : UInt8} (h : 0x80 ≤ byte.toNat) (chars : List Char) :
    first chars byte =
      match Unfinished.ofFirst? byte with
      | some unfinished => ⟨chars, some unfinished⟩
      | none => ⟨replacement :: chars, none⟩ := by
  have hbyte : ¬byte < 0x80 := fun hlt => Nat.not_lt.2 h (UInt8.lt_iff_toNat_lt.1 hlt)
  exact if_neg hbyte

/-- The byte that an admitted character has next is read as its next six bits. -/
theorem feed_admitted {low high : UInt8} {further bits code : Nat} (chars : List Char)
    (h : Unfinished.Admits ⟨low, high, further, bits⟩ code) :
    feed ⟨chars, some ⟨low, high, further, bits⟩⟩
        (UInt8.ofNat (0x80 + code / 64 ^ further % 64)) =
      match further with
      | 0 => ⟨Char.ofNat code :: chars, none⟩
      | further + 1 => ⟨chars, some ⟨0x80, 0xBF, further, code / 64 ^ (further + 1)⟩⟩ := by
  obtain ⟨hbits, hlow, hhigh⟩ := h
  dsimp only at hbits hlow hhigh
  have hbyte : (UInt8.ofNat (0x80 + code / 64 ^ further % 64)).toNat =
      0x80 + code / 64 ^ further % 64 := UInt8.toNat_ofNat_of_lt' (show _ < 256 by omega)
  have hcode : bits * 64 + (0x80 + code / 64 ^ further % 64 - 0x80) = code / 64 ^ further := by
    rw [Nat.pow_succ, ← Nat.div_div_eq_div_mul] at hbits
    omega
  rw [feed_of_mem (by rwa [hbyte]) (by rwa [hbyte]), hbyte, hcode]
  cases further with
  | zero => rw [Nat.pow_zero, Nat.div_one]
  | succ further => rfl

/-- The bytes that are promised complete the character. -/
theorem feed_continuation {low high : UInt8} {further bits code : Nat} (chars : List Char)
    (h : Unfinished.Admits ⟨low, high, further, bits⟩ code) :
    (continuation code (further + 1)).foldl feed ⟨chars, some ⟨low, high, further, bits⟩⟩ =
      ⟨Char.ofNat code :: chars, none⟩ := by
  induction further generalizing low high bits with
  | zero =>
      rw [continuation, List.foldl_cons, feed_admitted chars h]
      rfl
  | succ further ih =>
      rw [continuation, List.foldl_cons, feed_admitted chars h]
      exact ih ⟨rfl, by simp, by simp; omega⟩

theorem foldl_feed_encodeChar (chars : List Char) (c : Char) :
    (String.utf8EncodeChar c).foldl feed ⟨chars, none⟩ = ⟨c :: chars, none⟩ := by
  obtain hc | hc := Nat.lt_or_ge c.toNat 0x80
  · have hbyte := toNat_ofNat_of_lt hc
    rw [encodeChar_of_lt hc]
    change first chars (UInt8.ofNat c.toNat) = _
    rw [first_of_lt (by rwa [hbyte]), hbyte, Char.ofNat_toNat]
  · obtain ⟨byte, unfinished, hfirst, hadmits, hencode⟩ := encodeChar_eq_cons hc
    rw [hencode, List.foldl_cons]
    change List.foldl feed (first chars byte) _ = _
    rw [first_of_le (Unfinished.le_of_ofFirst? hfirst), hfirst]
    exact (feed_continuation chars hadmits).trans (by rw [Char.ofNat_toNat])

theorem foldl_feed_encode (chars read : List Char) :
    (encode chars).foldl feed ⟨read, none⟩ = ⟨chars.reverse ++ read, none⟩ := by
  induction chars generalizing read with
  | nil => rfl
  | cons c chars ih =>
      rw [encode_cons, List.foldl_append, foldl_feed_encodeChar, ih, List.reverse_cons,
        List.append_assoc, List.singleton_append]

end Decoder

/-- Decoding gives back the text that was encoded. -/
theorem decode_encode (chars : List Char) : decode (encode chars) = chars := by
  rw [decode, Decoder.start, Decoder.foldl_feed_encode, List.append_nil, Decoder.finish,
    List.reverse_reverse]

/-! ## Decoding any bytes -/

/-- How characters come out of bytes, from left to right: each stands for the bytes that encode
it, and a replacement may stand for any bytes. -/
inductive Spells : List Char → List UInt8 → Prop
  | nil : Spells [] []
  | encoded {chars : List Char} {bytes : List UInt8} (c : Char) (before : Spells chars bytes) :
      Spells (chars ++ [c]) (bytes ++ String.utf8EncodeChar c)
  | replaced {chars : List Char} {bytes : List UInt8} (faulty : List UInt8)
      (before : Spells chars bytes) : Spells (chars ++ [replacement]) (bytes ++ faulty)

/-- The bytes read so far begin every character that the unfinished one can turn out to be. -/
structure Unfinished.Begins (unfinished : Unfinished) (begun : List UInt8) : Prop where
  le_low : 0x80 ≤ unfinished.low.toNat
  high_le : unfinished.high.toNat ≤ 0xBF
  encodes : ∀ code, unfinished.Admits code →
    String.utf8EncodeChar (Char.ofNat code) = begun ++ continuation code (unfinished.further + 1)

/-- What a decoder knows of the bytes that it has read. -/
inductive Decoder.HasRead : Decoder → List UInt8 → Prop
  | between {chars : List Char} {bytes : List UInt8} (spells : Spells chars.reverse bytes) :
      HasRead ⟨chars, none⟩ bytes
  | within {chars : List Char} {bytes begun : List UInt8} {unfinished : Unfinished}
      (spells : Spells chars.reverse bytes) (begins : unfinished.Begins begun) :
      HasRead ⟨chars, some unfinished⟩ (bytes ++ begun)

theorem Unfinished.begins_of_ofFirst? {byte : UInt8} {unfinished : Unfinished}
    (h : ofFirst? byte = some unfinished) : unfinished.Begins [byte] where
  le_low := (bounds_of_ofFirst? h).1
  high_le := (bounds_of_ofFirst? h).2
  encodes _ hadmits := encodeChar_of_ofFirst? h hadmits

namespace Unfinished.Begins

variable {low high byte : UInt8} {bits : Nat} {begun : List UInt8}

/-- A code point is determined by the bits read before and a byte that may come next. -/
theorem admits {further code : Nat} (h : Begins ⟨low, high, further, bits⟩ begun)
    (hlow : low.toNat ≤ byte.toNat) (hhigh : byte.toNat ≤ high.toNat)
    (hcode : code / 64 ^ further = bits * 64 + (byte.toNat - 0x80)) :
    Admits ⟨low, high, further, bits⟩ code ∧
      UInt8.ofNat (0x80 + code / 64 ^ further % 64) = byte := by
  obtain ⟨hle, hge, -⟩ := h
  dsimp only at hle hge
  have hnext : 0x80 + code / 64 ^ further % 64 = byte.toNat := by omega
  refine ⟨⟨?_, ?_, ?_⟩, ?_⟩
  · rw [Nat.pow_succ, ← Nat.div_div_eq_div_mul, hcode]
    dsimp only
    omega
  · rwa [hnext]
  · rwa [hnext]
  · rw [hnext, UInt8.ofNat_toNat]

theorem encodeChar_of_last (h : Begins ⟨low, high, 0, bits⟩ begun)
    (hlow : low.toNat ≤ byte.toNat) (hhigh : byte.toNat ≤ high.toNat) :
    String.utf8EncodeChar (Char.ofNat (bits * 64 + (byte.toNat - 0x80))) = begun ++ [byte] := by
  have hcode : (bits * 64 + (byte.toNat - 0x80)) / 64 ^ 0 = bits * 64 + (byte.toNat - 0x80) := by
    rw [Nat.pow_zero, Nat.div_one]
  obtain ⟨hadmits, hbyte⟩ := h.admits hlow hhigh hcode
  rw [h.encodes _ hadmits, continuation, hbyte, continuation]

theorem next {further : Nat} (h : Begins ⟨low, high, further + 1, bits⟩ begun)
    (hlow : low.toNat ≤ byte.toNat) (hhigh : byte.toNat ≤ high.toNat) :
    Begins ⟨0x80, 0xBF, further, bits * 64 + (byte.toNat - 0x80)⟩ (begun ++ [byte]) := by
  refine ⟨Nat.le_refl _, Nat.le_refl _, fun code hcode => ?_⟩
  obtain ⟨hadmits, hbyte⟩ := h.admits hlow hhigh hcode.bits
  rw [h.encodes code hadmits, continuation, hbyte, List.append_assoc, List.singleton_append]

end Unfinished.Begins

namespace Decoder

variable {chars : List Char} {bytes : List UInt8}

theorem HasRead.first (h : Spells chars.reverse bytes) (byte : UInt8) :
    HasRead (first chars byte) (bytes ++ [byte]) := by
  obtain hbyte | hbyte := Nat.lt_or_ge byte.toNat 0x80
  · rw [first_of_lt hbyte]
    refine .between ?_
    have hencode := encodeChar_one hbyte
    rw [UInt8.ofNat_toNat] at hencode
    rw [List.reverse_cons, ← hencode]
    exact .encoded _ h
  · rw [first_of_le hbyte]
    cases hfirst : Unfinished.ofFirst? byte with
    | some unfinished => exact .within h (Unfinished.begins_of_ofFirst? hfirst)
    | none =>
        refine .between ?_
        rw [List.reverse_cons]
        exact .replaced [byte] h

theorem HasRead.feed {decoder : Decoder} (h : HasRead decoder bytes) (byte : UInt8) :
    HasRead (feed decoder byte) (bytes ++ [byte]) := by
  cases h with
  | between spells => exact .first spells byte
  | @within chars bytes begun unfinished spells begins =>
      obtain ⟨low, high, further, bits⟩ := unfinished
      rw [List.append_assoc]
      by_cases hbyte : low.toNat ≤ byte.toNat ∧ byte.toNat ≤ high.toNat
      · rw [feed_of_mem hbyte.1 hbyte.2]
        cases further with
        | zero =>
            refine .between ?_
            rw [List.reverse_cons, ← begins.encodeChar_of_last hbyte.1 hbyte.2]
            exact .encoded _ spells
        | succ further => exact .within spells (begins.next hbyte.1 hbyte.2)
      · -- The bytes begun become a replacement, and the byte read starts anew.
        rw [feed_of_not_mem hbyte, ← List.append_assoc]
        refine .first ?_ byte
        rw [List.reverse_cons]
        exact .replaced begun spells

theorem HasRead.foldl_feed {decoder : Decoder} {read : List UInt8} (h : HasRead decoder read)
    (bytes : List UInt8) : HasRead (bytes.foldl Decoder.feed decoder) (read ++ bytes) := by
  induction bytes generalizing decoder read with
  | nil => rwa [List.append_nil]
  | cons byte bytes ih =>
      have hnext := ih (h.feed byte)
      rwa [List.append_assoc, List.singleton_append] at hnext

theorem HasRead.finish {decoder : Decoder} (h : HasRead decoder bytes) :
    Spells decoder.finish bytes := by
  cases h with
  | between spells => exact spells
  | @within chars bytes begun unfinished spells begins =>
      rw [Decoder.finish, List.reverse_cons]
      exact .replaced begun spells

end Decoder

/-- The characters that are decoded stand for the bytes, and each that is no replacement stands
for the bytes that encode it. -/
theorem decode_spells (bytes : List UInt8) : Spells (decode bytes) bytes := by
  have hstart : Decoder.start.HasRead [] := .between .nil
  exact (hstart.foldl_feed bytes).finish

theorem Spells.eq_encode {chars : List Char} {bytes : List UInt8} (h : Spells chars bytes)
    (hreplaced : replacement ∉ chars) : bytes = encode chars := by
  induction h with
  | nil => rfl
  | encoded c before ih =>
      rw [List.mem_append, not_or] at hreplaced
      rw [ih hreplaced.1, encode_append, encode_cons, encode_nil, List.append_nil]
  | replaced faulty before ih => simp at hreplaced

theorem Spells.encodeChar_subset {chars : List Char} {bytes : List UInt8}
    (h : Spells chars bytes) {c : Char} (hc : c ∈ chars) (hreplaced : c ≠ replacement) :
    String.utf8EncodeChar c ⊆ bytes := by
  induction h with
  | nil => cases hc
  | encoded last before ih =>
      rw [List.mem_append, List.mem_singleton] at hc
      obtain hc | rfl := hc
      · exact List.subset_append_of_subset_left _ (ih hc)
      · exact List.subset_append_right _ _
  | replaced faulty before ih =>
      rw [List.mem_append, List.mem_singleton] at hc
      obtain hc | rfl := hc
      · exact List.subset_append_of_subset_left _ (ih hc)
      · exact absurd rfl hreplaced

/-- A character of one byte is decoded only where that byte is read. -/
theorem ofNat_mem_of_mem_decode {c : Char} {bytes : List UInt8} (h : c.toNat < 0x80)
    (hc : c ∈ decode bytes) : UInt8.ofNat c.toNat ∈ bytes := by
  have hreplaced : c ≠ replacement := by
    rintro rfl
    exact absurd h (by decide)
  refine (decode_spells bytes).encodeChar_subset hc hreplaced ?_
  rw [encodeChar_of_lt h, List.mem_singleton]

/-- Bytes that are decoded without a replacement encode what was decoded. -/
theorem encode_decode {bytes : List UInt8} (h : replacement ∉ decode bytes) :
    encode (decode bytes) = bytes :=
  ((decode_spells bytes).eq_encode h).symm

end Backref.Text.Utf8
