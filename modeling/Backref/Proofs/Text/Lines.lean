import Backref.Proofs.Text.Utf8
import Backref.Text.Lines

/-!
# Lines that were written are read back

A reader may deliver the bytes of an input in any pieces and be interrupted between them; what is
gathered is the same (`gather_of_delivers`). Cutting the bytes after a line feed cuts no line
(`splitLines_append`). So lines that were written, each with either end, are read back as they
were.
-/

namespace Backref.Text

/-! ## Cutting bytes into lines -/

@[simp] theorem splitLines_nil : splitLines [] = [] := rfl

@[simp] theorem splitLines_cons (byte : UInt8) (bytes : List UInt8) :
    splitLines (byte :: bytes) = consByte byte (splitLines bytes) := rfl

theorem consByte_lineFeed (lines : List (List UInt8)) :
    consByte lineFeed lines = [] :: lines := rfl

theorem consByte_nil {byte : UInt8} (h : byte ≠ lineFeed) : consByte byte [] = [[byte]] := by
  simp [consByte, h]

theorem consByte_cons {byte : UInt8} (h : byte ≠ lineFeed) (line : List UInt8)
    (lines : List (List UInt8)) : consByte byte (line :: lines) = (byte :: line) :: lines := by
  simp [consByte, h]

/-- A byte goes to the first line, whatever lines follow it. -/
theorem consByte_append {lines : List (List UInt8)} (h : lines ≠ []) (byte : UInt8)
    (rest : List (List UInt8)) :
    consByte byte (lines ++ rest) = consByte byte lines ++ rest := by
  obtain ⟨line, lines, rfl⟩ := List.exists_cons_of_ne_nil h
  by_cases hbyte : byte = lineFeed <;> simp [consByte, hbyte]

theorem splitLines_ne_nil {bytes : List UInt8} (h : bytes ≠ []) : splitLines bytes ≠ [] := by
  obtain ⟨byte, bytes, rfl⟩ := List.exists_cons_of_ne_nil h
  rw [splitLines_cons]
  by_cases hbyte : byte = lineFeed
  · rw [hbyte, consByte_lineFeed]
    nofun
  · cases splitLines bytes with
    | nil =>
        rw [consByte_nil hbyte]
        nofun
    | cons line lines =>
        rw [consByte_cons hbyte]
        nofun

/-- Bytes without a line feed are one line, and a line feed ends it. -/
theorem splitLines_line {line : List UInt8} (h : lineFeed ∉ line) (rest : List UInt8) :
    splitLines (line ++ lineFeed :: rest) = line :: splitLines rest := by
  induction line with
  | nil => rfl
  | cons byte line ih =>
      rw [List.mem_cons, not_or] at h
      rw [List.cons_append, splitLines_cons, ih h.2, consByte_cons (Ne.symm h.1)]

/-- The end of the last line may be missing. -/
theorem splitLines_last {line : List UInt8} (h : lineFeed ∉ line) (hne : line ≠ []) :
    splitLines line = [line] := by
  induction line with
  | nil => exact absurd rfl hne
  | cons byte line ih =>
      rw [List.mem_cons, not_or] at h
      cases line with
      | nil => rw [splitLines_cons, splitLines_nil, consByte_nil (Ne.symm h.1)]
      | cons next line =>
          rw [splitLines_cons, ih h.2 (by nofun), consByte_cons (Ne.symm h.1)]

theorem lineFeed_not_mem_of_mem_splitLines {line bytes : List UInt8}
    (h : line ∈ splitLines bytes) : lineFeed ∉ line := by
  induction bytes generalizing line with
  | nil => cases h
  | cons byte bytes ih =>
      rw [splitLines_cons] at h
      by_cases hbyte : byte = lineFeed
      · rw [hbyte, consByte_lineFeed, List.mem_cons] at h
        obtain rfl | h := h
        · nofun
        · exact ih h
      · cases hlines : splitLines bytes with
        | nil =>
            rw [hlines, consByte_nil hbyte, List.mem_singleton] at h
            rwa [h, List.mem_singleton, eq_comm]
        | cons first lines =>
            rw [hlines] at h ih
            rw [consByte_cons hbyte, List.mem_cons] at h
            obtain rfl | h := h
            · rw [List.mem_cons, not_or, eq_comm]
              exact ⟨hbyte, ih List.mem_cons_self⟩
            · exact ih (List.mem_cons_of_mem _ h)

/-- Whether bytes stop where a line begins. -/
def EndsLine (bytes : List UInt8) : Prop := bytes = [] ∨ bytes.getLast? = some lineFeed

/-- No line is cut where another one begins. -/
theorem splitLines_append {bytes : List UInt8} (h : EndsLine bytes) (rest : List UInt8) :
    splitLines (bytes ++ rest) = splitLines bytes ++ splitLines rest := by
  induction bytes with
  | nil => rfl
  | cons byte bytes ih =>
      cases bytes with
      | nil =>
          obtain rfl : byte = lineFeed := by simpa [EndsLine] using h
          rfl
      | cons next bytes =>
          -- The first line of what follows takes the byte, and it is there without the rest.
          have hends : EndsLine (next :: bytes) := by simpa [EndsLine] using h
          have hlines : splitLines (next :: bytes) ≠ [] := splitLines_ne_nil (by nofun)
          rw [List.cons_append, splitLines_cons, ih hends, consByte_append hlines]
          rfl

/-! ## Reading in pieces -/

/-- What a reader delivers until the input ends: pieces that are not empty, with interruptions
between them. -/
inductive Delivers : List Chunk → List UInt8 → Prop
  | nothing : Delivers [] []
  | ended (chunks : List Chunk) : Delivers (.bytes [] :: chunks) []
  | bytes {content : List UInt8} {chunks : List Chunk} {rest : List UInt8} (hne : content ≠ [])
      (after : Delivers chunks rest) : Delivers (.bytes content :: chunks) (content ++ rest)
  | interrupted {chunks : List Chunk} {rest : List UInt8} (after : Delivers chunks rest) :
      Delivers (.interrupted :: chunks) rest

/-- The pieces are put together again. -/
theorem gather_of_delivers {chunks : List Chunk} {bytes : List UInt8}
    (h : Delivers chunks bytes) : gather chunks = .ok bytes := by
  induction h with
  | nothing => rfl
  | ended => rfl
  | @bytes content _ _ hne _ ih =>
      obtain ⟨byte, content, rfl⟩ := List.exists_cons_of_ne_nil hne
      rw [gather, ih]
      · rfl
      · nofun
  | interrupted _ ih => rw [gather, ih]

/-! ## The text of a line -/

/-- The bytes of a text. -/
def utf8 (text : String) : List UInt8 := text.toUTF8.data.toList

theorem utf8_append (text rest : String) : utf8 (text ++ rest) = utf8 text ++ utf8 rest := by
  simp only [utf8, ← Utf8.encode_toList, String.toList_append, Utf8.encode_append]

theorem lineFeed_mem_utf8_iff (text : String) : lineFeed ∈ utf8 text ↔ '\n' ∈ text.toList := by
  rw [utf8, ← Utf8.encode_toList]
  exact Utf8.mem_encode_iff (show '\n'.toNat < 0x80 by decide) _

theorem getLast?_utf8_iff (text : String) :
    (utf8 text).getLast? = some carriageReturn ↔ text.toList.getLast? = some '\r' := by
  rw [utf8, ← Utf8.encode_toList]
  exact Utf8.getLast?_encode_iff (show '\r'.toNat < 0x80 by decide) _

theorem decode_utf8 (text : String) : String.ofList (Utf8.decode (utf8 text)) = text := by
  rw [utf8, ← Utf8.encode_toList, Utf8.decode_encode, String.ofList_toList]

theorem dropReturn_append (line : List UInt8) : dropReturn (line ++ [carriageReturn]) = line := by
  rw [dropReturn, if_pos (List.getLast?_concat ..), List.dropLast_concat]

theorem dropReturn_of_getLast? {line : List UInt8} (h : line.getLast? ≠ some carriageReturn) :
    dropReturn line = line := if_neg h

/-- At most one carriage return is dropped. -/
theorem eq_dropReturn_or (line : List UInt8) :
    line = dropReturn line ∨ line = dropReturn line ++ [carriageReturn] := by
  by_cases h : line.getLast? = some carriageReturn
  · obtain ⟨before, rfl⟩ := List.getLast?_eq_some_iff.1 h
    rw [dropReturn_append]
    exact .inr rfl
  · rw [dropReturn_of_getLast? h]
    exact .inl rfl

theorem mem_of_mem_dropReturn {line : List UInt8} {byte : UInt8} (h : byte ∈ dropReturn line) :
    byte ∈ line := by
  obtain heq | heq := eq_dropReturn_or line
  · rwa [heq]
  · rw [heq]
    exact List.mem_append_left _ h

theorem decodeLine_utf8 {text : String} (h : text.toList.getLast? ≠ some '\r') :
    decodeLine (utf8 text) = text := by
  have hlast : (utf8 text).getLast? ≠ some carriageReturn := mt (getLast?_utf8_iff text).1 h
  rw [decodeLine, dropReturn_of_getLast? hlast, decode_utf8]

theorem decodeLine_utf8_append (text : String) :
    decodeLine (utf8 text ++ [carriageReturn]) = text := by
  rw [decodeLine, dropReturn_append, decode_utf8]

/-! ## Writing lines -/

/-- The ways to write the end of a line. -/
inductive LineEnd
  | feed
  | returnFeed
  deriving DecidableEq, Repr

/-- The bytes of the end of a line. -/
def LineEnd.bytes : LineEnd → List UInt8
  | feed => [lineFeed]
  | returnFeed => [carriageReturn, lineFeed]

/-- The ways to write texts as lines. A text holds no line feed. Where it ends with a carriage
return, the end of its line begins with another one. The end of the last line may be left out where
the text is not empty and does not end with a carriage return. -/
inductive Writes : List String → List UInt8 → Prop
  | nothing : Writes [] []
  | unended {text : String} (noFeed : '\n' ∉ text.toList)
      (noReturn : text.toList.getLast? ≠ some '\r') (hne : text ≠ "") : Writes [text] (utf8 text)
  | line {text : String} {texts : List String} {bytes : List UInt8} (ending : LineEnd)
      (noFeed : '\n' ∉ text.toList)
      (noReturn : ending = .feed → text.toList.getLast? ≠ some '\r')
      (after : Writes texts bytes) : Writes (text :: texts) (utf8 text ++ ending.bytes ++ bytes)

/-- A written line is read as the first one. -/
theorem lines_line {text : String} {ending : LineEnd} (noFeed : '\n' ∉ text.toList)
    (noReturn : ending = .feed → text.toList.getLast? ≠ some '\r') (rest : List UInt8) :
    lines (utf8 text ++ ending.bytes ++ rest) = text :: lines rest := by
  have hfeed : lineFeed ∉ utf8 text := mt (lineFeed_mem_utf8_iff text).1 noFeed
  cases ending with
  | feed =>
      have hsplit := splitLines_line hfeed rest
      rw [LineEnd.bytes, List.append_assoc, List.singleton_append, lines, hsplit, List.map_cons,
        decodeLine_utf8 (noReturn rfl), lines]
  | returnFeed =>
      -- Both characters of the end belong to the line until it is decoded.
      have hreturn : lineFeed ∉ utf8 text ++ [carriageReturn] := by
        rw [List.mem_append, not_or]
        exact ⟨hfeed, by decide⟩
      have hsplit := splitLines_line hreturn rest
      have hbytes : utf8 text ++ LineEnd.returnFeed.bytes ++ rest =
          utf8 text ++ [carriageReturn] ++ lineFeed :: rest := by simp [LineEnd.bytes]
      rw [hbytes, lines, hsplit, List.map_cons, decodeLine_utf8_append, lines]

theorem lines_of_writes {texts : List String} {bytes : List UInt8} (h : Writes texts bytes) :
    lines bytes = texts := by
  induction h with
  | nothing => rfl
  | @unended text noFeed noReturn hne =>
      have hfeed : lineFeed ∉ utf8 text := mt (lineFeed_mem_utf8_iff text).1 noFeed
      have hbytes : utf8 text ≠ [] := by
        intro hnil
        have htext := decode_utf8 text
        rw [hnil] at htext
        exact hne htext.symm
      rw [lines, splitLines_last hfeed hbytes, List.map_singleton, decodeLine_utf8 noReturn]
  | line ending noFeed noReturn after ih => rw [lines_line noFeed noReturn, ih]

/-- Lines that were written in any of the ways are read back as they were, in whatever pieces the
reader delivers the bytes. -/
theorem lines_gather {texts : List String} {bytes : List UInt8} {chunks : List Chunk}
    (hwrites : Writes texts bytes) (hdelivers : Delivers chunks bytes) :
    (gather chunks).map lines = .ok texts := by
  rw [gather_of_delivers hdelivers, Except.map, lines_of_writes hwrites]

/-- The end of the first line and the last character are each delivered in two pieces. The first
text ends with a carriage return, the second one is empty, and the last line is not ended. -/
theorem lines_gather_pieces :
    ∃ bytes, Writes ["a\r", "", "é"] bytes ∧
      Delivers [.bytes [97, 13], .interrupted, .bytes [13], .bytes [10, 10, 0xC3], .bytes [0xA9],
        .bytes []] bytes ∧
      (gather [.bytes [97, 13], .interrupted, .bytes [13], .bytes [10, 10, 0xC3], .bytes [0xA9],
        .bytes []]).map lines = .ok ["a\r", "", "é"] := by
  have hwrites : Writes ["a\r", "", "é"] [97, 13, 13, 10, 10, 0xC3, 0xA9] :=
    .line .returnFeed (by decide) nofun
      (.line .feed (by decide) (by decide) (.unended (by decide) (by decide) (by decide)))
  have hdelivers : Delivers [.bytes [97, 13], .interrupted, .bytes [13], .bytes [10, 10, 0xC3],
      .bytes [0xA9], .bytes []] [97, 13, 13, 10, 10, 0xC3, 0xA9] :=
    .bytes (by nofun) (.interrupted (.bytes (by nofun) (.bytes (by nofun) (.bytes (by nofun)
      (.ended [])))))
  exact ⟨_, hwrites, hdelivers, lines_gather hwrites hdelivers⟩

end Backref.Text
