import Backref.Proofs.CommandLine.Report

/-!
# Accepted lines are byte-exact

Decoding maps many byte strings to one text, but only one to a text that is accepted: the bytes of
its characters, which all are ASCII characters (`isAscii_of_validate`). So an input line is reported
correct only for the very pattern that its bytes spell.
-/

namespace Backref.CommandLine

/-- The bytes are the ASCII codes of the characters of a text. -/
def IsAscii (bytes : List UInt8) (text : String) : Prop :=
  bytes.map UInt8.toNat = text.toList.map Char.toNat ∧ ∀ c ∈ text.toList, c.toNat < 128

/-- ASCII is a part of UTF-8. -/
theorem isAscii_iff {bytes : List UInt8} {text : String} :
    IsAscii bytes text ↔ Text.utf8 text = bytes ∧ ∀ c ∈ text.toList, c.toNat < 128 := by
  rw [IsAscii, and_congr_left_iff]
  intro hascii
  have hcodes : (Text.utf8 text).map UInt8.toNat = text.toList.map Char.toNat := by
    rw [Text.utf8, ← Text.Utf8.encode_toList, Text.Utf8.encode_of_forall_lt hascii, List.map_map]
    exact List.map_congr_left fun c hc => Text.Utf8.toNat_ofNat_of_lt (hascii c hc)
  rw [← hcodes, eq_comm]
  exact List.map_injective_iff.2 (fun _ _ => UInt8.toNat_inj.1) |>.eq_iff

section Decoding

variable {config : Config} {line : List UInt8} {text : String} {pattern : Pattern}

/-- A line whose text is accepted spells that text. -/
theorem isAscii_of_validate (h : config.validate (Text.decodeLine line) = .ok pattern) :
    IsAscii (Text.dropReturn line) (Text.decodeLine line) := by
  have hparse := (Config.parse_of_validate h).1
  have hcontains : ∀ c ∈ (Text.decodeLine line).toList, Alphabet.contains c :=
    fun c hc => Pattern.contains_of_parse hparse hc
  -- The alphabet has no replacement character, so no part of the line was ill-formed.
  have hreplaced : Text.Utf8.replacement ∉ (Text.decodeLine line).toList :=
    fun hmem => absurd (hcontains _ hmem) (by decide)
  rw [Text.decodeLine, String.toList_ofList] at hreplaced
  refine isAscii_iff.2 ⟨?_, fun c hc => Alphabet.toNat_lt_of_contains (hcontains c hc)⟩
  rw [Text.utf8, ← Text.Utf8.encode_toList, Text.decodeLine, String.toList_ofList,
    Text.Utf8.encode_decode hreplaced]

theorem decodeLine_of_isAscii (h : IsAscii (Text.dropReturn line) text) :
    Text.decodeLine line = text := by
  rw [Text.decodeLine, ← (isAscii_iff.1 h).1, Text.decode_utf8]

theorem exists_validate_decodeLine_iff :
    (∃ pattern, config.validate (Text.decodeLine line) = .ok pattern) ↔
      ∃ text pattern, IsAscii (Text.dropReturn line) text ∧ config.validate text = .ok pattern := by
  constructor
  · rintro ⟨pattern, haccepted⟩
    exact ⟨_, pattern, isAscii_of_validate haccepted, haccepted⟩
  · rintro ⟨text, pattern, hascii, haccepted⟩
    rw [decodeLine_of_isAscii hascii]
    exact ⟨pattern, haccepted⟩

end Decoding

/-! ## The report on one line -/

/-- The output begins with the report that a pattern is correct. -/
def SaysCorrect (output : String) : Prop := "Correct regex: ".toList <+: output.toList

/-- The output begins with the report that a pattern is not correct. -/
def SaysIncorrect (output : String) : Prop := "Incorrect regex: ".toList <+: output.toList

theorem not_saysCorrect_of_saysIncorrect {output : String} (h : SaysIncorrect output) :
    ¬SaysCorrect output := by
  rintro ⟨rest, hrest⟩
  obtain ⟨rest', hrest'⟩ := h
  rw [← hrest'] at hrest
  cases hrest

namespace Options

variable {options : Options} {line : List UInt8}

theorem output_line (options : Options) (hline : Text.lineFeed ∉ line) :
    ∃ rest, options.output (line ++ [Text.lineFeed]) =
      heading options.config (Text.decodeLine line) ++ ("\n" ++ rest) := by
  have hlines : Text.lines (line ++ [Text.lineFeed]) = [Text.decodeLine line] := by
    rw [Text.lines, Text.splitLines_line hline]
    rfl
  rw [output_eq, report, hlines, List.flatMap_singleton, verdict_eq, unlines, List.map_cons,
    String.join_cons, String.append_assoc]
  exact ⟨_, rfl⟩

/-- A line is reported correct, with its text, when that is accepted, and incorrect otherwise. -/
theorem output_line_cases (options : Options) (hline : Text.lineFeed ∉ line) :
    (∃ pattern rest, options.config.validate (Text.decodeLine line) = .ok pattern ∧
      options.output (line ++ [Text.lineFeed]) =
        "Correct regex: " ++ Text.decodeLine line ++ ("\n" ++ rest)) ∨
    (∃ rejection, options.config.validate (Text.decodeLine line) = .error rejection) ∧
      SaysIncorrect (options.output (line ++ [Text.lineFeed])) := by
  obtain ⟨rest, houtput⟩ := options.output_line hline
  rw [heading] at houtput
  cases hvalidate : options.config.validate (Text.decodeLine line) with
  | ok pattern =>
      rw [hvalidate] at houtput
      exact .inl ⟨pattern, rest, rfl, houtput⟩
  | error rejection =>
      rw [hvalidate] at houtput
      refine .inr ⟨⟨rejection, rfl⟩, ?_⟩
      rw [houtput, SaysIncorrect, String.toList_append, String.toList_append, List.append_assoc]
      exact List.prefix_append _ _

theorem saysCorrect_output_iff (hline : Text.lineFeed ∉ line) :
    SaysCorrect (options.output (line ++ [Text.lineFeed])) ↔
      ∃ pattern, options.config.validate (Text.decodeLine line) = .ok pattern := by
  obtain ⟨pattern, rest, haccepted, houtput⟩ | ⟨⟨rejection, hrejected⟩, houtput⟩ :=
    options.output_line_cases hline
  · refine iff_of_true ?_ ⟨pattern, haccepted⟩
    rw [houtput, SaysCorrect, String.toList_append, String.toList_append, List.append_assoc]
    exact List.prefix_append _ _
  · refine iff_of_false (not_saysCorrect_of_saysIncorrect houtput) ?_
    rintro ⟨pattern, haccepted⟩
    rw [hrejected] at haccepted
    cases haccepted

theorem saysIncorrect_output (hline : Text.lineFeed ∉ line)
    (hcorrect : ¬SaysCorrect (options.output (line ++ [Text.lineFeed]))) :
    SaysIncorrect (options.output (line ++ [Text.lineFeed])) := by
  obtain ⟨pattern, _, haccepted, _⟩ | ⟨_, houtput⟩ := options.output_line_cases hline
  · exact absurd ((saysCorrect_output_iff hline).2 ⟨pattern, haccepted⟩) hcorrect
  · exact houtput

/-- The bytes of a line that is reported correct are printed as they were read. -/
theorem prefix_of_saysCorrect (hline : Text.lineFeed ∉ line)
    (hcorrect : SaysCorrect (options.output (line ++ [Text.lineFeed]))) :
    Text.utf8 "Correct regex: " ++ Text.dropReturn line ++ [Text.lineFeed] <+:
      Text.utf8 (options.output (line ++ [Text.lineFeed])) := by
  obtain ⟨pattern, rest, haccepted, houtput⟩ | ⟨_, houtput⟩ := options.output_line_cases hline
  · have hline := (isAscii_iff.1 (isAscii_of_validate haccepted)).1
    have hfeed : Text.utf8 "\n" = [Text.lineFeed] := rfl
    rw [houtput, Text.utf8_append, Text.utf8_append, Text.utf8_append, hline, hfeed,
      ← List.append_assoc]
    exact List.prefix_append _ _
  · exact absurd hcorrect (not_saysCorrect_of_saysIncorrect houtput)

theorem output_between (options : Options) {before : List UInt8} (hbefore : Text.EndsLine before)
    (line after : List UInt8) :
    options.output (before ++ line ++ Text.lineFeed :: after) =
      options.output before ++ options.output (line ++ [Text.lineFeed]) ++
        options.output after := by
  have hends : Text.EndsLine (line ++ [Text.lineFeed]) := .inr (List.getLast?_concat ..)
  have hinput : before ++ line ++ Text.lineFeed :: after =
      before ++ (line ++ [Text.lineFeed] ++ after) := by simp
  rw [hinput, options.output_append hbefore, options.output_append hends, String.append_assoc]

theorem exists_utf8_of_saysCorrect (hline : Text.lineFeed ∉ line)
    (hcorrect : SaysCorrect (options.output (line ++ [Text.lineFeed]))) :
    ∃ text, Text.utf8 text = line := by
  obtain ⟨pattern, haccepted⟩ := (saysCorrect_output_iff hline).1 hcorrect
  have hbytes := (isAscii_iff.1 (isAscii_of_validate haccepted)).1
  obtain heq | heq := Text.eq_dropReturn_or line
  · exact ⟨_, hbytes.trans heq.symm⟩
  · -- The carriage return that was dropped is a character of its own.
    refine ⟨Text.decodeLine line ++ "\r", ?_⟩
    rw [Text.utf8_append, hbytes]
    exact heq.symm

/-- A line whose characters do not all belong to the alphabet is not reported correct. -/
theorem not_saysCorrect_of_not_contains (hline : Text.lineFeed ∉ line) {text : String}
    (htext : Text.utf8 text = Text.dropReturn line) {c : Char} (hc : c ∈ text.toList)
    (hcontains : ¬Alphabet.contains c) :
    ¬SaysCorrect (options.output (line ++ [Text.lineFeed])) := by
  intro hsays
  obtain ⟨pattern, haccepted⟩ := (saysCorrect_output_iff hline).1 hsays
  rw [Text.decodeLine, ← htext, Text.decode_utf8] at haccepted
  exact hcontains (Pattern.contains_of_parse (Config.parse_of_validate haccepted).1 hc)

end Options

/-! ## The command -/

/-- A line, wherever it stands in the input, is reported correct exactly when its bytes, less one
carriage return at their end, are the ASCII codes of a pattern that is accepted; then these bytes
are printed. Any other line is reported incorrect, such as one that is not well-formed UTF-8 and one
that holds a character outside the alphabet. -/
theorem output_line_exact {cores : Nat} {arguments : List String} {options : Options}
    (h : ChecksAlone cores arguments options) {line : List UInt8}
    (hline : Text.lineFeed ∉ line) :
    (∀ before after, Text.EndsLine before →
      output cores arguments (before ++ line ++ Text.lineFeed :: after) =
        output cores arguments before ++ output cores arguments (line ++ [Text.lineFeed]) ++
          output cores arguments after) ∧
    (SaysCorrect (output cores arguments (line ++ [Text.lineFeed])) ↔
      ∃ text pattern, IsAscii (Text.dropReturn line) text ∧
        options.config.validate text = .ok pattern) ∧
    (SaysCorrect (output cores arguments (line ++ [Text.lineFeed])) →
      Text.utf8 "Correct regex: " ++ Text.dropReturn line ++ [Text.lineFeed] <+:
        Text.utf8 (output cores arguments (line ++ [Text.lineFeed]))) ∧
    (¬SaysCorrect (output cores arguments (line ++ [Text.lineFeed])) →
      SaysIncorrect (output cores arguments (line ++ [Text.lineFeed]))) ∧
    ((∀ text, Text.utf8 text ≠ line) →
      ¬SaysCorrect (output cores arguments (line ++ [Text.lineFeed]))) ∧
    ∀ text, Text.utf8 text = Text.dropReturn line → (∃ c ∈ text.toList, ¬Alphabet.contains c) →
      ¬SaysCorrect (output cores arguments (line ++ [Text.lineFeed])) := by
  rw [h.output_eq]
  refine ⟨fun before after hbefore => options.output_between hbefore line after,
    (Options.saysCorrect_output_iff hline).trans exists_validate_decodeLine_iff,
    Options.prefix_of_saysCorrect hline, Options.saysIncorrect_output hline,
    fun hformed hsays => ?_, ?_⟩
  · obtain ⟨text, htext⟩ := Options.exists_utf8_of_saysCorrect hline hsays
    exact hformed text htext
  · rintro text htext ⟨c, hc, hcontains⟩
    exact Options.not_saysCorrect_of_not_contains hline htext hc hcontains

/-- A carriage return is dropped from an accepted line, and a byte that starts no character makes
the same line incorrect. -/
theorem output_line_exact_return :
    ChecksAlone 8 ["--structural", "--workers=1", "-"]
        ⟨.standardInput, ⟨defaultMaxPaths, 1, .structural⟩, false⟩ ∧
      Text.lineFeed ∉ [40, 97, 41, 92, 49, 13] ∧
      SaysCorrect (output 8 ["--structural", "--workers=1", "-"]
        ([40, 97, 41, 92, 49, 13] ++ [Text.lineFeed])) ∧
      Text.utf8 "Correct regex: " ++ [40, 97, 41, 92, 49] ++ [Text.lineFeed] <+:
        Text.utf8 (output 8 ["--structural", "--workers=1", "-"]
          ([40, 97, 41, 92, 49, 13] ++ [Text.lineFeed])) ∧
      ¬SaysCorrect (output 8 ["--structural", "--workers=1", "-"]
        ([40, 97, 41, 92, 49, 0xFF] ++ [Text.lineFeed])) := by
  have harguments : ChecksAlone 8 ["--structural", "--workers=1", "-"]
      ⟨.standardInput, ⟨defaultMaxPaths, 1, .structural⟩, false⟩ := ⟨rfl, rfl⟩
  have hline : Text.lineFeed ∉ [40, 97, 41, 92, 49, 13] := by decide
  have hfaulty : Text.lineFeed ∉ [40, 97, 41, 92, 49, 0xFF] := by decide
  have hformed : ∀ text, Text.utf8 text ≠ [40, 97, 41, 92, 49, 0xFF] := by
    intro text htext
    have hdecode := Text.decode_utf8 text
    rw [htext] at hdecode
    rw [← hdecode] at htext
    exact absurd htext (by decide +kernel)
  obtain ⟨_, hcorrect, hprinted, _⟩ := output_line_exact harguments hline
  obtain ⟨_, _, _, _, hill, _⟩ := output_line_exact harguments hfaulty
  obtain ⟨pattern, hparse, hcheck⟩ : ∃ pattern, Pattern.parse "(a)\\1" = .ok pattern ∧
      (Config.mk defaultMaxPaths 1 .structural).check pattern = .ok () :=
    ⟨_, rfl, by decide +kernel⟩
  have haccepted : (Config.mk defaultMaxPaths 1 .structural).validate "(a)\\1" = .ok pattern :=
    (Config.validate_eq_ok_iff hparse).2 ⟨hcheck, rfl⟩
  have hascii : IsAscii (Text.dropReturn [40, 97, 41, 92, 49, 13]) "(a)\\1" :=
    ⟨by decide, fun _ hc => Alphabet.toNat_lt_of_contains (Pattern.contains_of_parse hparse hc)⟩
  have hsays := hcorrect.2 ⟨_, pattern, hascii, haccepted⟩
  exact ⟨harguments, hline, hsays, hprinted hsays, hill hformed⟩

end Backref.CommandLine
