import Backref.Proofs.CommandLine.Report

/-!
# Explanations are indented

What `--verbose` adds to the output are lines that begin with two spaces. No other output line
begins so, since it says of a pattern that it is correct or that it is not; and no pattern, message
or canonical text breaks its line. So `dropIndented` takes the explanations away again and leaves
the output that is printed without them (`Options.dropIndented_output_true`; `dropIndented_output`
says so of the command).
-/

namespace Backref.CommandLine

/-- Whether an output line begins with two spaces. -/
def isIndented (line : List Char) : Bool := "  ".toList.isPrefixOf line

/-- The lines of a text, cut at the line feeds, without those that begin with two spaces. -/
def dropIndented (text : String) : List (List Char) :=
  (text.toList.splitOn '\n').filter (!isIndented ·)

theorem isIndented_eq_false_of_isHeading {line : List Char} (h : isHeading line) :
    isIndented line = false := by
  rw [isHeading, Bool.or_eq_true, List.isPrefixOf_iff_prefix, List.isPrefixOf_iff_prefix] at h
  obtain ⟨rest, rfl⟩ | ⟨rest, rfl⟩ := h
  · rfl
  · rfl

variable {config : Config} {input : List UInt8}

/-- Without its indented lines an explained verdict is the verdict alone. -/
theorem filter_verdict_true (config : Config) (text : String) :
    (verdict config true text).filter (fun line => !isIndented line.toList) =
      verdict config false text := by
  have hdetails : (details config text).filter (fun line => !isIndented line.toList) = [] := by
    rw [List.filter_eq_nil_iff]
    intro line hline
    have hindented : isIndented line.toList :=
      List.isPrefixOf_iff_prefix.2 (indented_of_mem_details hline)
    rw [hindented]
    nofun
  have hheading : (!isIndented (heading config text).toList) = true := by
    rw [isIndented_eq_false_of_isHeading (isHeading_heading config text), Bool.not_false]
  rw [verdict_eq, verdict_eq, List.filter_cons, if_pos hheading, if_pos rfl, hdetails]
  rfl

theorem filter_report_true (config : Config) (input : List UInt8) :
    (report config true input).filter (fun line => !isIndented line.toList) =
      report config false input := by
  rw [report, List.filter_flatMap]
  simp only [filter_verdict_true]
  rfl

/-- A report without explanations has one line for each line of the input. -/
theorem report_false (config : Config) (input : List UInt8) :
    report config false input = (Text.lines input).map (heading config) := by
  have hverdict : verdict config false = fun text => [heading config text] :=
    funext fun text => verdict_eq config false text
  rw [report, hverdict]
  exact List.flatMap_pure_eq_map _ _

namespace Options

variable {source : Source}

/-- The lines of an output that is not explained, and the empty text after the last line feed. -/
theorem splitOn_output_false (input : List UInt8) :
    ((Options.mk source config false).output input).toList.splitOn '\n' =
      (Text.lines input).map (fun text => (heading config text).toList) ++ [[]] := by
  rw [output_eq, splitOn_unlines fun line hline => unbroken_of_mem_report hline, report_false,
    List.map_map]
  rfl

/-- Explanations can be told from the rest of the output. -/
theorem dropIndented_output_true (input : List UInt8) :
    dropIndented ((Options.mk source config true).output input) =
      ((Options.mk source config false).output input).toList.splitOn '\n' := by
  rw [dropIndented, output_eq, output_eq,
    splitOn_unlines fun line hline => unbroken_of_mem_report hline,
    splitOn_unlines fun line hline => unbroken_of_mem_report hline, List.filter_append,
    List.filter_map, ← filter_report_true]
  rfl

/-- Without the explanations every line says of a pattern that it is correct or that it is not, and
there is one for each line of the input. -/
theorem exists_headings (source : Source) (config : Config) (input : List UInt8) :
    ∃ headings, dropIndented ((Options.mk source config true).output input) = headings ++ [[]] ∧
      headings.length = (Text.lines input).length ∧ ∀ line ∈ headings, isHeading line := by
  refine ⟨(Text.lines input).map fun text => (heading config text).toList, ?_, ?_, ?_⟩
  · rw [dropIndented_output_true, splitOn_output_false]
  · exact List.length_map _
  · intro line hline
    obtain ⟨text, _, rfl⟩ := List.mem_map.1 hline
    exact isHeading_heading _ text

end Options

/-- The output with `--verbose`, without its lines that begin with two spaces, is the output without
`--verbose`. What remains is one line for each line of the input, and it says of the pattern that it
is correct or that it is not. -/
theorem dropIndented_output {cores : Nat} {terse explained : List String} {source : Source}
    (hterse : ChecksAlone cores terse ⟨source, config, false⟩)
    (hexplained : ChecksAlone cores explained ⟨source, config, true⟩) (input : List UInt8) :
    ['\n'].intercalate (dropIndented (output cores explained input)) =
        (output cores terse input).toList ∧
      ∃ headings, dropIndented (output cores explained input) = headings ++ [[]] ∧
        headings.length = (Text.lines input).length ∧ ∀ line ∈ headings, isHeading line := by
  rw [hterse.output_eq, hexplained.output_eq]
  refine ⟨?_, Options.exists_headings source config input⟩
  rw [Options.dropIndented_output_true, List.intercalate_splitOn]

/-- A group to list, and a line that itself begins with two spaces and ends with a carriage
return. -/
theorem dropIndented_output_spaces :
    ChecksAlone 8 ["--workers=1", "-"]
        ⟨.standardInput, ⟨defaultMaxPaths, 1, .pathSensitive⟩, false⟩ ∧
      ChecksAlone 8 ["--workers=1", "--verbose", "-"]
        ⟨.standardInput, ⟨defaultMaxPaths, 1, .pathSensitive⟩, true⟩ ∧
      output 8 ["--workers=1", "--verbose", "-"] [40, 97, 41, 10, 32, 32, 98, 13, 10] =
        "Correct regex: (a)\n  canonical: (a)\n  group 1 at index 0\n" ++
          "Incorrect regex:   b\n  character ' ' at index 0 is not allowed\n" ∧
      ['\n'].intercalate (dropIndented
          (output 8 ["--workers=1", "--verbose", "-"] [40, 97, 41, 10, 32, 32, 98, 13, 10])) =
        "Correct regex: (a)\nIncorrect regex:   b\n".toList := by
  have hterse : ChecksAlone 8 ["--workers=1", "-"]
      ⟨.standardInput, ⟨defaultMaxPaths, 1, .pathSensitive⟩, false⟩ := ⟨rfl, rfl⟩
  have hexplained : ChecksAlone 8 ["--workers=1", "--verbose", "-"]
      ⟨.standardInput, ⟨defaultMaxPaths, 1, .pathSensitive⟩, true⟩ := ⟨rfl, rfl⟩
  have hprinted : output 8 ["--workers=1", "-"] [40, 97, 41, 10, 32, 32, 98, 13, 10] =
      "Correct regex: (a)\nIncorrect regex:   b\n" := by decide +kernel
  obtain ⟨hkept, _⟩ := dropIndented_output hterse hexplained [40, 97, 41, 10, 32, 32, 98, 13, 10]
  exact ⟨hterse, hexplained, by decide +kernel, hkept.trans (congrArg String.toList hprinted)⟩

end Backref.CommandLine
