import Backref.CommandLine
import Backref.Proofs.CommandLine.Unbroken
import Backref.Proofs.Reference.Exactness

/-!
# The report, line by line

A verdict is one line that says whether the pattern is correct (`heading`), perhaps followed by
lines that explain it (`details`). The verdicts of an input are those of its lines, in their order
(`Options.filter_splitOn_output`), and the output for an input that is cut between two lines is that
for its first part, followed by that for the second one (`Options.output_append`). Both are said of
the options of a check, and `output_append_eq` says them of the arguments of the command.
-/

namespace Backref.CommandLine

/-- The line that says whether a pattern is correct. -/
def heading (config : Config) (text : String) : String :=
  match config.validate text with
  | .ok _ => "Correct regex: " ++ text
  | .error _ => "Incorrect regex: " ++ text

/-- The lines that explain a verdict. -/
def details (config : Config) (text : String) : List String :=
  match config.validate text with
  | .ok pattern => describe pattern
  | .error rejection => ["  " ++ rejection.message]

theorem verdict_eq (config : Config) (verbose : Bool) (text : String) :
    verdict config verbose text =
      heading config text :: if verbose then details config text else [] := by
  rw [verdict, heading, details]
  cases config.validate text <;> rfl

/-- Whether an output line says that a pattern is correct, or that it is not. -/
def isHeading (line : List Char) : Bool :=
  "Correct regex: ".toList.isPrefixOf line || "Incorrect regex: ".toList.isPrefixOf line

theorem isHeading_heading (config : Config) (text : String) :
    isHeading (heading config text).toList := by
  rw [heading]
  cases config.validate text <;> simp [isHeading]

/-! ## Each output line is one line -/

variable {config : Config} {text line : String}

theorem unbroken_of_mem_lines {input : List UInt8} (h : text ∈ Text.lines input) :
    Unbroken text := by
  obtain ⟨line, hline, rfl⟩ := List.mem_map.1 h
  rw [Unbroken, Text.decodeLine, String.toList_ofList]
  intro hfeed
  have hbyte := Text.Utf8.ofNat_mem_of_mem_decode (by decide) hfeed
  have hmem : Text.lineFeed ∈ line := Text.mem_of_mem_dropReturn hbyte
  exact Text.lineFeed_not_mem_of_mem_splitLines hline hmem

theorem unbroken_heading (h : Unbroken text) : Unbroken (heading config text) := by
  rw [heading]
  cases config.validate text <;> exact unbroken_append_iff.2 ⟨by decide, h⟩

theorem unbroken_of_mem_details (h : line ∈ details config text) : Unbroken line := by
  rw [details] at h
  cases hvalidate : config.validate text with
  | ok pattern =>
      rw [hvalidate] at h
      exact unbroken_of_mem_describe (Config.parse_of_validate hvalidate).1 h
  | error rejection =>
      rw [hvalidate] at h
      obtain rfl := List.mem_singleton.1 h
      exact unbroken_append_iff.2 ⟨by decide, rejection.unbroken_message⟩

theorem unbroken_of_mem_verdict {verbose : Bool} (h : Unbroken text)
    (hline : line ∈ verdict config verbose text) : Unbroken line := by
  rw [verdict_eq, List.mem_cons] at hline
  obtain rfl | hline := hline
  · exact unbroken_heading h
  · cases verbose with
    | false => cases hline
    | true => exact unbroken_of_mem_details hline

theorem unbroken_of_mem_report {verbose : Bool} {input : List UInt8}
    (h : line ∈ report config verbose input) : Unbroken line := by
  obtain ⟨text, htext, hline⟩ := List.mem_flatMap.1 h
  exact unbroken_of_mem_verdict (unbroken_of_mem_lines htext) hline

/-- An output line that begins with two spaces. -/
def Indented (line : String) : Prop := "  ".toList <+: line.toList

theorem Indented.append (h : Indented line) (rest : String) : Indented (line ++ rest) := by
  rw [Indented, String.toList_append]
  exact h.trans (List.prefix_append _ _)

/-- What explains a verdict is indented. -/
theorem indented_of_mem_details (h : line ∈ details config text) : Indented line := by
  rw [details] at h
  cases hvalidate : config.validate text with
  | ok pattern =>
      rw [hvalidate] at h
      unfold describe at h
      obtain rfl | h := List.mem_cons.1 h
      · have hlabel : Indented "  canonical: " := by
          rw [Indented]
          decide
        exact hlabel.append _
      · obtain ⟨⟨number, group⟩, _, rfl⟩ := List.mem_map.1 h
        have hlabel : Indented "  group " := by
          rw [Indented]
          decide
        exact ((hlabel.append _).append _).append _
  | error rejection =>
      rw [hvalidate] at h
      obtain rfl := List.mem_singleton.1 h
      exact Indented.append (List.prefix_rfl) _

theorem isHeading_of_mem_details (h : line ∈ details config text) :
    isHeading line.toList = false := by
  obtain ⟨rest, hrest⟩ := indented_of_mem_details h
  rw [← hrest]
  rfl

/-! ## The output -/

theorem unlines_append (lines rest : List String) :
    unlines (lines ++ rest) = unlines lines ++ unlines rest := by
  rw [unlines, List.map_append, String.join_append]
  rfl

theorem splitOn_unlines {lines : List String} (h : ∀ line ∈ lines, Unbroken line) :
    (unlines lines).toList.splitOn '\n' = lines.map String.toList ++ [[]] := by
  induction lines with
  | nil => rfl
  | cons line lines ih =>
      have hlines := ih fun next hnext => h next (List.mem_cons_of_mem _ hnext)
      have hline : '\n' ∉ line.toList := h line List.mem_cons_self
      have htext : (unlines (line :: lines)).toList =
          line.toList ++ '\n' :: (unlines lines).toList := by
        simp [unlines]
      rw [htext, List.splitOn_append_cons_self_of_not_mem hline, hlines]
      rfl

theorem filter_verdict (config : Config) (verbose : Bool) (text : String) :
    (verdict config verbose text).filter (isHeading ∘ String.toList) = [heading config text] := by
  have hdetails : (details config text).filter (isHeading ∘ String.toList) = [] := by
    rw [List.filter_eq_nil_iff]
    intro line hline
    rw [Function.comp_apply, isHeading_of_mem_details hline]
    nofun
  have hheading : (isHeading ∘ String.toList) (heading config text) :=
    isHeading_heading config text
  rw [verdict_eq, List.filter_cons_of_pos hheading]
  cases verbose with
  | false => rfl
  | true => rw [if_pos rfl, hdetails]

theorem filter_report (config : Config) (verbose : Bool) (input : List UInt8) :
    (report config verbose input).filter (isHeading ∘ String.toList) =
      (Text.lines input).map (heading config) := by
  rw [report, List.filter_flatMap]
  simp only [filter_verdict]
  exact List.flatMap_pure_eq_map _ _

theorem report_append (config : Config) (verbose : Bool) {before : List UInt8}
    (h : Text.EndsLine before) (after : List UInt8) :
    report config verbose (before ++ after) =
      report config verbose before ++ report config verbose after := by
  rw [report, Text.lines, Text.splitLines_append h, List.map_append, List.flatMap_append]
  rfl

/-- What is printed for an input. -/
def Options.output (options : Options) (input : List UInt8) : String :=
  (options.outcome (.ok input)).stdout

namespace Options

theorem output_eq (options : Options) (input : List UInt8) :
    options.output input = unlines (report options.config options.verbose input) := rfl

/-- No output depends on the lines before or after. -/
theorem output_append (options : Options) {before : List UInt8} (hbefore : Text.EndsLine before)
    (after : List UInt8) :
    options.output (before ++ after) = options.output before ++ options.output after := by
  rw [output_eq, output_eq, output_eq, report_append _ _ hbefore, unlines_append]

/-- The verdicts in the output are those on the lines of the input, one for each, in their
order. -/
theorem filter_splitOn_output (options : Options) (input : List UInt8) :
    ((options.output input).toList.splitOn '\n').filter isHeading =
      (Text.lines input).map fun text => (heading options.config text).toList := by
  -- What follows the last line feed is empty, and no verdict.
  have hlast : isHeading [] = false := rfl
  rw [output_eq, splitOn_unlines fun line hline => unbroken_of_mem_report hline,
    List.filter_append, List.filter_map, filter_report, List.map_map]
  simp [hlast]

end Options

/-! ## The command -/

/-- What the command prints for an input. -/
def output (cores : Nat) (arguments : List String) (input : List UInt8) : String :=
  (run arguments (fun _ => .ok input) cores).stdout

/-- The arguments ask for a check with the options, in which a single worker follows the paths. -/
structure ChecksAlone (cores : Nat) (arguments : List String) (options : Options) : Prop where
  request : Request.ofArguments cores arguments = .ok (.check options)
  workerCount : options.config.workerCount = 1

/-- The command prints what is printed with the options. -/
theorem ChecksAlone.output_eq {cores : Nat} {arguments : List String} {options : Options}
    (h : ChecksAlone cores arguments options) : output cores arguments = options.output := by
  funext input
  rw [output, run, h.request]
  rfl

/-- The output for one input after the other is the output for both of them together, if the first
one ends where a line does. And the verdicts in any output are those on the lines of the input, one
for each, in their order. -/
theorem output_append_eq {cores : Nat} {arguments : List String} {options : Options}
    (h : ChecksAlone cores arguments options) :
    (∀ before after, Text.EndsLine before → output cores arguments (before ++ after) =
      output cores arguments before ++ output cores arguments after) ∧
    ∀ input, ((output cores arguments input).toList.splitOn '\n').filter isHeading =
      (Text.lines input).map fun text => (heading options.config text).toList := by
  rw [h.output_eq]
  exact ⟨fun _ after hbefore => options.output_append hbefore after, options.filter_splitOn_output⟩

/-- Explained verdicts on a line with either end, on an empty line, and on one that is not ended and
holds nothing but a carriage return. On eight cores a single worker has to be asked for. -/
theorem output_append_eq_unended :
    ChecksAlone 8 ["--max-paths", "5", "--workers=1", "-v", "-"]
        ⟨.standardInput, ⟨5, 1, .pathSensitive⟩, true⟩ ∧
      Text.EndsLine [40, 97, 41, 92, 49, 13, 10, 10] ∧
      output 8 ["--max-paths", "5", "--workers=1", "-v", "-"]
          ([40, 97, 41, 92, 49, 13, 10, 10] ++ [42, 10, 13]) =
        output 8 ["--max-paths", "5", "--workers=1", "-v", "-"]
            [40, 97, 41, 92, 49, 13, 10, 10] ++
          output 8 ["--max-paths", "5", "--workers=1", "-v", "-"] [42, 10, 13] ∧
      ((output 8 ["--max-paths", "5", "--workers=1", "-v", "-"]
          [40, 97, 41, 92, 49, 13, 10, 10, 42, 10, 13]).toList.splitOn '\n').filter isHeading =
        ["Correct regex: (a)\\1".toList, "Correct regex: ".toList, "Incorrect regex: *".toList,
          "Correct regex: ".toList] := by
  have harguments : ChecksAlone 8 ["--max-paths", "5", "--workers=1", "-v", "-"]
      ⟨.standardInput, ⟨5, 1, .pathSensitive⟩, true⟩ := ⟨rfl, rfl⟩
  have hends : Text.EndsLine [40, 97, 41, 92, 49, 13, 10, 10] := .inr rfl
  have hheadings : (Text.lines [40, 97, 41, 92, 49, 13, 10, 10, 42, 10, 13]).map
      (fun text => (heading ⟨5, 1, .pathSensitive⟩ text).toList) =
      ["Correct regex: (a)\\1".toList, "Correct regex: ".toList, "Incorrect regex: *".toList,
        "Correct regex: ".toList] := by
    decide +kernel
  obtain ⟨hcut, hverdicts⟩ := output_append_eq harguments
  exact ⟨harguments, hends, hcut _ _ hends, (hverdicts _).trans hheadings⟩

end Backref.CommandLine
