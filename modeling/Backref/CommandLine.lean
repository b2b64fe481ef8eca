import Backref.CommandLine.Directory
import Backref.CommandLine.Report

/-!
# The command

`run` says what the command prints and how it exits, given its arguments, a way to read a source and
the number of cores.
-/

namespace Backref.CommandLine

/-- How a run of the command ends. -/
structure Outcome where
  exitCode : Nat
  stdout : String
  stderr : String
  deriving DecidableEq, Repr

/-- What the command prints for `--version`. -/
def versionText : String := "refcheck 0.1.0\n"

/-- The line of the help for one option. -/
def helpLine (option text : String) : String :=
  option.pushn ' ' (31 - option.length) ++ text

/-- What the command prints for `--help`. -/
def helpText : String := unlines
  ["Check one pattern per line and report whether each is correct",
    "",
    "Usage: refcheck [OPTIONS] [INPUT]",
    "",
    "Arguments:",
    s!"  [INPUT]  Pattern file, or `-` to read stdin [default: {defaultInput}]",
    "",
    "Options:",
    helpLine "      --max-paths <MAX_PATHS>"
      s!"Give up on a pattern after this many forked paths [default: {defaultMaxPaths}]",
    helpLine "      --workers <WORKERS>"
      "Worker threads for path exploration (defaults to available cores)",
    helpLine "      --structural"
      "Only allow string back-references to groups outside any `|` or `*`",
    helpLine "  -v, --verbose"
      "Print the rejection reason, or the canonical pattern and its groups",
    helpLine "  -h, --help" "Print help",
    helpLine "  -V, --version" "Print version"]

/-- A source as it is named in a message. -/
def Source.display : Source → String
  | .standardInput => "stdin"
  | .file name => name

/-- The failure to read a source, in words. -/
def ReadFailure.message (source : Source) : ReadFailure → String
  | .opening fault => s!"Error: opening {source.display}\n\nCaused by:\n    {fault.message}\n"
  | .reading fault => s!"Error: reading {source.display}\n\nCaused by:\n    {fault.message}\n"

/-- The outcome of checking the input, or of failing to read it. -/
def Options.outcome (options : Options) : Except ReadFailure (List UInt8) → Outcome
  | .ok input =>
    { exitCode := 0
      stdout := unlines (report options.config options.verbose input)
      stderr := "" }
  | .error failure =>
    { exitCode := 1
      stdout := ""
      stderr := failure.message options.source }

/-- The outcome of the command, where one worker follows the paths. -/
def run (arguments : List String) (fetch : Source → Except ReadFailure (List UInt8))
    (cores : Nat := 1) : Outcome :=
  match Request.ofArguments cores arguments with
  | .ok .version => ⟨0, versionText, ""⟩
  | .ok .help => ⟨0, helpText, ""⟩
  | .ok (.check options) => options.outcome (fetch options.source)
  | .error usage => ⟨2, "", s!"error: {usage.message}\n"⟩

end Backref.CommandLine
