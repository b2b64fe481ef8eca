import Backref.Checker
import Backref.Pattern.Printer
import Backref.Text.Lines

/-!
# The report on a batch of patterns

Each line of the input is one pattern. Its verdict is one line of output, which repeats the
pattern; an explained verdict is followed by lines that begin with two spaces.
-/

namespace Backref.CommandLine

/-- The canonical text of an accepted pattern and the places of its groups. -/
def describe (pattern : Pattern) : List String :=
  s!"  canonical: {pattern.render}" ::
    pattern.groups.map fun (number, group) => s!"  group {number} at index {group.position}"

/-- The output lines for one pattern. -/
def verdict (config : Config) (verbose : Bool) (text : String) : List String :=
  match config.validate text with
  | .ok pattern => ("Correct regex: " ++ text) :: if verbose then describe pattern else []
  | .error rejection =>
    ("Incorrect regex: " ++ text) :: if verbose then ["  " ++ rejection.message] else []

/-- The output lines for all patterns of an input. -/
def report (config : Config) (verbose : Bool) (input : List UInt8) : List String :=
  (Text.lines input).flatMap (verdict config verbose)

/-- The lines as one text, each of them ended by LF. -/
def unlines (lines : List String) : String := String.join (lines.map (· ++ "\n"))

end Backref.CommandLine
