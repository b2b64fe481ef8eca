import Backref.Pattern.Parser
import Backref.Reference.Placement
import Backref.Reference.Search

/-!
# Checking patterns

A `Config` says which rule decides whether a string reference is safe and how many forks the
path-sensitive rule may follow. `Config.validate` reads a pattern and applies the rule.
-/

namespace Backref

/-- The rules for string references. -/
inductive Rule
  /-- No way through the pattern reads a group before it has matched. -/
  | pathSensitive
  /-- Groups that are referred to stand outside every alternation and repetition. -/
  | structural
  deriving DecidableEq, Repr

/-- The number of forks that is followed unless another one is asked for. -/
def defaultMaxPaths : Nat := 100000

/-- How patterns are checked. -/
structure Config where
  /-- The number of forks to follow before giving up. -/
  maxPaths : Nat := defaultMaxPaths
  /-- The number of workers asked for. It is kept for whoever asks; paths are followed as one worker
  follows them, one after the other. -/
  workers : Nat := 1
  rule : Rule := .pathSensitive
  deriving DecidableEq, Repr

namespace Config

/-- The number of workers that follow paths: as many as are asked for, but at least one. -/
def workerCount (config : Config) : Nat := max config.workers 1

/-- Checks the string references of a pattern. -/
def check (config : Config) (pattern : Pattern) : Except Rejection Unit :=
  match config.rule with
  | .pathSensitive => pattern.checkPaths config.maxPaths
  | .structural => pattern.checkPlacement

/-- The pattern that a text spells, if its string references are safe. -/
def validate (config : Config) (text : String) : Except Rejection Pattern := do
  let pattern ← Pattern.parse text
  config.check pattern
  return pattern

end Config

end Backref
