import Backref.Checker

/-!
# Command-line arguments

The arguments are read from left to right, and the first fault ends the reading; so does a
request for the version or for help. `Request.ofArguments` turns the arguments into what is
asked for. The number of workers that is not given is that of the cores.
-/

namespace Backref.CommandLine

/-- Where the patterns come from. -/
inductive Source
  | standardInput
  | file (name : String)
  deriving DecidableEq, Repr

/-- How to check a batch of patterns. -/
structure Options where
  source : Source
  config : Config
  /-- Whether each verdict is explained. -/
  verbose : Bool
  deriving DecidableEq, Repr

/-- What the arguments ask for. -/
inductive Request
  | version
  | help
  | check (options : Options)
  deriving DecidableEq, Repr

/-- Why the arguments cannot be understood. -/
inductive UsageError
  /-- An option or a positional argument that has no meaning. -/
  | unexpected (argument : String)
  /-- An option that was given before. -/
  | repeated (option : String)
  /-- An option that needs a value and has none. -/
  | missingValue (option : String)
  /-- A value that cannot be used. -/
  | invalidValue (option value : String)
  deriving DecidableEq, Repr

/-- The fault in words. -/
def UsageError.message : UsageError → String
  | unexpected argument => s!"unexpected argument '{argument}'"
  | repeated option => s!"the argument '{option}' cannot be used multiple times"
  | missingValue option => s!"a value is required for '{option}' but none was supplied"
  | invalidValue option value => s!"invalid value '{value}' for '{option}'"

/-- The arguments read so far. -/
structure Given where
  input : Option String := none
  maxPaths : Option Nat := none
  workers : Option Nat := none
  structural : Bool := false
  verbose : Bool := false
  deriving DecidableEq, Repr

/-- The file that is read unless another input is named. -/
def defaultInput : String := "regex.txt"

/-- The source that an input argument names. -/
def Source.ofInput (input : String) : Source :=
  if input = "-" then .standardInput else .file input

namespace Given

/-- The options that the arguments amount to on a machine with the given number of cores. -/
def options (given : Given) (cores : Nat) : Options where
  source := .ofInput (given.input.getD defaultInput)
  config :=
    { maxPaths := given.maxPaths.getD defaultMaxPaths
      workers := given.workers.getD cores
      rule := if given.structural then .structural else .pathSensitive }
  verbose := given.verbose

/-- Takes a positional argument. -/
def setInput (given : Given) (argument : String) : Except UsageError Given :=
  if argument = "" then .error (.invalidValue "[INPUT]" argument)
  else if given.input.isSome then .error (.unexpected argument)
  else .ok { given with input := some argument }

/-- Takes all remaining arguments as positional ones. -/
def setInputs (given : Given) (arguments : List String) : Except UsageError Given :=
  arguments.foldlM setInput given

/-- Takes the flag that asks for the structural rule. -/
def setStructural (given : Given) : Except UsageError Given :=
  if given.structural then .error (.repeated "--structural")
  else .ok { given with structural := true }

/-- Takes the flag that asks for explanations. -/
def setVerbose (given : Given) : Except UsageError Given :=
  if given.verbose then .error (.repeated "--verbose")
  else .ok { given with verbose := true }

end Given

/-- The number that a text denotes: decimal digits, perhaps after one `+`, of a value that fits
into 64 bits. -/
def number? (text : String) : Option Nat :=
  let digits :=
    match text.toList with
    | '+' :: rest => rest
    | all => all
  if digits ≠ [] ∧ digits.all Char.isDigit then
    let value := digits.foldl (fun value digit => value * 10 + (digit.toNat - '0'.toNat)) 0
    if value < UInt64.size then some value else none
  else none

/-- The options that take a number. -/
inductive Setting
  | maxPaths
  | workers
  deriving DecidableEq, Repr

namespace Setting

/-- The name of the option, without its dashes. -/
def name : Setting → String
  | maxPaths => "max-paths"
  | workers => "workers"

/-- The option with the given name. -/
def ofName? (name : String) : Option Setting :=
  [maxPaths, workers].find? fun setting => setting.name == name

/-- Takes the value of an option. -/
def set (setting : Setting) (given : Given) (text : String) : Except UsageError Given :=
  match number? text, setting with
  | none, _ => .error (.invalidValue ("--" ++ setting.name) text)
  | some value, maxPaths =>
    if given.maxPaths.isSome then .error (.repeated "--max-paths")
    else .ok { given with maxPaths := some value }
  | some value, workers =>
    if given.workers.isSome then .error (.repeated "--workers")
    else .ok { given with workers := some value }

end Setting

/-- How an argument is written. -/
inductive Token
  /-- `--`, after which every argument is positional. -/
  | separator
  /-- `--name` or `--name=value`. -/
  | long (name : String) (value : Option String)
  /-- `-` and one or more letters. -/
  | short (flags : List Char)
  /-- Anything else, also a single `-`. -/
  | positional (text : String)
  deriving DecidableEq, Repr

/-- The way in which an argument is written. -/
def Token.of (argument : String) : Token :=
  match argument.toList with
  | ['-', '-'] => .separator
  | '-' :: '-' :: chars =>
    let name := String.ofList (chars.takeWhile (· ≠ '='))
    match chars.dropWhile (· ≠ '=') with
    | [] => .long name none
    | _ :: value => .long name (some (String.ofList value))
  | '-' :: flag :: flags => .short (flag :: flags)
  | _ => .positional argument

/-- What reading an argument leads to: more to read, or a request that ends the reading. -/
inductive Reading
  | continues (given : Given)
  | stops (request : Request)
  deriving DecidableEq, Repr

/-- Reads the letters of a short argument. -/
def readFlags (given : Given) : List Char → Except UsageError Reading
  | [] => .ok (.continues given)
  | flag :: flags =>
    if flag = 'v' then do
      let given ← given.setVerbose
      readFlags given flags
    else if flag = 'V' then .ok (.stops .version)
    else if flag = 'h' then .ok (.stops .help)
    else .error (.unexpected (String.ofList ['-', flag]))

/-- Reads a long argument that takes no value. -/
def readFlag (given : Given) (name : String) : Except UsageError Reading :=
  if name = "structural" then Reading.continues <$> given.setStructural
  else if name = "verbose" then Reading.continues <$> given.setVerbose
  else if name = "version" then .ok (.stops .version)
  else if name = "help" then .ok (.stops .help)
  else .error (.unexpected ("--" ++ name))

/-- Whether an argument may be the value of the option before it. -/
def isValue (argument : String) : Bool := Token.of argument matches .positional _

/-- Reads the arguments after those already read. -/
def readArguments (cores : Nat) (given : Given) : List String → Except UsageError Request
  | [] => .ok (.check (given.options cores))
  | argument :: rest =>
    match Token.of argument with
    | .separator => do
      let given ← given.setInputs rest
      return .check (given.options cores)
    | .positional text => do
      let given ← given.setInput text
      readArguments cores given rest
    | .short flags => do
      match ← readFlags given flags with
      | .continues given => readArguments cores given rest
      | .stops request => return request
    | .long name value =>
      match Setting.ofName? name, value, rest with
      | some setting, some text, rest => do
        let given ← setting.set given text
        readArguments cores given rest
      | some setting, none, text :: rest =>
        if isValue text then do
          let given ← setting.set given text
          readArguments cores given rest
        else .error (.missingValue ("--" ++ name))
      | some _, none, [] => .error (.missingValue ("--" ++ name))
      | none, some _, _ => .error (.unexpected argument)
      | none, none, rest => do
        match ← readFlag given name with
        | .continues given => readArguments cores given rest
        | .stops request => return request

/-- What the arguments ask for on a machine with the given number of cores. -/
def Request.ofArguments (cores : Nat) (arguments : List String) : Except UsageError Request :=
  readArguments cores {} arguments

end Backref.CommandLine
