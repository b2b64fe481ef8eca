import Backref.CommandLine

/-!
# The program

Reads the source that the arguments name, and prints what `CommandLine.run` says.
-/

namespace Backref.CommandLine

/-- The fault that an operating-system error reports. -/
def Fault.ofError : IO.Error → Fault
  | .noFileOrDirectory .. => .notFound
  | .inappropriateType _ 20 _ => .notADirectory
  | .inappropriateType _ 21 _ => .isADirectory
  | .invalidArgument _ 36 _ => .nameTooLong
  | failure => .other (toString failure)

/-- All bytes that a reader delivers. -/
def readAll (reader : IO ByteArray) : IO (Except ReadFailure (List UInt8)) := do
  match ← reader.toBaseIO with
  | .ok bytes => return .ok bytes.data.toList
  | .error failure => return .error (.reading (.ofError failure))

/-- The bytes of a source. -/
def Source.read : Source → IO (Except ReadFailure (List UInt8))
  | .standardInput => do readAll (← IO.getStdin).readBinToEnd
  | .file name => do
    match ← (IO.FS.Handle.mk name .read).toBaseIO with
    | .ok handle => readAll handle.readBinToEnd
    | .error failure => return .error (.opening (.ofError failure))

end Backref.CommandLine

open Backref.CommandLine in
/-- Checks a batch of patterns as on a machine with one core. -/
def main (arguments : List String) : IO UInt32 := do
  let content ←
    match Request.ofArguments 1 arguments with
    | .ok (.check options) => options.source.read
    | _ => pure (.ok [])
  let outcome := run arguments fun _ => content
  (← IO.getStdout).putStr outcome.stdout
  (← IO.getStderr).putStr outcome.stderr
  return outcome.exitCode.toUInt32
