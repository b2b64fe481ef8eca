import Backref.CommandLine.Options

/-!
# Files by name

A `Directory` holds what a run of the command can read: its standard input and the files of its
working directory. `Directory.fetch` reads a source as an operating system does. A path goes
from place to place; beside the files, only what every system has is found: the root, the
directory for temporary files, and the devices that hold nothing or the standard input.
-/

namespace Backref.CommandLine

/-- Why a file cannot be read. -/
inductive Fault
  | notFound
  | notADirectory
  | isADirectory
  | nameTooLong
  | other (description : String)
  deriving DecidableEq, Repr

/-- The fault as the operating system words it. -/
def Fault.message : Fault → String
  | notFound => "No such file or directory (os error 2)"
  | notADirectory => "Not a directory (os error 20)"
  | isADirectory => "Is a directory (os error 21)"
  | nameTooLong => "File name too long (os error 36)"
  | other description => description

/-- Which attempt has failed, and why. -/
inductive ReadFailure
  | opening (fault : Fault)
  | reading (fault : Fault)
  deriving DecidableEq, Repr

/-- What can be read. -/
structure Directory where
  standardInput : List UInt8
  /-- The files, each with its path from the directory. -/
  files : List (String × List UInt8)
  deriving Repr

/-- Where the names of a place begin. -/
inductive Base
  /-- At the root of the file system. -/
  | root
  /-- At the working directory. -/
  | working
  /-- At a directory that contains the working directory. -/
  | above
  deriving DecidableEq, Repr

/-- A place that a path leads to. -/
structure Place where
  base : Base
  names : List String
  deriving DecidableEq, Repr

namespace Place

/-- The directory that contains a place; the root contains itself. -/
def parent : Place → Place
  | ⟨.working, []⟩ => ⟨.above, []⟩
  | ⟨base, names⟩ => ⟨base, names.dropLast⟩

/-- The place with a name in a directory. -/
def child (place : Place) (name : String) : Place := ⟨place.base, place.names ++ [name]⟩

end Place

/-- The greatest number of bytes in a name. -/
def maxNameSize : Nat := 255

/-- The greatest number of bytes in a path. -/
def maxPathSize : Nat := 4095

/-- The names between the slashes of a path. -/
def components (path : String) : List String := path.splitOn "/"

/-- What stands at a place. -/
inductive Entry
  | file (content : List UInt8)
  | directory
  deriving DecidableEq, Repr

namespace Directory

/-- The files below a base, with the names that lead to them. -/
def filesBelow (directory : Directory) : Base → List (List String × List UInt8)
  | .root => [(["dev", "null"], []), (["dev", "stdin"], directory.standardInput)]
  | .working => directory.files.map fun (path, content) => (components path, content)
  | .above => []

/-- The directories below a base that need not hold a file. -/
def directoriesBelow : Base → List (List String)
  | .root => [[], ["tmp"]]
  | .working | .above => [[]]

/-- What stands at a place. A directory is there also when a file lies below it. -/
def entry? (directory : Directory) (place : Place) : Option Entry :=
  let files := directory.filesBelow place.base
  match files.lookup place.names with
  | some content => some (.file content)
  | none =>
    if (directoriesBelow place.base).contains place.names ∨
        files.any (fun (names, _) => place.names.isPrefixOf names) then
      some .directory
    else none

/-- Goes from a directory along the names of a path. An empty name and a single dot stay there,
and two dots go back. -/
def walk (directory : Directory) (place : Place) :
    List String → Except ReadFailure (List UInt8)
  | [] => .error (.reading .isADirectory)
  | name :: rest =>
    if name = "" ∨ name = "." then directory.walk place rest
    else if name = ".." then directory.walk place.parent rest
    else if maxNameSize < name.utf8ByteSize then .error (.opening .nameTooLong)
    else
      match directory.entry? (place.child name) with
      | some (.file content) =>
        if rest = [] then .ok content else .error (.opening .notADirectory)
      | some .directory => directory.walk (place.child name) rest
      | none => .error (.opening .notFound)

/-- The bytes of a source. -/
def fetch (directory : Directory) : Source → Except ReadFailure (List UInt8)
  | .standardInput => .ok directory.standardInput
  | .file path =>
    if maxPathSize < path.utf8ByteSize then .error (.opening .nameTooLong)
    else
      let base : Base := if path.startsWith "/" then .root else .working
      directory.walk ⟨base, []⟩ (components path)

end Directory

end Backref.CommandLine
