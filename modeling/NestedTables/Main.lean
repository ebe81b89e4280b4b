import NestedTables.CommandLine

/-!
# The command

Everything that the program decides is decided by `CommandLine.Job`. Here it is given what it
asks of the world: the words, the folder, the bytes of one file and a clock.
-/

namespace NestedTables.CommandLine

/-- The code with which the system refuses to read a folder as if it were a file. -/
def folderCode : UInt32 := 21

/-- The code with which the system refuses a name or a path that is too long. -/
def tooLongCode : UInt32 := 0 - 36

/-- The convention by which the words are read. -/
def convention : Convention := .older

/-- What is found at a path. A path that leads nowhere, or through a file, leads to nothing. What
the system does not let be looked at or read is closed. -/
def lookAt (path : Path) : IO Found := do
  try
    return .file (← IO.FS.readBinFile path.shown).toList
  catch e =>
    match e with
    | .noFileOrDirectory .. => return .nothing
    | .inappropriateType _ code _ => return if code = folderCode then .folder else .nothing
    | .invalidArgument _ code _ => return if code = tooLongCode then .tooLong else .closed
    | _ => return .closed

/-- The words for a run that breaks off. -/
def Breakdown.message : Breakdown → String
  | .noPath => "There is no path to the schema file."
  | .noName => "No file has a name with a null character."
  | .noPlace => "The path to the schema file leads nowhere."
  | .loading (.tooLong _) => "The path to the schema file is too long."
  | .loading (.closed _) => "The schema file cannot be read."
  | .loading .loneSurrogate => "A text of the schema file holds a surrogate that stands alone."
  | .loading _ => "A value of the schema file is not what its tag says."
  | .noVirtual => "A property to leave out has no name."
  | .compilation (.record _) => "A table cannot be described."
  | .compilation _ => "A mapping of the schema has a key that is no text."
  | .notPortable => "The descriptors hold bytes that are no text."
  | .tooLong => "An integer is too long to be written."

/-- Writes what can be seen of a run, and gives its exit code. -/
def Run.finish (r : Run) : IO UInt32 := do
  IO.eprint r.messages
  IO.print r.output
  match r.ending with
  | .exit code => return code.toNat.toUInt32
  | .brokenOff why =>
    IO.eprintln why.message
    return 1

/-- Runs the program in the folder in which it was started. Links are followed, but keep their
names. -/
def runHere (words : List String) : IO UInt32 := do
  let folder := Path.ofText {} (← IO.currentDir).toString
  let path := match read convention words with
    | .ok a => (a.path { folder := folder, find := fun _ => .nothing }).toOption
    | .error _ => none
  let found ← match path with
    | some path => lookAt path
    | none => pure .nothing
  match Job.begin convention words { folder := folder, find := fun _ => found } with
  | .error r => r.finish
  | .ok job =>
    let start ← IO.monoNanosNow
    let r ← IO.lazyPure fun _ => job.run
    let stop ← IO.monoNanosNow
    (r.took ((stop - start) / 100000)).finish

end NestedTables.CommandLine

def main (words : List String) : IO UInt32 :=
  NestedTables.CommandLine.runHere words
