import LinkBridge.CommandLine.Program

/-!
The executable: the program on the real file system.
-/

namespace LinkBridge.CommandLine

/-- An error number, which some operations give with a minus sign. -/
def errorNumber (code : UInt32) : UInt32 := if code < 4096 then code else 0 - code

def FileError.ofIO : IO.Error → FileError
  | .noFileOrDirectory .. => .notFound
  | .inappropriateType _ code _ =>
    if errorNumber code = 21 then .isADirectory else .notADirectory
  | .alreadyExists .. => .alreadyExists
  | .invalidArgument _ code details =>
    if errorNumber code = 36 then .nameTooLong else .other details
  | error => .other (toString error)

/-- Runs a file operation and keeps its failure as a value. -/
def keepFailure {α : Type} (x : IO α) : IO (Except FileError α) := do
  match ← x.toBaseIO with
  | .ok a => return .ok a
  | .error error => return .error (FileError.ofIO error)

/-- What is at the end of a path, told by how reading it fails: a directory cannot be read, and any
other failure than a wrong path leaves a file. -/
def kindAt (path : String) : IO (Option FileKind) := do
  match ← keepFailure (IO.FS.readFile path) with
  | .ok _ | .error (.other _) => return some .file
  | .error .isADirectory => return some .directory
  | .error _ => return none

def systemFiles : Files IO where
  currentDirectory := do return toString (← IO.currentDir)
  kind? := kindAt
  read path := keepFailure (IO.FS.readFile path)
  write path text := keepFailure (IO.FS.writeFile path text)
  makeDirectory path := keepFailure (IO.FS.createDir path)

end LinkBridge.CommandLine

open LinkBridge.CommandLine

def main (arguments : List String) : IO UInt32 := do
  let outcome ← Program.run systemFiles arguments
  (← IO.getStderr).putStr outcome.err
  (← IO.getStdout).putStr outcome.out
  return UInt32.ofNat outcome.code
