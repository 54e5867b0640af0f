/-!
File access.

`Files` is what the program asks of a file system.  It is a parameter of the program, so that the
same program runs on the real one and on a `FileTree`.
-/

namespace LinkBridge.CommandLine

inductive FileError where
  | notFound
  | alreadyExists
  | notADirectory
  | isADirectory
  | nameTooLong
  | other (text : String)
deriving DecidableEq, Repr

def FileError.message : FileError → String
  | .notFound => "No such file or directory (os error 2)"
  | .alreadyExists => "File exists (os error 17)"
  | .notADirectory => "Not a directory (os error 20)"
  | .isADirectory => "Is a directory (os error 21)"
  | .nameTooLong => "File name too long (os error 36)"
  | .other text => text

inductive FileKind where
  | directory
  | file
  | device
deriving DecidableEq, Repr

structure Files (m : Type → Type) where
  currentDirectory : m String
  /-- What a path leads to, if it leads anywhere. -/
  kind? : String → m (Option FileKind)
  read : String → m (Except FileError String)
  write : String → String → m (Except FileError Unit)
  /-- Makes one directory in another. -/
  makeDirectory : String → m (Except FileError Unit)

namespace Path

def parts (path : String) : List String :=
  (path.toList.splitOnP (· == '/')).map String.ofList

def isAbsolute (path : String) : Bool := path.toList.head? == some '/'

/-- Whether a path has a slash at its end, and so can only lead to a directory. -/
def endsInSlash (path : String) : Bool := path.toList.getLast? == some '/'

def join (directory file : String) : String :=
  if directory = "" ∨ endsInSlash directory then directory ++ file else directory ++ "/" ++ file

/-- The paths that end at one of the parts behind some text.  A part that stays in the same
directory is not an end. -/
def endsFrom (before : String) : List String → List String
  | [] => []
  | part :: rest =>
    let here := before ++ part
    let further := endsFrom (here ++ "/") rest
    if part = "" ∨ part = "." then further else here :: further

/-- The paths that lead along a path to its last part, the shortest first. -/
def along (path : String) : List String :=
  match parts path with
  | [] => []
  | first :: rest => (if first = "" then "/" else first) :: endsFrom (first ++ "/") rest

/-- The paths of the directories above a path, the nearest first. -/
def above (path : String) : List String := (along path).dropLast.reverse

end Path

namespace Files

variable {m : Type → Type} [Monad m] (files : Files m)

def isDirectory (path : String) : m Bool := return (← files.kind? path) == some .directory

def isFile (path : String) : m Bool := return (← files.kind? path) == some .file

def exists? (path : String) : m Bool := return (← files.kind? path).isSome

def ensureDirectory (path : String) : m (Except FileError Unit) := do
  match ← files.makeDirectory path with
  | .ok () => return .ok ()
  | .error e => if ← files.isDirectory path then return .ok () else return .error e

/-- Makes the first of some directories.  If it has nowhere to be, the others are made before it. -/
def ensureFirst : List String → m (Except FileError Unit)
  | [] => return .ok ()
  | path :: above => do
    match ← files.ensureDirectory path with
    | .error .notFound =>
      match ← ensureFirst above with
      | .ok () => files.ensureDirectory path
      | .error e => return .error e
    | result => return result

/-- Makes a directory and those on the way to it, as far as they are missing.  A path that is empty
stands for the current directory. -/
def createDirectories (path : String) : m (Except FileError Unit) :=
  if path = "" then return .ok () else files.ensureFirst (path :: Path.above path)

end Files
end LinkBridge.CommandLine
