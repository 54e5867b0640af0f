import LinkBridge.CommandLine.Files

/-!
A file system as a value.

A `FileTree` holds directories and text files under their absolute places, and a current directory.
It answers as a file system does: a path is followed part by part, and the first part that leads
nowhere decides what is wrong with it.
-/

namespace LinkBridge.CommandLine

inductive FileNode where
  | directory
  | file (text : String)
  /-- A device that keeps nothing of what is written to it. -/
  | sink
deriving DecidableEq, Repr

def FileNode.kind : FileNode → FileKind
  | .directory => .directory
  | .file _ => .file
  | .sink => .device

/-- The root has no node of its own: it is always there. -/
structure FileTree where
  current : List String := []
  nodes : List (List String × FileNode) := []
deriving DecidableEq, Repr

/-- What the end of a path names: a directory that was entered, or an entry of one. -/
inductive PathEnd where
  | entered (place : List String)
  | entry (directory : List String) (name : String)
deriving DecidableEq, Repr

namespace FileTree

def maxName : Nat := 255

def maxPath : Nat := 4095

def node? (t : FileTree) (place : List String) : Option FileNode :=
  if place.isEmpty then some .directory else t.nodes.lookup place

/-- Puts a node in a place, instead of one that is there. -/
def put (t : FileTree) (place : List String) (node : FileNode) : FileTree :=
  { t with nodes := (place, node) :: t.nodes.filter (·.1 ≠ place) }

theorem node?_put (t : FileTree) {place : List String} (node : FileNode) (h : place ≠ []) :
    (t.put place node).node? place = some node := by
  simp [node?, put, h]

/-- What a part of a path names in a directory. -/
def stepTo (place : List String) (part : String) : PathEnd :=
  if part = "." then .entered place
  else if part = ".." then .entered place.dropLast
  else .entry place part

/-- The place and the node of an entry, if there is one. -/
def lookUp (t : FileTree) (directory : List String) (name : String) :
    Except FileError (Option (List String × FileNode)) :=
  if maxName < name.utf8ByteSize then .error .nameTooLong
  else
    let place := directory ++ [name]
    .ok ((t.node? place).map fun node => (place, node))

/-- The place and the node at the end of a path. -/
def at? (t : FileTree) : PathEnd → Except FileError (List String × FileNode)
  | .entered place => .ok (place, .directory)
  | .entry directory name =>
    (t.lookUp directory name).bind fun found =>
      match found with
      | some x => .ok x
      | none => .error .notFound

def enter (t : FileTree) (place : List String) : List String → Except FileError (List String)
  | [] => .ok place
  | part :: rest =>
    (t.at? (stepTo place part)).bind fun (place, node) =>
      if node = .directory then t.enter place rest else .error .notADirectory

/-- The end of a path, the way to which must be there. -/
def follow (t : FileTree) (path : String) : Except FileError PathEnd :=
  if path = "" then .error .notFound
  else if maxPath < path.utf8ByteSize then .error .nameTooLong
  else
    let parts := (Path.parts path).filter (· ≠ "")
    let start := if Path.isAbsolute path then [] else t.current
    match parts.getLast? with
    | some last => (t.enter start parts.dropLast).map fun place => stepTo place last
    | none => .ok (.entered start)

/-- The place and the node that a path leads to. -/
def find (t : FileTree) (path : String) : Except FileError (List String × FileNode) := do
  let (place, node) ← t.at? (← t.follow path)
  if Path.endsInSlash path ∧ node ≠ .directory then .error .notADirectory else .ok (place, node)

def read (t : FileTree) (path : String) : Except FileError String := do
  match (← t.find path).2 with
  | .file text => .ok text
  | .sink => .ok ""
  | .directory => .error .isADirectory

/-- Writes a file, which need not be there yet.  A slash at the end of its path is refused before
the file is looked for. -/
def write (t : FileTree) (path text : String) : Except FileError FileTree := do
  match ← t.follow path with
  | .entered _ => .error .isADirectory
  | .entry directory name =>
    if Path.endsInSlash path then .error .isADirectory
    else
      match ← t.lookUp directory name with
      | some (_, .directory) => .error .isADirectory
      | some (_, .sink) => .ok t
      | _ => .ok (t.put (directory ++ [name]) (.file text))

def makeDirectory (t : FileTree) (path : String) : Except FileError FileTree := do
  match ← t.follow path with
  | .entered _ => .error .alreadyExists
  | .entry directory name =>
    match ← t.lookUp directory name with
    | some _ => .error .alreadyExists
    | none => .ok (t.put (directory ++ [name]) .directory)

def pathOf (place : List String) : String := "/" ++ "/".intercalate place

/-- Puts the new tree in place of the old one, or fails. -/
def replaceBy (change : FileTree → Except FileError FileTree) :
    StateM FileTree (Except FileError Unit) := fun t =>
  match change t with
  | .ok t => (.ok (), t)
  | .error e => (.error e, t)

def files : Files (StateM FileTree) where
  currentDirectory := fun t => (pathOf t.current, t)
  kind? path := fun t => ((t.find path).toOption.map (·.2.kind), t)
  read path := fun t => (t.read path, t)
  write path text := replaceBy fun t => t.write path text
  makeDirectory path := replaceBy fun t => t.makeDirectory path

end FileTree
end LinkBridge.CommandLine
