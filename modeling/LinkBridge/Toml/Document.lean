import LinkBridge.Toml.Value

/-!
Documents.

A document is a list of lines: headers, which say in which table the following lines are, and pairs
of a key and a value.  `Document.read` reads a whole text, or nothing if any part of it is
malformed.
-/

namespace LinkBridge.Toml

open Text

inductive Statement where
  | header (key : Key)
  | listHeader (key : Key)
  | pair (key : Key) (value : Datum)

namespace Statement

/-- A statement up to the end of its last line. -/
def read : Reader Statement
  | '[' :: '[' :: rest =>
    match Key.read rest with
    | some (key, ']' :: ']' :: rest) => some (.listHeader key, rest)
    | _ => none
  | '[' :: rest =>
    match Key.read rest with
    | some (key, ']' :: rest) => some (.header key, rest)
    | _ => none
  | cs => (Toml.pair (value maxNesting) cs).map fun ((key, v), rest) => (.pair key v, rest)

def readAll (cs : List Char) : Option (List Statement) :=
  match skipGap cs with
  | [] => some []
  | start =>
    match (read start).bind fun (s, rest) => (nextLine? rest).map fun rest => (s, rest) with
    | none => none
    | some (s, rest) =>
      if _h : rest.length < cs.length then (readAll rest).map fun ss => s :: ss else none
termination_by cs.length

end Statement

/-- A document: all its entries, and the path of the table that lines are added to. -/
structure Document where
  entries : Entries := []
  current : List String := []
deriving Inhabited

namespace Document

def add (d : Document) : Statement → Option Document
  | .header key =>
    (d.entries.changeAt (Entries.define key.name) key.path).map fun entries =>
      { entries, current := key.path ++ [key.name] }
  | .listHeader key =>
    (d.entries.changeAt (Entries.append key.name) key.path).map fun entries =>
      { entries, current := key.path ++ [key.name] }
  | .pair key value =>
    (d.entries.changeAt (Entries.assign key value) d.current).map fun entries =>
      { d with entries }

def addAll (d : Document) : List Statement → Option Document
  | [] => some d
  | s :: rest => (d.add s).bind fun d => addAll d rest

/-- A text without the mark of the byte order in front. -/
def withoutMark : List Char → List Char
  | '\ufeff' :: rest => rest
  | cs => cs

def read (text : String) : Option Datum := do
  let statements ← Statement.readAll (unifyLineEnds (withoutMark text.toList))
  let document ← addAll {} statements
  return .table (entryData document.entries)

end Document
end LinkBridge.Toml
