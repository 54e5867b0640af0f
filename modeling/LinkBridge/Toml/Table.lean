import LinkBridge.Datum
import LinkBridge.Toml.Key

/-!
Tables while they are read.

A table remembers how it came to be, because that decides what may still be added: a header may
define a table once, also after another header has implied it, and dotted keys may only go on in
tables that dotted keys have made.  Entries stay in the order in which they were made.
-/

namespace LinkBridge.Toml

inductive Origin where
  | defined
  | implied
  | dotted
deriving DecidableEq, Repr

/-- An entry of a table: a value, a table, or the tables that headers in double brackets have made,
the newest first. -/
inductive Node where
  | leaf (value : Datum)
  | table (origin : Origin) (entries : List (String × Node))
  | tables (newest : List (String × Node)) (older : List (List (String × Node)))
deriving Inhabited

abbrev Entries := List (String × Node)

namespace Entries

def add (es : Entries) (name : String) (node : Node) : Entries := es ++ [(name, node)]

def replace (es : Entries) (name : String) (node : Node) : Entries :=
  es.map fun e => if e.1 = name then (name, node) else e

def erase (es : Entries) (name : String) : Entries := es.filter fun e => e.1 ≠ name

/-- Changes the entries of the table at the end of a path.  Tables on the way that are not there
yet are implied; of several tables of one name the newest is meant. -/
def changeAt (change : Entries → Option Entries) (es : Entries) : List String → Option Entries
  | [] => change es
  | name :: path =>
    match es.lookup name with
    | none => (changeAt change [] path).map fun inner => es.add name (.table .implied inner)
    | some (.leaf _) => none
    | some (.table origin inner) =>
      (changeAt change inner path).map fun inner => es.replace name (.table origin inner)
    | some (.tables newest older) =>
      (changeAt change newest path).map fun newest => es.replace name (.tables newest older)

/-- Defines a table under a name.  One that was only implied keeps its entries and is moved to the
end. -/
def define (name : String) (es : Entries) : Option Entries :=
  match es.lookup name with
  | none => some (es.add name (.table .defined []))
  | some (.table .implied inner) => some ((es.erase name).add name (.table .defined inner))
  | some _ => none

def append (name : String) (es : Entries) : Option Entries :=
  match es.lookup name with
  | none => some (es.add name (.tables [] []))
  | some (.tables newest older) => some (es.replace name (.tables [] (newest :: older)))
  | some _ => none

/-- Adds a value to a table, which must be dotted exactly if a path leads there. -/
def insert (name : String) (value : Datum) (led dotted : Bool) (es : Entries) :
    Option Entries :=
  if led != dotted || (es.lookup name).isSome then none else some (es.add name (.leaf value))

/-- Adds a value at the end of a path of dotted tables.  `led` says whether a part of the path has
been gone already, and `dotted` whether this table is a dotted one. -/
def assignFrom (name : String) (value : Datum) (led dotted : Bool) (es : Entries) :
    List String → Option Entries
  | [] => insert name value led dotted es
  | part :: path =>
    match es.lookup part with
    | none =>
      (assignFrom name value true true [] path).map fun inner =>
        es.add part (.table .dotted inner)
    | some (.leaf _) => none
    | some (.table .defined _) => none
    | some (.table origin inner) =>
      (assignFrom name value true (origin == .dotted) inner path).map fun inner =>
        es.replace part (.table origin inner)
    | some (.tables newest older) =>
      (assignFrom name value true false newest path).map fun newest =>
        es.replace part (.tables newest older)

/-- Adds a value under a key to a defined table. -/
def assign (key : Key) (value : Datum) (es : Entries) : Option Entries :=
  assignFrom key.name value false false es key.path

/-- Adds values under their keys, one after the other. -/
def assignAll (es : Entries) : List (Key × Datum) → Option Entries
  | [] => some es
  | (key, value) :: rest => (es.assign key value).bind fun es => assignAll es rest

end Entries

mutual

def Node.datum : Node → Datum
  | .leaf value => value
  | .table _ entries => .table (entryData entries)
  | .tables newest older => .list (tableData older [.table (entryData newest)])

def entryData : List (String × Node) → List (String × Datum)
  | [] => []
  | (name, node) :: rest => (name, node.datum) :: entryData rest

/-- Tables listed newest first, put in front of later ones in their order. -/
def tableData : List (List (String × Node)) → List Datum → List Datum
  | [], later => later
  | entries :: older, later => tableData older (.table (entryData entries) :: later)

end

end LinkBridge.Toml
