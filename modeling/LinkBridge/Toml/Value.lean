import LinkBridge.Toml.Moment
import LinkBridge.Toml.Number
import LinkBridge.Toml.Table

/-!
Values.

Strings, numbers, flags, dates and times; lists, which may go over several lines; and tables on one
line.
-/

namespace LinkBridge.Toml

open Text

/-- A number or a moment.  A text that starts like both is what takes more of it, so moments come
first and integers last. -/
def number (cs : List Char) : Option (Datum × List Char) :=
  match Moment.skip? cs with
  | some rest => some (.moment, rest)
  | none =>
    match float cs with
    | some (x, rest) => some (.real x, rest)
    | none => (integer cs).map fun (n, rest) => (.integer n, rest)

/-- A flag, or a float that is written as a word. -/
def wordValue (cs : List Char) : Option (Datum × List Char) :=
  match word? "true" cs with
  | some rest => some (.flag true, rest)
  | none =>
    match word? "false" cs with
    | some rest => some (.flag false, rest)
    | none => (specialFloat false cs).map fun (x, rest) => (.real x, rest)

/-- The elements of a list up to its closing bracket, the opening one being read.  A comma may
follow the last. -/
def listItems (value : Reader Datum) (cs : List Char) : Option (List Datum × List Char) :=
  match skipGap cs with
  | ']' :: rest => some ([], rest)
  | start =>
    match value start with
    | none => none
    | some (v, rest) =>
      match skipGap rest with
      | ']' :: rest => some ([v], rest)
      | ',' :: rest =>
        if _h : rest.length < cs.length then
          (listItems value rest).map fun (vs, rest) => (v :: vs, rest)
        else none
      | _ => none
termination_by cs.length

def pair (value : Reader Datum) (cs : List Char) : Option ((Key × Datum) × List Char) :=
  match Key.read cs with
  | some (key, '=' :: rest) => (value (skipSpaces rest)).map fun (v, rest) => ((key, v), rest)
  | _ => none

def spacedPair (value : Reader Datum) (cs : List Char) : Option ((Key × Datum) × List Char) :=
  (pair value cs).map fun (p, rest) => (p, skipSpaces rest)

/-- The pairs of a table on one line up to its closing brace, the opening one being read. -/
def tablePairs (value : Reader Datum) (cs : List Char) :
    Option (List (Key × Datum) × List Char) :=
  match skipSpaces cs with
  | '\x7d' :: rest => some ([], rest)
  | start =>
    match separated (spacedPair value) ',' start with
    | some (pairs, '\x7d' :: rest) => some (pairs, rest)
    | _ => none

/-- A table on one line is complete: later keys add nothing to it. -/
def inlineTable (value : Reader Datum) (cs : List Char) : Option (Datum × List Char) :=
  (tablePairs value cs).bind fun (pairs, rest) =>
    (Entries.assignAll [] pairs).map fun es => (.table (entryData es), rest)

/-- A value with at most so many lists and tables around one another. -/
def value (depth : Nat) (cs : List Char) : Option (Datum × List Char) :=
  match cs with
  | [] => none
  | c :: rest =>
    if c = '\x22' ∨ c = '\x27' then (anyString c rest).map fun (s, rest) => (.text s, rest)
    else if c = '[' then
      match depth with
      | 0 => none
      | depth + 1 => (listItems (value depth) rest).map fun (vs, rest) => (.list vs, rest)
    else if c = '\x7b' then
      match depth with
      | 0 => none
      | depth + 1 => inlineTable (value depth) rest
    else if c = '+' ∨ c = '-' ∨ c.isDigit then number (c :: rest)
    else wordValue (c :: rest)

end LinkBridge.Toml
