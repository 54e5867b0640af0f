import LinkBridge.Config.Mask
import LinkBridge.Decimal.Binary64
import LinkBridge.Datum

/-!
Decoding data.

A decoder turns a datum into a value of a type, or says why it is none.  Sections are lists of
named fields, each of which replaces its default.
-/

namespace LinkBridge

/-- The format that data were written in.  The two differ in how strict they are. -/
inductive Format where
  | toml
  | json
deriving DecidableEq, Repr

inductive DecodeError where
  | wrongKind
  | outOfRange (n : Int)
  | wrongLength (length : Nat)
  | unknownField (name : String)
  | unknownName (name : String)
  | mask (error : Mask.ReadError)
deriving DecidableEq, Repr

def DecodeError.message : DecodeError → String
  | .wrongKind => "a value of another kind is expected"
  | .outOfRange n => s!"{n} is out of range"
  | .wrongLength length => s!"a list of {length} elements is not expected"
  | .unknownField name => s!"unknown field '{name}'"
  | .unknownName name => s!"unknown name '{name}'"
  | .mask error => error.message

abbrev Decoder (α : Type) := Format → Datum → Except DecodeError α

namespace Decode

def text : Decoder String
  | _, .text s => .ok s
  | _, _ => .error .wrongKind

def flag : Decoder Bool
  | _, .flag b => .ok b
  | _, _ => .error .wrongKind

def natural (limit : Nat) : Decoder Nat
  | _, .integer n => if 0 ≤ n ∧ n < limit then .ok n.toNat else .error (.outOfRange n)
  | _, _ => .error .wrongKind

/-- A number, of which a whole one is taken as the nearest float. -/
def real : Decoder Float
  | _, .real x => .ok x
  | _, .integer n => .ok (Binary64.ofInt n)
  | _, _ => .error .wrongKind

def mask : Decoder UInt32
  | _, .integer n => (Mask.ofInt n).mapError .mask
  | _, .text s => (Mask.read s).mapError .mask
  | _, _ => .error .wrongKind

/-- Two elements.  Only TOML allows more after them. -/
def pair {α : Type} (element : Decoder α) : Decoder (α × α)
  | format, .list (a :: b :: more) => do
    let a ← element format a
    let b ← element format b
    if format = .json ∧ !more.isEmpty then .error (.wrongLength (2 + more.length)) else .ok (a, b)
  | _, .list items => .error (.wrongLength items.length)
  | _, _ => .error .wrongKind

def isEmptyContent : Format → Datum → Bool
  | .toml, .table entries => entries.isEmpty
  | .toml, .list items => items.isEmpty
  | .json, .null => true
  | _, _ => false

/-- One of some values by its name.  The name may stand as the only entry of a table. -/
def choice {α : Type} (all : List α) (name : α → String) : Decoder α := fun format datum =>
  let find (s : String) : Except DecodeError α :=
    match all.find? fun a => name a = s with
    | some a => .ok a
    | none => .error (.unknownName s)
  match datum with
  | .text s => find s
  | .table [(s, content)] =>
    if isEmptyContent format content then find s else .error .wrongKind
  | _ => .error .wrongKind

end Decode

/-- A named part of a section: it decodes a setting and puts the value into the section. -/
structure Field (σ : Type) where
  name : String
  put : Format → Datum → σ → Except DecodeError σ

namespace Field

def of {σ α : Type} (name : String) (decode : Decoder α) (set : σ → α → σ) : Field σ :=
  { name, put := fun format datum s => (decode format datum).map (set s) }

/-- Puts the entries of a table into their fields, in the order of the table. -/
def putEntries {σ : Type} (fields : List (Field σ)) (format : Format) (start : σ) :
    List (String × Datum) → Except DecodeError σ
  | [] => .ok start
  | (name, datum) :: rest =>
    match fields.find? fun f => f.name = name with
    | some f => (f.put format datum start).bind fun s => putEntries fields format s rest
    | none => .error (.unknownField name)

/-- Puts the elements of a list into the fields, in the order of the fields. -/
def putItems {σ : Type} (format : Format) (start : σ) :
    List (Field σ) → List Datum → Except DecodeError σ
  | f :: fields, datum :: rest =>
    (f.put format datum start).bind fun s => putItems format s fields rest
  | _, [] => .ok start
  | [], more => if format = .json then .error (.wrongLength more.length) else .ok start

def decoder {σ : Type} (fields : List (Field σ)) (start : σ) : Decoder σ
  | format, .table entries => putEntries fields format start entries
  | format, .list items => putItems format start fields items
  | _, _ => .error .wrongKind

end Field
end LinkBridge
