/-!
Data as texts write them.

A `Datum` is what a TOML or a JSON text says, before anything is known about what it is for.
Tables keep their entries in order and never have two of one name.
-/

namespace LinkBridge

/-- A date or time has no use here, so nothing is kept of it. -/
inductive Datum where
  | null
  | flag (b : Bool)
  | integer (n : Int)
  | real (x : Float)
  | text (s : String)
  | moment
  | list (items : List Datum)
  | table (entries : List (String × Datum))
deriving Repr, Inhabited

namespace Datum

def nat (n : Nat) : Datum := .integer n

def entry? (name : String) : Datum → Option Datum
  | .table entries => entries.lookup name
  | _ => none

end Datum
end LinkBridge
