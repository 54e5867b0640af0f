import LinkBridge.Datum
import LinkBridge.Decimal.Shortest
import LinkBridge.Text.Digits

/-!
JSON text of data.

Data are laid out with one entry or element on a line and two blanks for each level, or without any
blanks at all.  Moments have no JSON form and are written as null.
-/

namespace LinkBridge.Json

/-- A character inside a string: quotes, backslashes and control characters are escaped. -/
def escape (c : Char) : List Char :=
  if c = '\x22' ∨ c = '\\' then ['\\', c]
  else if c = '\n' then ['\\', 'n']
  else if c = '\r' then ['\\', 'r']
  else if c = '\t' then ['\\', 't']
  else if c < ' ' then ['\\', 'u'] ++ Digits.padLeft 4 '0' (Digits.render 16 c.toNat)
  else [c]

def quoted (s : String) : String := "\"" ++ String.ofList (s.toList.flatMap escape) ++ "\""

def integer (n : Int) : String := (if n < 0 then "-" else "") ++ Digits.decimal n.natAbs

def indent (level : Nat) : String := String.ofList (List.replicate (2 * level) ' ')

/-- Items between brackets, each on a line of its own one level further in. -/
def block (level : Nat) (opening closing : String) (items : List String) : String :=
  if items.isEmpty then opening ++ closing
  else
    opening ++ "\n" ++
      ",\n".intercalate (items.map fun item => indent (level + 1) ++ item) ++
      "\n" ++ indent level ++ closing

mutual

def pretty (level : Nat) : Datum → String
  | .null | .moment => "null"
  | .flag b => if b then "true" else "false"
  | .integer n => integer n
  | .real x => Decimal.showFloat x
  | .text s => quoted s
  | .list items => block level "[" "]" (prettyItems (level + 1) items)
  | .table entries => block level "\x7b" "\x7d" (prettyEntries (level + 1) entries)

def prettyItems (level : Nat) : List Datum → List String
  | [] => []
  | d :: rest => pretty level d :: prettyItems level rest

def prettyEntries (level : Nat) : List (String × Datum) → List String
  | [] => []
  | (name, d) :: rest => (quoted name ++ ": " ++ pretty level d) :: prettyEntries level rest

end

mutual

def compact : Datum → String
  | .null | .moment => "null"
  | .flag b => if b then "true" else "false"
  | .integer n => integer n
  | .real x => Decimal.showFloat x
  | .text s => quoted s
  | .list items => "[" ++ ",".intercalate (compactItems items) ++ "]"
  | .table entries => "\x7b" ++ ",".intercalate (compactEntries entries) ++ "\x7d"

def compactItems : List Datum → List String
  | [] => []
  | d :: rest => compact d :: compactItems rest

def compactEntries : List (String × Datum) → List String
  | [] => []
  | (name, d) :: rest => (quoted name ++ ":" ++ compact d) :: compactEntries rest

end

end LinkBridge.Json
