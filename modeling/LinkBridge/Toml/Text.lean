import LinkBridge.Decimal.Shortest
import LinkBridge.Text.Digits

/-!
TOML text.

How values, and sections of named values, are written.
-/

namespace LinkBridge.Toml

/-- A character inside a quoted string: quotes, backslashes and control characters are escaped. -/
def escape (c : Char) : List Char :=
  if c = '\x22' ∨ c = '\\' then ['\\', c]
  else if c = '\n' then ['\\', 'n']
  else if c < ' ' ∨ c = '\x7f' then
    ['\\', 'u'] ++ Digits.padLeft 4 '0' (Digits.render 16 c.toNat)
  else [c]

def quoted (s : String) : String := "\"" ++ String.ofList (s.toList.flatMap escape) ++ "\""

/-- A float always shows that it is one: a whole number gets a fraction. -/
def floatText (x : Float) : String :=
  let text := Decimal.showFloat x
  if x.isNaN then "nan"
  else if x.isFinite && text.toList.all (· != '.') then text ++ ".0"
  else text

def flagText (b : Bool) : String := if b then "true" else "false"

/-- A list with each element on a line of its own. -/
def listText (items : List String) : String :=
  "[\n" ++ String.join (items.map fun item => "    " ++ item ++ ",\n") ++ "]"

/-- A header and a line for each entry, whose values are given as text. -/
def sectionText (name : String) (entries : List (String × String)) : String :=
  "[" ++ name ++ "]\n" ++
    String.join (entries.map fun (key, value) => key ++ " = " ++ value ++ "\n")

end LinkBridge.Toml
