import LinkBridge.Decimal.Literal
import LinkBridge.Power
import LinkBridge.Text.Reader

/-!
Numbers.

Integers have 64 bits with a sign and are decimal, hexadecimal, octal or binary; floats have a
fraction or an exponent, or are `inf` or `nan`.  A single underscore may stand between two digits.
-/

namespace LinkBridge.Toml

open Text

/-- Digits and single underscores between them, after a digit. -/
def moreDigits (isDigit : Char → Bool) : List Char → List Char × List Char
  | [] => ([], [])
  | c :: rest =>
    if isDigit c || (c == '_' && rest.head?.any isDigit) then
      let (digits, rest) := moreDigits isDigit rest
      (if c == '_' then digits else c :: digits, rest)
    else ([], c :: rest)

def digits (isDigit : Char → Bool) : Reader (List Char)
  | [] => none
  | c :: rest =>
    if isDigit c then
      let (digits, rest) := moreDigits isDigit rest
      some (c :: digits, rest)
    else none

def sign : List Char → List Char × List Char
  | '+' :: rest => (['+'], rest)
  | '-' :: rest => (['-'], rest)
  | cs => ([], cs)

/-- The whole part of a decimal number: no zero in front of another digit. -/
def wholePart : Reader (List Char)
  | '0' :: rest => some (['0'], rest)
  | cs => digits Char.isDigit cs

def exponent : Reader (List Char)
  | [] => none
  | c :: rest =>
    if c = 'e' ∨ c = 'E' then
      let (s, rest) := sign rest
      (digits Char.isDigit rest).map fun (d, rest) => ('e' :: s ++ d, rest)
    else none

def fraction : Reader (List Char)
  | '.' :: rest => (digits Char.isDigit rest).map fun (d, rest) => ('.' :: d, rest)
  | _ => none

/-- What makes a number a float: a fraction, an exponent, or both. -/
def floatTail (cs : List Char) : Option (List Char × List Char) :=
  match fraction cs with
  | some (f, rest) =>
    match exponent rest with
    | some (e, rest) => some (f ++ e, rest)
    | none => some (f, rest)
  | none => exponent cs

def specialFloat (negative : Bool) (cs : List Char) : Option (Float × List Char) :=
  match word? "inf" cs with
  | some rest => some (Binary64.infinity negative, rest)
  | none => (word? "nan" cs).map fun rest => (Binary64.notANumber, rest)

/-- A float.  Digits that go past the greatest one are refused; below the least there is
infinity. -/
def float (cs : List Char) : Option (Float × List Char) :=
  let (s, body) := sign cs
  match (wholePart body).bind fun (w, rest) => (floatTail rest).map fun (t, rest) => (w ++ t, rest)
  with
  | some (text, rest) =>
    (Decimal.readFloat? (s ++ text)).bind fun x =>
      if x == Binary64.infinity false then none else some (x, rest)
  | none => specialFloat (s == ['-']) body

/-- Integers have 64 bits with a sign. -/
def fits (n : Int) : Bool := -(limit63 : Int) ≤ n && n < limit63

def integerIn (base : Nat) (cs : List Char) : Option (Int × List Char) :=
  (digits (fun c => (Digits.value? base c).isSome) cs).bind fun (d, rest) =>
    (Digits.read? base d).bind fun n => if fits n then some (n, rest) else none

def decimalInteger (cs : List Char) : Option (Int × List Char) :=
  let (s, body) := sign cs
  (wholePart body).bind fun (d, rest) =>
    (Digits.read? 10 d).bind fun n =>
      let n : Int := if s == ['-'] then -n else n
      if fits n then some (n, rest) else none

def integer : Reader Int
  | '0' :: 'x' :: rest => integerIn 16 rest
  | '0' :: 'o' :: rest => integerIn 8 rest
  | '0' :: 'b' :: rest => integerIn 2 rest
  | cs => decimalInteger cs

end LinkBridge.Toml
