import LinkBridge.Decimal.Binary64
import LinkBridge.Power
import LinkBridge.Text.Blank
import LinkBridge.Text.Digits

/-!
Decimal literals of floats.

A literal is an optional sign and then digits with an optional point and an optional exponent, with
a digit on at least one side of the point; or one of the words `inf`, `infinity` and `nan` in any
letter case.  The value is the nearest float.
-/

namespace LinkBridge.Decimal

/-- A literal without its sign: `digits * 10 ^ scale`, or one of the words. -/
inductive Literal where
  | number (digits : Nat) (scale : Int)
  | infinite
  | nan
deriving DecidableEq, Repr

def takeSign : List Char → Bool × List Char
  | '-' :: rest => (true, rest)
  | '+' :: rest => (false, rest)
  | cs => (false, cs)

/-- The value of a run of decimal digits, which may be empty. -/
def digitsValue (cs : List Char) : Nat := (Digits.readOnto 10 0 cs).getD 0

/-- An exponent, with its mark already taken: an optional sign and digits to the end. -/
def readExponent (cs : List Char) : Option Int :=
  let (negative, digits) := takeSign cs
  (Digits.read? 10 digits).map fun n => if negative then -(n : Int) else n

/-- A literal without its sign, to the end of the text. -/
def Literal.read? (cs : List Char) : Option Literal :=
  let word := Text.asciiLower cs
  if word = ['i', 'n', 'f'] ∨ word = ['i', 'n', 'f', 'i', 'n', 'i', 't', 'y'] then some .infinite
  else if word = ['n', 'a', 'n'] then some .nan
  else
    let whole := cs.takeWhile Char.isDigit
    let rest := cs.dropWhile Char.isDigit
    let (fraction, rest) :=
      match rest with
      | '.' :: tail => (tail.takeWhile Char.isDigit, tail.dropWhile Char.isDigit)
      | _ => ([], rest)
    if whole.isEmpty && fraction.isEmpty then none
    else
      let digits := digitsValue (whole ++ fraction)
      let scale : Int := -(fraction.length : Int)
      match rest with
      | [] => some (.number digits scale)
      | c :: tail =>
        if c = 'e' ∨ c = 'E' then (readExponent tail).map fun e => .number digits (scale + e)
        else none

/-- No finite positive float is below `10 ^ -400` or above `10 ^ 400`. -/
def exponentBound : Int := 400

/-- The nearest float.  Numbers far outside the range are settled by their count of digits, so
that no power of ten larger than the bound is ever computed. -/
def Literal.toFloat (negative : Bool) : Literal → Float
  | .infinite => Binary64.infinity negative
  | .nan => Binary64.notANumber
  | .number digits scale =>
    let top := (Digits.render 10 digits).length + scale
    if digits = 0 then Binary64.nearest negative 0 1
    else if top > exponentBound then Binary64.infinity negative
    else if top < -exponentBound then Binary64.nearest negative 0 1
    else if scale < 0 then Binary64.nearest negative digits (pow10 (-scale).toNat)
    else Binary64.nearest negative (digits * pow10 scale.toNat) 1

def readFloat? (cs : List Char) : Option Float :=
  let (negative, rest) := takeSign cs
  (Literal.read? rest).map (Literal.toFloat negative)

end LinkBridge.Decimal
