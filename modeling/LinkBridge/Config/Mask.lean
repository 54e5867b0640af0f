import LinkBridge.Power
import LinkBridge.Text.Blank
import LinkBridge.Text.Digits

/-!
Loopback masks.

A mask of 32 bits is given as a number or as hexadecimal text.
-/

namespace LinkBridge.Mask

inductive ReadError where
  | tooLarge (n : Int)
  | notHex (text : String)
deriving DecidableEq, Repr

def ReadError.message : ReadError → String
  | .tooLarge n =>
    "mask " ++ (if n < 0 then "-" else "") ++ Digits.decimal n.natAbs ++ " does not fit in 32 bits"
  | .notHex text => s!"invalid hex mask '{text}'"

def ofInt (n : Int) : Except ReadError UInt32 :=
  if 0 ≤ n ∧ n < limit32 then .ok (UInt32.ofNat n.toNat) else .error (.tooLarge n)

/-- Drops the mark of a hexadecimal number, however often it is repeated. -/
def dropMarks : List Char → List Char
  | '0' :: 'x' :: rest => dropMarks rest
  | cs => cs

def dropPlus : List Char → List Char
  | '+' :: rest => rest
  | cs => cs

/-- The digits of a mask: underscores may stand anywhere after the mark, and a plus sign in
front. -/
def digits (text : String) : List Char :=
  dropPlus ((dropMarks (Text.trim text.toList)).filter (· != '_'))

def read (text : String) : Except ReadError UInt32 :=
  match Digits.read? 16 (digits text) with
  | some n => if n < limit32 then .ok (UInt32.ofNat n) else .error (.notHex text)
  | none => .error (.notHex text)

end LinkBridge.Mask
