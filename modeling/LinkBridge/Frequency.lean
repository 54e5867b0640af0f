import LinkBridge.Decimal.Literal
import LinkBridge.Decimal.Shortest
import LinkBridge.Time

/-!
Clock frequencies.

A frequency is a float in hertz.  It is read from a decimal literal with an optional unit in any
letter case, and shown in the largest unit that makes it at least one.
-/

namespace LinkBridge

structure Frequency where
  hz : Float
deriving Repr

namespace Frequency

def ofMHz (mhz : Float) : Frequency := ⟨mhz * 1e6⟩

def mhz (f : Frequency) : Float := f.hz / 1e6

/-- The period in whole femtoseconds, a half rounded up.  There is none for a frequency that is not
positive and finite, nor for one so high that its period rounds to nothing. -/
def period? (f : Frequency) : Option Time :=
  if f.hz.isFinite && f.hz > 0 then
    let period := Time.ofFloat (1e15 / f.hz)
    if period = .zero then none else some period
  else none

/-- Whether two frequencies differ by at most a tolerance in hertz. -/
def near (f g : Frequency) (tolerance : Float) : Bool := (f.hz - g.hz).abs ≤ tolerance

def text (f : Frequency) : String :=
  if f.hz ≥ 1e9 then Decimal.showFloat (f.hz / 1e9) ++ "GHz"
  else if f.hz ≥ 1e6 then Decimal.showFloat (f.hz / 1e6) ++ "MHz"
  else if f.hz ≥ 1e3 then Decimal.showFloat (f.hz / 1e3) ++ "KHz"
  else Decimal.showFloat f.hz ++ "Hz"

/-- Units with their size in hertz.  The first that ends the text counts, so the bare unit comes
last. -/
def units : List (String × Float) := [("ghz", 1e9), ("mhz", 1e6), ("khz", 1e3), ("hz", 1.0)]

/-- The number in front of a unit and the size of that unit; without a unit the text is in hertz. -/
def splitUnit (cs : List Char) : List Char × Float :=
  let found := units.findSome? fun (symbol, size) =>
    (Text.stripSuffix? cs symbol.toList).map fun number => (number, size)
  found.getD (cs, 1.0)

/-- A text that is no frequency, without its outer blanks. -/
structure ReadError where
  text : String
deriving DecidableEq, Repr

def ReadError.message (e : ReadError) : String := s!"invalid frequency: '{e.text}'"

/-- The frequency that a text writes.  The number must be finite and not below zero, whatever the
unit makes of it. -/
def read (text : String) : Except ReadError Frequency :=
  let cs := Text.trim text.toList
  let (number, size) := splitUnit (Text.asciiLower cs)
  match Decimal.readFloat? (Text.trim number) with
  | some x => if x.isFinite && !(x < 0) then .ok ⟨x * size⟩ else .error ⟨String.ofList cs⟩
  | none => .error ⟨String.ofList cs⟩

end Frequency
end LinkBridge
