/-!
Polarity of the control pins.

A polarity turns an asserted signal into a pin level and a pin level back into an assertion; the
two directions are the same function.  `Pins` are the four levels that the bridge drives and the
transceiver reads, each side through its own `PinPolarity`.
-/

namespace LinkBridge

inductive Polarity where
  | activeHigh
  | activeLow
deriving DecidableEq, Repr, Inhabited

namespace Polarity

def level : Polarity → Bool → Bool
  | .activeHigh, asserted => asserted
  | .activeLow, asserted => !asserted

/-- Whether a pin level asserts the signal. -/
def asserted (p : Polarity) (pin : Bool) : Bool := p.level pin

theorem asserted_level (p : Polarity) (b : Bool) : p.asserted (p.level b) = b := by
  cases p <;> cases b <;> rfl

def name : Polarity → String
  | .activeHigh => "active_high"
  | .activeLow => "active_low"

def all : List Polarity := [.activeHigh, .activeLow]

end Polarity

structure PinPolarity where
  reset : Polarity := .activeLow
  powerDown : Polarity := .activeLow
  txEnable : Polarity := .activeHigh
  rxEnable : Polarity := .activeHigh
deriving DecidableEq, Repr

instance : Inhabited PinPolarity := ⟨{}⟩

structure Pins where
  reset : Bool
  powerDown : Bool
  txEnable : Bool
  rxEnable : Bool
deriving DecidableEq, Repr

end LinkBridge
