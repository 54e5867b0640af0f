import LinkBridge.Text.Digits

/-!
Delay taps and delay lines.

A delay line has 32 taps.  The bridge has one line for the clock it sends and one for the data it
receives, and loads both at once.
-/

namespace LinkBridge

structure DelayTap where
  index : Fin 32
deriving DecidableEq, Repr

namespace DelayTap

instance : Inhabited DelayTap := ⟨⟨0⟩⟩

def value (t : DelayTap) : Nat := t.index.val

structure RangeError where
  value : Nat
deriving DecidableEq, Repr

def RangeError.message (e : RangeError) : String :=
  "delay tap " ++ Digits.decimal e.value ++ " out of range (0..=31)"

def ofNat (n : Nat) : Except RangeError DelayTap :=
  if h : n < 32 then .ok ⟨⟨n, h⟩⟩ else .error ⟨n⟩

/-- The tap in the low five bits of a register field. -/
def ofField (bits : UInt32) : DelayTap :=
  ⟨⟨bits.toNat % 32, Nat.mod_lt _ (by decide)⟩⟩

def bits (t : DelayTap) : UInt32 := UInt32.ofNat t.value

def all : List DelayTap := (List.finRange 32).map DelayTap.mk

theorem ofNat_value (t : DelayTap) : ofNat t.value = .ok t := by
  exact dif_pos t.index.isLt

theorem ofField_bits (t : DelayTap) : ofField t.bits = t := by
  obtain ⟨i, h⟩ := t
  simp only [ofField, bits, value, UInt32.toNat_ofNat']
  congr
  omega

end DelayTap

/-- An inclusive range of taps, empty when its bounds are in the wrong order. -/
structure TapWindow where
  low : DelayTap
  high : DelayTap
deriving DecidableEq, Repr

def TapWindow.contains (w : TapWindow) (t : DelayTap) : Bool :=
  w.low.value ≤ t.value && t.value ≤ w.high.value

/-- A delay element holds one tap and powers up at the first. -/
structure DelayLine where
  tap : DelayTap := default
deriving DecidableEq, Repr

def DelayLine.load (_ : DelayLine) (tap : DelayTap) : DelayLine := { tap }

structure DelayPair where
  txClock : DelayLine := {}
  rxData : DelayLine := {}
deriving DecidableEq, Repr

/-- Loads both lines at once, so that no half-applied pair is ever seen. -/
def DelayPair.load (p : DelayPair) (tx rx : DelayTap) : DelayPair :=
  { txClock := p.txClock.load tx, rxData := p.rxData.load rx }

end LinkBridge
