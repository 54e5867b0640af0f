import LinkBridge.DelayTap
import LinkBridge.Pattern.Prbs

/-!
Register fields.

Each register with fields has a structure, an encoding into 32 bits and a decoding that ignores
every bit outside the fields.
-/

namespace LinkBridge

def bitAt (bits : UInt32) (index : UInt32) : Bool := (bits >>> index) &&& 1 != 0

def bitIf (b : Bool) (index : UInt32) : UInt32 := b.toUInt32 <<< index

structure ControlReg where
  reset : Bool := false
  powerDown : Bool := false
  txEnable : Bool := true
  rxEnable : Bool := true
  loopback : Bool := false
deriving DecidableEq, Repr

namespace ControlReg

def ofBits (bits : UInt32) : ControlReg :=
  { reset := bitAt bits 0, powerDown := bitAt bits 1, txEnable := bitAt bits 8,
    rxEnable := bitAt bits 9, loopback := bitAt bits 16 }

def bits (r : ControlReg) : UInt32 :=
  bitIf r.reset 0 ||| bitIf r.powerDown 1 ||| bitIf r.txEnable 8 ||| bitIf r.rxEnable 9 |||
    bitIf r.loopback 16

end ControlReg

structure StatusReg where
  rxClockActive : Bool := false
  rxFrameActive : Bool := false
  rxFrameAligned : Bool := false
deriving DecidableEq, Repr

namespace StatusReg

def ofBits (bits : UInt32) : StatusReg :=
  { rxClockActive := bitAt bits 0, rxFrameActive := bitAt bits 1, rxFrameAligned := bitAt bits 2 }

def bits (r : StatusReg) : UInt32 :=
  bitIf r.rxClockActive 0 ||| bitIf r.rxFrameActive 1 ||| bitIf r.rxFrameAligned 2

end StatusReg

structure DelayReg where
  tx : DelayTap := default
  rx : DelayTap := default
deriving DecidableEq, Repr

namespace DelayReg

def ofBits (bits : UInt32) : DelayReg :=
  { tx := DelayTap.ofField bits, rx := DelayTap.ofField (bits >>> 8) }

def bits (r : DelayReg) : UInt32 := r.tx.bits ||| (r.rx.bits <<< 8)

end DelayReg

structure PatternControl where
  enable : Bool := false
  mode : PatternMode := .count
deriving DecidableEq, Repr

namespace PatternControl

def ofBits (bits : UInt32) : PatternControl :=
  { enable := bitAt bits 0, mode := if bitAt bits 1 then .prbs else .count }

def bits (r : PatternControl) : UInt32 :=
  bitIf r.enable 0 ||| bitIf (r.mode == .prbs) 1

end PatternControl
end LinkBridge
