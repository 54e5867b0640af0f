import LinkBridge.Bridge.Basic

/-!
Register access.

`readRegister` and `writeRegister` say what each register holds and does; `read` and `write` take
the address first, and fail for one without a register.
-/

namespace LinkBridge.Bridge

def readRegister (b : Bridge) : Register → UInt32
  | .control => b.control.control.bits
  | .status => b.status.bits
  | .delay => b.control.delay.bits
  | .txPattern => b.control.txPattern.bits
  | .rxPattern => b.control.rxPattern.bits
  | .rxErrors => b.control.errors
  | .cyclesLatch => 0
  | .cycles => b.control.cyclesLatched

/-- The control side after a write.  A write to a register that is only read does nothing; one to
the latch keeps the cycle count as it is seen now. -/
def writeControl (c : ControlSide) (value : UInt32) : Register → ControlSide
  | .control => { c with control := .ofBits value }
  | .delay =>
    let r := DelayReg.ofBits value
    { c with delay := r, delays := c.delays.load r.tx r.rx }
  | .txPattern => { c with txPattern := .ofBits value }
  | .rxPattern => { c with rxPattern := .ofBits value }
  | .cyclesLatch => { c with cyclesLatched := c.cyclesSeen }
  | .status | .rxErrors | .cycles => c

def writeRegister (b : Bridge) (r : Register) (value : UInt32) : Bridge :=
  { b with control := writeControl b.control value r }

def read (b : Bridge) (address : UInt32) : Except UnmappedAddress UInt32 :=
  (Register.ofAddress address).map b.readRegister

def write (b : Bridge) (address value : UInt32) : Except UnmappedAddress Bridge :=
  (Register.ofAddress address).map fun r => b.writeRegister r value

end LinkBridge.Bridge
