import LinkBridge.Text.Digits

/-!
The register map.

Eight registers of 32 bits at a stride of four addresses.  `Register.ofAddress` is the only way
from an address to a register, so an access to any other address fails before it does anything.
-/

namespace LinkBridge

inductive Access where
  | readWrite
  | readOnly
  | strobe
deriving DecidableEq, Repr

inductive Register where
  | control
  | status
  | delay
  | txPattern
  | rxPattern
  | rxErrors
  | cyclesLatch
  | cycles
deriving DecidableEq, Repr

structure UnmappedAddress where
  address : UInt32
deriving DecidableEq, Repr

def UnmappedAddress.message (e : UnmappedAddress) : String :=
  "unmapped register address " ++ Digits.hex 4 e.address.toNat

namespace Register

/-- Registers by rising address. -/
def all : List Register :=
  [.control, .status, .delay, .txPattern, .rxPattern, .rxErrors, .cyclesLatch, .cycles]

def address : Register → UInt32
  | .control => 0x00
  | .status => 0x04
  | .delay => 0x08
  | .txPattern => 0x0c
  | .rxPattern => 0x10
  | .rxErrors => 0x14
  | .cyclesLatch => 0x18
  | .cycles => 0x1c

def name : Register → String
  | .control => "control"
  | .status => "status"
  | .delay => "delay"
  | .txPattern => "tx_pattern_control"
  | .rxPattern => "rx_pattern_control"
  | .rxErrors => "rx_pattern_errors"
  | .cyclesLatch => "cycles_latch"
  | .cycles => "cycles"

def access : Register → Access
  | .control | .delay | .txPattern | .rxPattern => .readWrite
  | .status | .rxErrors | .cycles => .readOnly
  | .cyclesLatch => .strobe

def ofAddress (address : UInt32) : Except UnmappedAddress Register :=
  match all.find? fun r => r.address = address with
  | some r => .ok r
  | none => .error ⟨address⟩

theorem ofAddress_address (r : Register) : ofAddress r.address = .ok r := by
  cases r <;> rfl

end Register
end LinkBridge
