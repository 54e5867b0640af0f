/-!
Link clock activity.

The link domain gives a pulse every sixteen cycles.  The control domain counts pulses over a window
of its own cycles, and at the end of each window the link clock counts as active if there was one.
A window can have more pulses than the counter can tell, so the counter stops at its largest value.
-/

namespace LinkBridge

def activityDivisor : Nat := 16

structure ActivityDivider where
  count : Nat := 0
deriving DecidableEq, Repr

/-- A link cycle, and whether a pulse is due. -/
def ActivityDivider.tick (d : ActivityDivider) : ActivityDivider × Bool :=
  let count := (d.count + 1) % activityDivisor
  ({ count }, count = 0)

/-- The next count, or the same one if there is none. -/
def saturatingSucc (count : UInt32) : UInt32 := if count + 1 = 0 then count else count + 1

/-- `elapsed` cycles of the current window are over, and so many of them had a pulse. -/
structure ActivityMonitor where
  window : Nat
  elapsed : Nat := 0
  pulses : UInt32 := 0
  active : Bool := false
deriving DecidableEq, Repr

namespace ActivityMonitor

/-- A window is at least one cycle long. -/
def new (window : Nat) : ActivityMonitor := { window := max window 1 }

/-- The pulses of the window with this cycle. -/
def counted (m : ActivityMonitor) (pulse : Bool) : UInt32 :=
  if pulse then saturatingSucc m.pulses else m.pulses

def tick (m : ActivityMonitor) (pulse : Bool) : ActivityMonitor :=
  let pulses := m.counted pulse
  if m.elapsed + 1 ≥ m.window then { m with elapsed := 0, pulses := 0, active := pulses ≠ 0 }
  else { m with elapsed := m.elapsed + 1, pulses }

def ticks (m : ActivityMonitor) (pulse : Bool) : Nat → ActivityMonitor
  | 0 => m
  | n + 1 => (m.tick pulse).ticks pulse n

end ActivityMonitor
end LinkBridge
