import LinkBridge.Crossing.Chain

/-!
Pulse crossing.

A pulse flips a level in the source domain; the destination sees the level through a chain and
reports each change.  Two pulses between two ticks cancel out.
-/

namespace LinkBridge.Crossing

structure PulseCrossing where
  level : Bool := false
  chain : Chain Bool
  seen : Bool := false
deriving DecidableEq, Repr

namespace PulseCrossing

def new (stages : Nat) : PulseCrossing := { chain := Chain.new stages false }

def pulse (p : PulseCrossing) : PulseCrossing := { p with level := !p.level }

/-- A tick of the destination, and whether it saw a change. -/
def tick (p : PulseCrossing) : PulseCrossing × Bool :=
  let chain := (p.chain.drive p.level).tick
  ({ p with chain, seen := chain.output }, chain.output != p.seen)

end PulseCrossing
end LinkBridge.Crossing
