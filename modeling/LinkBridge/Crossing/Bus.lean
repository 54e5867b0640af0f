import LinkBridge.Crossing.Chain

/-!
Bus crossing.

A wide value crosses by a handshake.  The source captures a value into a holding register and flips
`ping`; the destination copies the holding register when it sees that flip and flips `pong`; the
source captures again when it sees that.  So the holding register never changes while it is being
copied.
-/

namespace LinkBridge.Crossing

structure BusSource (α : Type) where
  held : α
  ping : Bool := false
  pongChain : Chain Bool
  pongSeen : Bool := false
  started : Bool := false
deriving DecidableEq, Repr

structure BusDestination (α : Type) where
  copied : α
  pingChain : Chain Bool
  pingSeen : Bool := false
  pong : Bool := false
deriving DecidableEq, Repr

structure BusCrossing (α : Type) where
  source : BusSource α
  destination : BusDestination α
deriving DecidableEq, Repr

namespace BusCrossing

variable {α : Type}

def new (stages : Nat) (reset : α) : BusCrossing α :=
  { source := { held := reset, pongChain := Chain.new stages false },
    destination := { copied := reset, pingChain := Chain.new stages false } }

/-- A tick of the source that presents a value.  It is captured on the first tick, and then
whenever the last captured value is known to have been copied. -/
def sourceTick (b : BusCrossing α) (value : α) : BusCrossing α :=
  let s := b.source
  let pongChain := (s.pongChain.drive b.destination.pong).tick
  if !s.started || pongChain.output != s.pongSeen then
    { b with source :=
      { held := value, ping := !s.ping, pongChain, pongSeen := pongChain.output, started := true } }
  else { b with source := { s with pongChain } }

/-- A tick of the destination, which copies the held value once for each capture. -/
def destinationTick (b : BusCrossing α) : BusCrossing α :=
  let d := b.destination
  let pingChain := (d.pingChain.drive b.source.ping).tick
  if pingChain.output != d.pingSeen then
    { b with destination :=
      { copied := b.source.held, pingChain, pingSeen := pingChain.output, pong := !d.pong } }
  else { b with destination := { d with pingChain } }

def value (b : BusCrossing α) : α := b.destination.copied

end BusCrossing
end LinkBridge.Crossing
