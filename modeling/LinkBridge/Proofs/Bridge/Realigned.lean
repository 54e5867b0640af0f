import LinkBridge.Proofs.Bridge.Session

/-!
Bridges that differ in their alignment.

Whether a stream is late shows in the aligner's state, in the sample at the boundary and in the
alignment flag that crosses to the control side.  Nothing else of the bridge depends on these three,
as long as the aligner gives out the same samples.
-/

namespace LinkBridge

open Crossing

/-- What a bridge knows of the alignment of its stream. -/
structure Alignment where
  aligner : Aligner
  rxBoundary : LinkSample
  crossing : Chain Bool
  seen : Bool

namespace Bridge

def alignment (b : Bridge) : Alignment :=
  { aligner := b.link.aligner, rxBoundary := b.link.rxBoundary, crossing := b.crossings.aligned,
    seen := b.control.aligned }

def realigned (b : Bridge) (al : Alignment) : Bridge :=
  { control := { b.control with aligned := al.seen }
    link := { b.link with aligner := al.aligner, rxBoundary := al.rxBoundary }
    crossings := { b.crossings with aligned := al.crossing } }

variable (b : Bridge) (al : Alignment)

theorem writeRegister_realigned (r : Register) (value : UInt32) :
    (b.realigned al).writeRegister r value = (b.writeRegister r value).realigned al := by
  cases r <;> rfl

theorem tickControl_realigned (t : Transport) :
    (b.realigned al).tickControl t =
      ((b.tickControl t).1.realigned ((b.realigned al).tickControl t).1.alignment,
        (b.tickControl t).2) := rfl

theorem tickLink_realigned {r r' : LinkSample}
    (hout : (al.aligner.tick ((b.realigned al).boundary r')).2 =
      (b.link.aligner.tick (b.boundary r)).2) :
    (b.realigned al).tickLink r' =
      (b.tickLink r).realigned ((b.realigned al).tickLink r').alignment := by
  have hrouted : (b.realigned al).link.routed b.linkControls ((b.realigned al).boundary r') =
      b.link.routed b.linkControls (b.boundary r) := by
    unfold LinkSide.routed
    rw [← hout]
    rfl
  have hrebuild : (b.realigned al).link.rebuild b.linkControls ((b.realigned al).boundary r') =
      b.link.rebuild b.linkControls (b.boundary r) := by
    unfold LinkSide.rebuild
    rw [hrouted]
    rfl
  have hrebuilt : (b.realigned al).rebuilt r' = b.rebuilt r := congrArg Prod.snd hrebuild
  have hchecker : ((b.realigned al).tickLink r').link.checker = (b.tickLink r).link.checker := by
    have hcontrols : (b.realigned al).linkControls = b.linkControls := rfl
    rw [checker_tickLink, checker_tickLink, hcontrols, hrouted]
    rfl
  apply Bridge.ext
  · rfl
  · apply LinkSide.ext
    case rxConverter => exact congrArg Prod.fst hrebuild
    case checker => exact hchecker
    case overflows =>
      show ((b.realigned al).tickLink r').link.overflows = (b.tickLink r).link.overflows
      rw [overflows_tickLink, overflows_tickLink, hrebuilt]
      rfl
    all_goals rfl
  · apply Crossings.ext
    case rxFifo =>
      show ((b.realigned al).tickLink r').crossings.rxFifo = (b.tickLink r).crossings.rxFifo
      rw [rxFifo_tickLink, rxFifo_tickLink, hrebuilt]
      rfl
    case errors =>
      show ((b.realigned al).tickLink r').crossings.errors = (b.tickLink r).crossings.errors
      rw [errors_tickLink, errors_tickLink, hchecker]
      rfl
    all_goals rfl
end Bridge
end LinkBridge
