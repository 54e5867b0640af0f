import LinkBridge.Bridge.Basic
import LinkBridge.Routing
import LinkBridge.Transport

/-!
One cycle of each domain.

`tickControl` moves words between the transport and the queues, drives the controls towards the
link and takes in its status.  `tickLink` is a transmit half, a receive half and the status that
goes back.  The two may be called in any order.
-/

namespace LinkBridge

open Crossing

/-- The controls that the link domain works under in one cycle. -/
structure LinkControls where
  loopback : Bool := false
  tx : PatternControl := {}
  rx : PatternControl := {}
deriving DecidableEq, Repr

namespace Crossings

def tickControls (x : Crossings) : Crossings :=
  { x with
    loopback := x.loopback.tick
    txPattern := x.txPattern.tick
    rxPattern := x.rxPattern.tick }

def controls (x : Crossings) : LinkControls :=
  { loopback := x.loopback.output, tx := x.txPattern.output, rx := x.rxPattern.output }

end Crossings

namespace LinkSide

/-- Whether the coming cycle carries first halves. -/
def firstSlot (l : LinkSide) : Bool := l.frame == frameFirst

def generate (l : LinkSide) (pattern : PatternControl) : Generator × Option LinkWord :=
  l.generator.tick pattern.enable pattern.mode l.firstSlot

/-- The word that the converter takes from the queue. -/
def takes (l : LinkSide) (fifo : Fifo SampleWord) (generating : Bool) : Option SampleWord :=
  if Routing.converterReady generating (l.txConverter.ready l.firstSlot) then fifo.peek else none

/-- The converter's part of a link cycle.  It is not clocked while the generator owns the link, so
a half-sent word goes on afterwards. -/
def convert (l : LinkSide) (generating : Bool) (input : Option SampleWord) :
    TxConverter × Option LinkWord :=
  if generating then (l.txConverter, none) else l.txConverter.tick l.firstSlot input

/-- The transmit half of a link cycle: the state and the queue after it, and the sample sent. -/
def transmit (l : LinkSide) (fifo : Fifo SampleWord) (pattern : PatternControl) :
    LinkSide × Fifo SampleWord × LinkSample :=
  let (generator, generated) := l.generate pattern
  let input := l.takes fifo generated.isSome
  let (txConverter, converted) := l.convert generated.isSome input
  let fifo := (fifo.readTick input.isSome).1
  ({ l with generator, txConverter }, fifo,
    .framed (Routing.txWord generated converted) l.frame)

/-- The sample at the boundary, as the aligner puts it right, and who takes it. -/
def routed (l : LinkSide) (c : LinkControls) (boundary : LinkSample) : Option Routing.Route :=
  (l.aligner.tick boundary).2.map (Routing.route (l.checker.ready c.rx.enable))

def rebuild (l : LinkSide) (c : LinkControls) (boundary : LinkSample) :
    RxConverter × Option SampleWord :=
  l.rxConverter.tick ((l.routed c boundary).bind Routing.Route.toConverter)

/-- The receive half of a link cycle: the state and the queue after it.  A word that finds the
queue full is dropped and counted. -/
def receive (l : LinkSide) (fifo : Fifo SampleWord) (c : LinkControls) (tx received : LinkSample) :
    LinkSide × Fifo SampleWord :=
  let rxBoundary := Routing.rxSample l.loopbackMask c.loopback tx received
  let aligner := (l.aligner.tick rxBoundary).1
  let sample := (l.routed c rxBoundary).bind Routing.Route.toChecker
  let checker := l.checker.tick c.rx.enable c.rx.mode sample
  let (rxConverter, word) := l.rebuild c rxBoundary
  let overflows := if word.isSome && !fifo.writable then l.overflows + 1 else l.overflows
  ({ l with rxBoundary, aligner, checker, rxConverter, overflows }, (fifo.writeTick word).1)

end LinkSide

namespace Bridge

def tickControl (b : Bridge) (t : Transport) : Bridge × Transport :=
  let { control, link, crossings } := b
  let (txFifo, accepted) := crossings.txFifo.writeTick t.offered
  let t := if accepted then t.acceptOffered else t
  let (rxFifo, word) := crossings.rxFifo.readTick t.ready
  let t :=
    match word with
    | some w => t.deliver w
    | none => t
  let aligned := crossings.aligned.tick
  let (activity, pulse) := crossings.activity.tick
  let errors := crossings.errors.destinationTick
  let cycles := crossings.cycles.destinationTick
  let crossings : Crossings :=
    { txFifo, rxFifo, aligned, activity, errors, cycles
      loopback := crossings.loopback.drive control.control.loopback
      txPattern := crossings.txPattern.drive control.txPattern
      rxPattern := crossings.rxPattern.drive control.rxPattern }
  let control : ControlSide :=
    { control with
      aligned := aligned.output
      activity := control.activity.tick pulse
      errors := errors.value
      cyclesSeen := cycles.value }
  ({ control, link, crossings }, t)

/-- The status that a link cycle sends towards the control domain. -/
def report (l : LinkSide) (x : Crossings) : LinkSide × Crossings :=
  let cycles := l.cycles + 1
  let (divider, pulse) := l.divider.tick
  ({ l with cycles, divider },
    { x with
      aligned := x.aligned.drive l.aligner.aligned
      errors := x.errors.sourceTick l.checker.errors
      cycles := x.cycles.sourceTick cycles
      activity := if pulse then x.activity.pulse else x.activity })

/-- A cycle of the link clock that takes in a received sample. -/
def tickLink (b : Bridge) (received : LinkSample) : Bridge :=
  let { control, link, crossings } := b
  let crossings := crossings.tickControls
  let controls := crossings.controls
  let (link, txFifo, tx) := link.transmit crossings.txFifo controls.tx
  let (link, rxFifo) := link.receive crossings.rxFifo controls tx received
  let (link, crossings) := report link { crossings with txFifo, rxFifo }
  { control, crossings, link := { link with txPads := tx, frame := !link.frame } }

end Bridge
end LinkBridge
