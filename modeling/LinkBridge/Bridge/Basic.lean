import LinkBridge.Activity
import LinkBridge.Bridge.Params
import LinkBridge.Crossing.Bus
import LinkBridge.Crossing.Fifo
import LinkBridge.Crossing.Pulse
import LinkBridge.Pattern.Checker
import LinkBridge.Pattern.Generator
import LinkBridge.Register.Fields
import LinkBridge.Register.Map
import LinkBridge.Sample.Aligner
import LinkBridge.Sample.Width

/-!
The bridge: two clock domains and the crossings between them.

The control domain owns the registers and the delay lines, the link domain the data path and the
counters.  Nothing else is shared: every value that one domain needs of the other goes through a
crossing.
-/

namespace LinkBridge

open Crossing

structure ControlSide where
  control : ControlReg := {}
  delay : DelayReg
  txPattern : PatternControl := {}
  rxPattern : PatternControl := {}
  delays : DelayPair
  polarity : PinPolarity
  activity : ActivityMonitor
  aligned : Bool := false
  errors : UInt32 := 0
  cyclesSeen : UInt32 := 0
  cyclesLatched : UInt32 := 0
deriving DecidableEq, Repr

structure LinkSide where
  frame : Bool := frameFirst
  txConverter : TxConverter := {}
  rxConverter : RxConverter := {}
  generator : Generator := {}
  checker : Checker := {}
  aligner : Aligner := {}
  loopbackMask : UInt32
  divider : ActivityDivider := {}
  cycles : UInt32 := 0
  txPads : LinkSample := default
  rxBoundary : LinkSample := default
  overflows : Nat := 0
deriving DecidableEq, Repr

structure Crossings where
  txFifo : Fifo SampleWord
  rxFifo : Fifo SampleWord
  loopback : Chain Bool
  txPattern : Chain PatternControl
  rxPattern : Chain PatternControl
  aligned : Chain Bool
  activity : PulseCrossing
  errors : BusCrossing UInt32
  cycles : BusCrossing UInt32
deriving DecidableEq, Repr

def Crossings.new (p : BridgeParams) : Crossings :=
  { txFifo := Fifo.new p.fifoDepth p.syncStages
    rxFifo := Fifo.new p.fifoDepth p.syncStages
    loopback := Chain.new p.syncStages false
    txPattern := Chain.new p.syncStages {}
    rxPattern := Chain.new p.syncStages {}
    aligned := Chain.new p.syncStages false
    activity := PulseCrossing.new p.syncStages
    errors := BusCrossing.new p.syncStages 0
    cycles := BusCrossing.new p.syncStages 0 }

structure Bridge where
  control : ControlSide
  link : LinkSide
  crossings : Crossings
deriving DecidableEq, Repr

namespace Bridge

/-- The bridge as it leaves reset, with its delay lines loaded. -/
def ofParams (p : BridgeParams) : Bridge :=
  { control :=
      { delay := { tx := p.txDelay, rx := p.rxDelay }
        delays := DelayPair.load {} p.txDelay p.rxDelay
        polarity := p.polarity
        activity := ActivityMonitor.new p.activityWindow }
    link := { loopbackMask := p.loopbackMask }
    crossings := Crossings.new p }

def new (p : BridgeParams) : Except ParamError Bridge :=
  match p.check with
  | .ok () => .ok (ofParams p)
  | .error e => .error e

def txPads (b : Bridge) : LinkSample := b.link.txPads

/-- The sample that entered the receive path, received or looped back. -/
def rxBoundary (b : Bridge) : LinkSample := b.link.rxBoundary

def pins (b : Bridge) : Pins :=
  let r := b.control.control
  let p := b.control.polarity
  { reset := p.reset.level r.reset, powerDown := p.powerDown.level r.powerDown,
    txEnable := p.txEnable.level r.txEnable, rxEnable := p.rxEnable.level r.rxEnable }

/-- The tap of the transmit clock and the tap of the received data. -/
def taps (b : Bridge) : DelayTap × DelayTap :=
  (b.control.delays.txClock.tap, b.control.delays.rxData.tap)

def status (b : Bridge) : StatusReg :=
  { rxClockActive := b.control.activity.active, rxFrameAligned := b.control.aligned }

/-- Alignment as the link domain has it, before it crosses. -/
def linkAligned (b : Bridge) : Bool := b.link.aligner.aligned

/-- The error count as the link domain has it, before it crosses. -/
def linkErrors (b : Bridge) : UInt32 := b.link.checker.errors

end Bridge
end LinkBridge
