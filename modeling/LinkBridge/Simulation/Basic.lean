import LinkBridge.Bridge.Access
import LinkBridge.Bridge.Tick
import LinkBridge.Frequency
import LinkBridge.Simulation.Schedule
import LinkBridge.Transceiver
import LinkBridge.Waveform.Recording

/-!
The simulation.

A bridge, a transceiver and a transport on one time line.  Each step runs the edge that is due: a
cycle of the control domain, or a cycle of the link domain if the transceiver's clock runs.  `run`
goes up to an instant, `runCycles` for a count of control cycles.
-/

namespace LinkBridge

structure SimulationParams where
  controlClock : Frequency := .ofMHz 125.0
  linkClock : Frequency := .ofMHz 61.44
  linkPhase : Time := .zero
  bridge : BridgeParams := {}
  transceiver : TransceiverParams := {}
deriving Repr

inductive SetupError where
  | clock (domain : Domain) (frequency : Frequency)
  | bridge (error : ParamError)
deriving Repr

def SetupError.message : SetupError → String
  | .clock domain frequency =>
    "invalid configuration: " ++ domain.name ++ " clock must be positive, got " ++ frequency.text
  | .bridge error => "invalid configuration: " ++ error.message

structure Simulation where
  now : Time := .zero
  schedule : Schedule
  bridge : Bridge
  transceiver : Transceiver
  transport : Transport := {}
  controlCycles : Nat := 0
  linkCycles : Nat := 0
  halted : Bool := false
  linkRunning : Bool := true
  recording : Option Waveform.Recording := none
deriving DecidableEq, Repr

structure Progress where
  time : Time
  controlCycles : Nat
  linkCycles : Nat
  overflows : Nat
deriving DecidableEq, Repr

namespace Simulation

/-- The period of a clock, which must have one. -/
def period (domain : Domain) (f : Frequency) : Except SetupError Time :=
  match f.period? with
  | some p => .ok p
  | none => .error (.clock domain f)

def new (p : SimulationParams) (transport : Transport) : Except SetupError Simulation := do
  let controlPeriod ← period .control p.controlClock
  let linkPeriod ← period .link p.linkClock
  let bridge ← (Bridge.new p.bridge).mapError .bridge
  return { schedule := .new controlPeriod linkPeriod p.linkPhase, bridge,
           transceiver := .new p.transceiver, transport }

def tickLink (halted : Bool) (bridge : Bridge) (transceiver : Transceiver) :
    Bridge × Transceiver × Bool :=
  let pins := bridge.pins
  if !halted && transceiver.clockRunning pins then
    let (txTap, rxTap) := bridge.taps
    let (transceiver, received) := transceiver.tick pins bridge.txPads txTap rxTap
    (bridge.tickLink received, transceiver, true)
  else (bridge, transceiver, false)

/-- Writes the changed probes if a recording is attached. -/
def record (s : Simulation) : Simulation :=
  { s with recording := s.recording.map fun r => r.step s.now.fs s.bridge s.linkRunning }

def stepEdge (s : Simulation) : Simulation :=
  let { now := _, schedule, bridge, transceiver, transport, controlCycles, linkCycles, halted,
        linkRunning, recording } := s
  let now := schedule.dueTime
  match schedule.due with
  | .control =>
    let (bridge, transport) := bridge.tickControl transport
    { now, schedule := schedule.advance, bridge, transceiver, transport,
      controlCycles := controlCycles + 1, linkCycles, halted, linkRunning, recording }
  | .link =>
    let (bridge, transceiver, linkRunning) := tickLink halted bridge transceiver
    { now, schedule := schedule.advance, bridge, transceiver, transport, controlCycles,
      linkCycles := if linkRunning then linkCycles + 1 else linkCycles, halted, linkRunning,
      recording }

def step (s : Simulation) : Simulation := s.stepEdge.record

/-- Steps while an edge is due up to the horizon, at most so many times. -/
def stepUpTo (s : Simulation) (horizon : Time) : Nat → Simulation
  | 0 => s
  | n + 1 => if s.schedule.dueTime.fs ≤ horizon.fs then s.step.stepUpTo horizon n else s

/-- Runs for a span.  Edges held back at the last instant are due there again and again, so a run
up to the last instant has no end. -/
def run (s : Simulation) (span : Time) : Option Simulation :=
  let horizon := s.now.after span
  if horizon = .last then none
  else
    let edges := s.schedule.edges horizon
    some { s.stepUpTo horizon edges with now := horizon }

/-- Steps until a control edge has run, after at most so many link edges. -/
def stepControl (s : Simulation) : Nat → Simulation
  | 0 => s.step
  | n + 1 =>
    match s.schedule.due with
    | .control => s.step
    | .link => s.step.stepControl n

/-- Runs a count of control cycles and the link edges before each. -/
def runCycles (s : Simulation) : Nat → Simulation
  | 0 => s
  | n + 1 => (s.stepControl s.schedule.linkEdgesBefore).runCycles n

def progress (s : Simulation) : Progress :=
  { time := s.now, controlCycles := s.controlCycles, linkCycles := s.linkCycles,
    overflows := s.bridge.link.overflows }

def halt (s : Simulation) (halted : Bool) : Simulation := { s with halted }

def send (s : Simulation) (words : List SampleWord) : Simulation :=
  { s with transport := s.transport.send words }

def readRegister (s : Simulation) (r : Register) : UInt32 := s.bridge.readRegister r

def writeRegister (s : Simulation) (r : Register) (value : UInt32) : Simulation :=
  { s with bridge := s.bridge.writeRegister r value }

def attach (s : Simulation) : Simulation := { s with recording := some .start }

def finish (s : Simulation) : Simulation := { s with recording := s.recording.map (·.finish) }

end Simulation
end LinkBridge
