import LinkBridge.Config.Basic
import LinkBridge.Simulation.Basic
import LinkBridge.Toml.Document

/-!
Resolving and loading configurations.

`LinkConfig.resolve` reads the clocks and checks the taps, which gives the parameters of a
simulation.  `LinkConfig.check` adds the limits of the bridge, and `LinkConfig.load` applies it to
the text of a file, so that a bad configuration fails before anything runs.
-/

namespace LinkBridge

inductive ConfigFault where
  | limit (error : ParamError)
  | clock (field : String) (error : Frequency.ReadError)
  | stopped (field value : String)
  | controlClock (frequency : Frequency)
  | phase (nanoseconds : Float)
  | tap (field : String) (error : DelayTap.RangeError)
  | emptyWindow (field : String) (window : TapWindow)
deriving Repr

def ConfigFault.message : ConfigFault → String
  | .limit error => "bridge." ++ error.message
  | .clock field error => field ++ ": " ++ error.message
  | .stopped field value => s!"{field}: clock frequency must be positive, got '{value}'"
  | .controlClock frequency =>
    "PCIe transport requires a 125MHz system clock, got " ++ frequency.text
  | .phase x =>
    "clocks.link_phase must be a non-negative number of ns, got " ++ Decimal.showFloat x
  | .tap field error => field ++ ": " ++ error.message
  | .emptyWindow field w =>
    field ++ ": window [" ++ Digits.decimal w.low.value ++ ", " ++ Digits.decimal w.high.value ++
      "] is empty"

inductive ConfigError where
  | malformed
  | undecodable (error : DecodeError)
  | missing (field : String)
  | invalid (fault : ConfigFault)
deriving Repr

def ConfigError.message : ConfigError → String
  | .malformed => "failed to parse configuration: malformed TOML"
  | .undecodable error => "failed to parse configuration: " ++ error.message
  | .missing field => "missing required field: " ++ field
  | .invalid fault => "validation error: " ++ fault.message

namespace LinkConfig

def resolveClock (field value : String) : Except ConfigFault Frequency :=
  match Frequency.read value with
  | .error e => .error (.clock field e)
  | .ok f => if f.period?.isSome then .ok f else .error (.stopped field value)

def resolveTap (field : String) (value : Nat) : Except ConfigFault DelayTap :=
  (DelayTap.ofNat value).mapError (.tap field)

def resolveWindow (field : String) (bounds : Nat × Nat) : Except ConfigFault TapWindow := do
  let low ← resolveTap field bounds.1
  let high ← resolveTap field bounds.2
  if high.value < low.value then .error (.emptyWindow field ⟨low, high⟩) else .ok ⟨low, high⟩

def pcieClock : Frequency := ⟨125e6⟩

/-- The core's clock is held to half a hertz. -/
def checkTransport (kind : TransportKind) (control : Frequency) : Except ConfigFault Unit :=
  if kind = .pcie ∧ !control.near pcieClock 0.5 then .error (.controlClock control) else .ok ()

/-- A phase in whole femtoseconds. -/
def resolvePhase (nanoseconds : Float) : Except ConfigFault Time :=
  if !nanoseconds.isFinite || nanoseconds < 0 then .error (.phase nanoseconds)
  else .ok (.ofFloat (nanoseconds * 1e6))

def resolve (c : LinkConfig) : Except ConfigFault SimulationParams := do
  let controlClock ← resolveClock "clocks.sys" c.clocks.control
  let linkClock ← resolveClock "clocks.link" c.clocks.link
  checkTransport c.transport controlClock
  let linkPhase ← resolvePhase c.clocks.linkPhase
  let txDelay ← resolveTap "bridge.tx_delay" c.bridge.txDelay
  let rxDelay ← resolveTap "bridge.rx_delay" c.bridge.rxDelay
  let txEye ← resolveWindow "transceiver.tx_eye" c.transceiver.txEye
  let rxEye ← resolveWindow "transceiver.rx_eye" c.transceiver.rxEye
  return {
    controlClock, linkClock, linkPhase
    bridge :=
      { syncStages := c.bridge.syncStages, fifoDepth := c.bridge.fifoDepth,
        activityWindow := c.bridge.activityWindow, loopbackMask := c.bridge.loopbackMask,
        txDelay, rxDelay, polarity := c.polarity }
    transceiver :=
      { mode := c.transceiver.mode, txEye, rxEye, latency := c.transceiver.latency,
        phaseInverted := c.transceiver.phaseInverted, seed := c.transceiver.seed,
        polarity := c.transceiver.polarity } }

/-- The limits of the bridge, and a dwell that says something. -/
def checkLimits (c : LinkConfig) : Except ConfigError Unit :=
  if c.bridge.syncStages < Crossing.minStages then
    .error (.invalid (.limit (.tooFewStages c.bridge.syncStages)))
  else if !goodDepth c.bridge.fifoDepth then
    .error (.invalid (.limit (.badDepth c.bridge.fifoDepth)))
  else if c.bridge.activityWindow = 0 then
    .error (.missing "bridge.activity_window (must be non-zero)")
  else if (Text.trim c.dwell.toList).isEmpty then .error (.missing "scan.dwell")
  else .ok ()

/-- Whether a configuration can be used: its limits first, and then all that resolving needs. -/
def check (c : LinkConfig) : Except ConfigError Unit := do
  checkLimits c
  let _ ← c.resolve.mapError .invalid

/-- The configuration that the text of a file writes. -/
def load (text : String) : Except ConfigError LinkConfig := do
  let datum ←
    match Toml.Document.read text with
    | some datum => pure datum
    | none => .error .malformed
  let c ← (LinkConfig.decode .toml datum).mapError .undecodable
  check c
  return c

end LinkConfig
end LinkBridge
