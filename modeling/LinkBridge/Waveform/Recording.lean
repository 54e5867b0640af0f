import LinkBridge.Bridge.Basic
import LinkBridge.Waveform.Dump

/-!
Recording the bridge.

Eight probes on the link side are declared in one scope.  After each step those whose value differs
from the last one written are written, in the order of the probes.
-/

namespace LinkBridge.Waveform

inductive Probe where
  | txData
  | txFrame
  | rxData
  | rxFrame
  | frameAligned
  | patternErrors
  | clockActive
  | clockRunning
deriving DecidableEq, Repr

namespace Probe

def all : List Probe :=
  [.txData, .txFrame, .rxData, .rxFrame, .frameAligned, .patternErrors, .clockActive,
    .clockRunning]

def id : Probe → UInt32
  | .txData => 0
  | .txFrame => 1
  | .rxData => 2
  | .rxFrame => 3
  | .frameAligned => 4
  | .patternErrors => 5
  | .clockActive => 6
  | .clockRunning => 7

def name : Probe → String
  | .txData => "tx_data"
  | .txFrame => "tx_frame"
  | .rxData => "rx_data"
  | .rxFrame => "rx_frame"
  | .frameAligned => "rx_frame_aligned"
  | .patternErrors => "rx_pattern_errors"
  | .clockActive => "rx_clk_active"
  | .clockRunning => "link_clock_running"

def width : Probe → Nat
  | .txData | .rxData | .patternErrors => 32
  | .txFrame | .rxFrame => 2
  | .frameAligned | .clockActive | .clockRunning => 1

/-- The value of a probe, given whether the link clock runs. -/
def sample (b : Bridge) (running : Bool) : Probe → Nat
  | .txData => b.txPads.word.packed.toNat
  | .txFrame => b.txPads.frameBits.toNat
  | .rxData => b.rxBoundary.word.packed.toNat
  | .rxFrame => b.rxBoundary.frameBits.toNat
  | .frameAligned => b.linkAligned.toNat
  | .patternErrors => b.linkErrors.toNat
  | .clockActive => b.status.rxClockActive.toNat
  | .clockRunning => running.toNat

end Probe

def scopeName : String := "bridge"

/-- A probe, its signal in the dump and the last value written. -/
structure Trace where
  probe : Probe
  signal : Signal
  last : Option Nat := none
deriving DecidableEq, Repr

structure Recording where
  dump : Dump
  traces : List Trace
deriving DecidableEq, Repr

namespace Recording

def start : Recording :=
  let declared := Probe.all.foldl (fun d p => d.declare p.id p.name p.width)
    ((({} : Dump).beginScope scopeName))
  let dump := declared.endScope
  { dump
    traces := Probe.all.filterMap fun probe =>
      (dump.signal? probe.id).map fun signal => { probe, signal } }

/-- Writes a trace if its value has changed. -/
def record (fs : Nat) (b : Bridge) (running : Bool) (d : Dump) (t : Trace) : Dump × Trace :=
  let value := t.probe.sample b running
  if t.last = some value then (d, t)
  else (d.write fs t.signal value, { t with last := some value })

def recordAll (fs : Nat) (b : Bridge) (running : Bool) (d : Dump) :
    List Trace → Dump × List Trace
  | [] => (d, [])
  | t :: rest =>
    let (d, t) := record fs b running d t
    let (d, rest) := recordAll fs b running d rest
    (d, t :: rest)

def step (r : Recording) (fs : Nat) (b : Bridge) (running : Bool) : Recording :=
  let { dump, traces } := r
  let (dump, traces) := recordAll fs b running dump traces
  { dump, traces }

def finish (r : Recording) : Recording := { r with dump := r.dump.finish }

end Recording
end LinkBridge.Waveform
