import LinkBridge.Decimal.Fixed
import LinkBridge.Simulation.Basic

/-!
Trial runs.

A trial programs the controls, runs for a time and reports what came back: the status, the pattern
errors after a settling time, the link clock measured by the cycle counter, and how many of the
words sent were returned unchanged and in order.
-/

namespace LinkBridge

inductive RunError where
  | setup (error : SetupError)
  | endless
deriving Repr

def RunError.message : RunError → String
  | .setup error => error.message
  | .endless => "the run has no end"

def Simulation.runTo (s : Simulation) (span : Time) : Except RunError Simulation :=
  match s.run span with
  | some s => .ok s
  | none => .error .endless

structure TrialRequest where
  loopback : Bool := false
  pattern : Option PatternMode := none
  words : Nat := 0
deriving DecidableEq, Repr

/-- `errors` is there only for a trial with a pattern. -/
structure TrialReport where
  status : StatusReg
  errors : Option UInt32
  linkMHz : Float
  sent : Nat
  matched : Nat
  overflows : Nat
deriving Repr

namespace Trial

/-- Words in flight have this long before errors count. -/
def settleTime : Time := .ofUnits 10 .us

/-- The word that an idle link makes. -/
def idleWord : SampleWord := default

/-- A word of a twelve-bit ramp over all slices.  Its first slice is odd, so it is never idle. -/
def rampWord (i : Nat) : SampleWord :=
  let slice (k : Nat) : UInt16 := UInt16.ofNat ((4 * i + k) % 4096)
  .ofSlices (slice 1) (slice 2) (slice 3) (slice 4)

def rampWords (count : Nat) : List SampleWord := (List.range count).map rampWord

/-- How many of the wanted words came first, in order, when idle words are left out. -/
def matching (received wanted : List SampleWord) : Nat :=
  (((received.filter (· != idleWord)).zip wanted).takeWhile fun (a, b) => a == b).length

def program (s : Simulation) (r : TrialRequest) : Simulation :=
  let s := s.writeRegister .control ({ loopback := r.loopback } : ControlReg).bits
  match r.pattern with
  | some mode =>
    let bits := ({ enable := true, mode } : PatternControl).bits
    (s.writeRegister .txPattern bits).writeRegister .rxPattern bits
  | none => s

def latch (s : Simulation) : Simulation := s.writeRegister .cyclesLatch 0

/-- The measured link clock in MHz; zero when no time has passed. -/
def measuredMHz (cycles : UInt32) (start stop : Time) : Float :=
  let elapsed := stop.seconds - start.seconds
  if elapsed > 0 then cycles.toFloat / elapsed / 1e6 else 0

/-- A new simulation with the words of a trial ready to be sent. -/
def start (p : SimulationParams) (r : TrialRequest) : Except RunError Simulation :=
  (Simulation.new p (({} : Transport).send (rampWords r.words))).mapError .setup

/-- Runs a trial from its start.  The second result is the text of the waveforms, if they are
recorded. -/
def run (s : Simulation) (r : TrialRequest) (duration : Time) (recorded : Bool) :
    Except RunError (TrialReport × Option String) := do
  let s := program (if recorded then s.attach else s) r
  let settle := settleTime.earlier duration
  let s ← s.runTo settle
  let s := latch s
  let cyclesBefore := s.readRegister .cycles
  let errorsBefore := s.readRegister .rxErrors
  let settled := s.now
  let s ← s.runTo (duration.since settle)
  let s := (latch s).finish
  let report : TrialReport :=
    { status := s.bridge.status
      errors := r.pattern.map fun _ => s.readRegister .rxErrors - errorsBefore
      linkMHz := measuredMHz (s.readRegister .cycles - cyclesBefore) settled s.now
      sent := s.transport.sent
      matched := matching s.transport.received.toList (rampWords r.words)
      overflows := s.progress.overflows }
  return (report, s.recording.map (·.dump.text))

end Trial

namespace TrialReport

/-- A trial passes without pattern errors and with every sent word returned. -/
def passed (r : TrialReport) : Bool := r.errors.getD 0 == 0 && r.matched == r.sent

def yesNo (b : Bool) : String := if b then "yes" else "no"

def lines (r : TrialReport) : List String :=
  [ "clock active   " ++ yesNo r.status.rxClockActive,
    "frame aligned  " ++ yesNo r.status.rxFrameAligned,
    "link clock     " ++ Decimal.showFixed 3 r.linkMHz ++ " MHz",
    "pattern errors " ++
      match r.errors with
      | some errors => Digits.decimal errors.toNat
      | none => "(checker off)" ] ++
  (if r.sent > 0 then
    ["words          " ++ Digits.decimal r.matched ++ "/" ++ Digits.decimal r.sent ++
      " returned intact"]
  else []) ++
  (if r.overflows > 0 then ["rx overflows   " ++ Digits.decimal r.overflows] else [])

end TrialReport
end LinkBridge
