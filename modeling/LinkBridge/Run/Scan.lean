import LinkBridge.Run.Trial

/-!
Delay scans.

A scan steps one delay line through every tap, holding the other, and scores each tap by the
pattern errors of a dwell time.  The widest run of taps without errors is the eye, and its middle
is the tap to use.
-/

namespace LinkBridge

inductive Direction where
  | tx
  | rx
deriving DecidableEq, Repr

namespace Direction

def name : Direction → String
  | .tx => "tx"
  | .rx => "rx"

def all : List Direction := [.tx, .rx]

/-- The taps of both lines while one is swept. -/
def taps (d : Direction) (swept held : DelayTap) : DelayReg :=
  match d with
  | .tx => { tx := swept, rx := held }
  | .rx => { tx := held, rx := swept }

end Direction

structure TapResult where
  tap : Nat
  errors : UInt32
deriving DecidableEq, Repr

/-- A run of taps without errors, from the first to the last. -/
structure EyeWindow where
  first : Nat
  last : Nat
deriving DecidableEq, Repr

namespace EyeWindow

def width (w : EyeWindow) : Nat := w.last - w.first + 1

def center (w : EyeWindow) : Nat := w.first + (w.last - w.first) / 2

end EyeWindow

namespace Scan

/-- The runs of taps without errors, in order.  `start` is the first tap of a run that is still
open. -/
def cleanRuns (start : Option Nat) : List TapResult → List EyeWindow
  | [] => []
  | r :: rest =>
    if r.errors = 0 then
      let first := start.getD r.tap
      if (rest.head?.any fun next => next.errors = 0) then cleanRuns (some first) rest
      else ⟨first, r.tap⟩ :: cleanRuns (some first) rest
    else cleanRuns none rest

def widest (windows : List EyeWindow) : Option EyeWindow :=
  windows.foldl (fun best w =>
    match best with
    | some b => if w.width > b.width then some w else best
    | none => some w) none

/-- The widest run of taps without errors; of several, the one at the lowest taps. -/
def widestWindow (results : List TapResult) : Option EyeWindow := widest (cleanRuns none results)

end Scan

structure ScanReport where
  direction : Direction
  pattern : PatternMode
  other : DelayTap
  results : List TapResult
  window : Option EyeWindow
deriving DecidableEq, Repr

namespace Scan

/-- Control cycles after a change of taps before errors count. -/
def settleCycles : Nat := 200

def score (s : Simulation) (d : Direction) (held : DelayTap) (dwell : Time) (tap : DelayTap) :
    Except RunError (Simulation × TapResult) := do
  let s := s.writeRegister .delay (d.taps tap held).bits
  let s := s.runCycles settleCycles
  let before := s.readRegister .rxErrors
  let s ← s.runTo dwell
  return (s, { tap := tap.value, errors := s.readRegister .rxErrors - before })

/-- Scores taps one after the other in the same simulation. -/
def scoreAll (s : Simulation) (d : Direction) (held : DelayTap) (dwell : Time) :
    List DelayTap → Except RunError (List TapResult)
  | [] => .ok []
  | tap :: rest => do
    let (s, result) ← score s d held dwell tap
    let results ← scoreAll s d held dwell rest
    return result :: results

/-- Sweeps a delay line over all taps in a new simulation. -/
def run (p : SimulationParams) (d : Direction) (mode : PatternMode) (held : DelayTap)
    (dwell : Time) : Except RunError ScanReport := do
  let s ← (Simulation.new p {}).mapError .setup
  let bits := ({ enable := true, mode } : PatternControl).bits
  let s := (s.writeRegister .txPattern bits).writeRegister .rxPattern bits
  let results ← scoreAll s d held dwell DelayTap.all
  return { direction := d, pattern := mode, other := held, results,
           window := widestWindow results }

end Scan

namespace ScanReport

def column (width n : Nat) : String := String.ofList (Digits.padLeft width ' ' (Digits.render 10 n))

def tapLine (r : TapResult) : String :=
  "tap " ++ column 2 r.tap ++ "  errors " ++ column 10 r.errors.toNat ++ "  " ++
    (if r.errors = 0 then "ok" else "")

def windowLine (r : ScanReport) : String :=
  match r.window with
  | some w =>
    r.direction.name ++ " window " ++ Digits.decimal w.first ++ "..=" ++ Digits.decimal w.last ++
      " (" ++ Digits.decimal w.width ++ " taps), center " ++ Digits.decimal w.center
  | none => r.direction.name ++ " window not found"

def lines (r : ScanReport) : List String := r.results.map tapLine ++ [r.windowLine]

end ScanReport
end LinkBridge
