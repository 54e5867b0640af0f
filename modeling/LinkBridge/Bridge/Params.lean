import LinkBridge.Crossing.Chain
import LinkBridge.DelayTap
import LinkBridge.Polarity
import LinkBridge.Power
import LinkBridge.Sample.Word

/-!
Parameters of the bridge and their limits.
-/

namespace LinkBridge

structure BridgeParams where
  syncStages : Nat := Crossing.minStages
  fifoDepth : Nat := 4
  activityWindow : Nat := 1000000
  loopbackMask : UInt32 := nativeMask
  txDelay : DelayTap := default
  rxDelay : DelayTap := default
  polarity : PinPolarity := {}
deriving DecidableEq, Repr

inductive ParamError where
  | tooFewStages (stages : Nat)
  | badDepth (depth : Nat)
  | noWindow
deriving DecidableEq, Repr

def ParamError.message : ParamError → String
  | .tooFewStages stages => s!"sync_stages must be at least 2, got {stages}"
  | .badDepth depth => s!"fifo_depth must be a power of two >= 2, got {depth}"
  | .noWindow => "activity_window must be non-zero"

/-- A queue depth that pointers can count round: a power of two, at least two. -/
def goodDepth (depth : Nat) : Bool := 2 ≤ depth && pow2 depth.log2 == depth

def BridgeParams.check (p : BridgeParams) : Except ParamError Unit :=
  if p.syncStages < Crossing.minStages then .error (.tooFewStages p.syncStages)
  else if !goodDepth p.fifoDepth then .error (.badDepth p.fifoDepth)
  else if p.activityWindow = 0 then .error .noWindow
  else .ok ()

end LinkBridge
