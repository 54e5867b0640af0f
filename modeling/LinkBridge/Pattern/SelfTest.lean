import LinkBridge.Pattern.Checker
import LinkBridge.Pattern.Generator

/-!
The self-test without a link between.

A generator feeds a checker directly, with chosen bits of chosen cycles flipped on the way.  Frames
alternate from a first slot at cycle 0.
-/

namespace LinkBridge

structure SelfTest where
  generator : Generator := {}
  checker : Checker := {}
deriving DecidableEq, Repr

namespace SelfTest

/-- Slots alternate, starting with a first slot. -/
def firstSlot (cycle : Nat) : Bool := cycle % 2 = 0

/-- Lets the generator run alone for a number of cycles, from cycle 0. -/
def warmUp (t : SelfTest) (mode : PatternMode) (cycles : Nat) : SelfTest :=
  (List.range cycles).foldl
    (fun t i => { t with generator := (t.generator.tick true mode (firstSlot i)).1 }) t

/-- One cycle: the generator's word, with bits flipped, reaches the checker if that is ready. -/
def cycle (t : SelfTest) (generated checked : PatternMode) (index : Nat) (flips : UInt32) :
    SelfTest :=
  let first := firstSlot index
  let (generator, word) := t.generator.tick true generated first
  let received := word.map fun w => LinkSample.framed (.ofPacked (w.packed ^^^ flips)) first
  let sample := if t.checker.ready true then received else none
  { generator, checker := t.checker.tick true checked sample }

/-- Runs a number of cycles from cycle 0 and lists those on which the error count changed. -/
def run (t : SelfTest) (generated checked : PatternMode) (flips : Nat → UInt32) (cycles : Nat) :
    SelfTest × List Nat :=
  let (t, changed) := (List.range cycles).foldl
    (fun (t, changed) i =>
      let t' := t.cycle generated checked i (flips i)
      (t', if t'.checker.errors == t.checker.errors then changed else i :: changed)) (t, [])
  (t, changed.reverse)

end SelfTest
end LinkBridge
