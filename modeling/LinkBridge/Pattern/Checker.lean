import LinkBridge.Pattern.Prbs

/-!
The pattern checker.

It predicts each sample from the one before and counts the mismatches, modulo `2 ^ 32`.  The count
is cleared when the enable rises; the first sample after that only seeds the prediction, so checker
and generator need no common start.
-/

namespace LinkBridge

/-- What the checker remembers of the samples since it was enabled. -/
structure CheckerMemory where
  lastCount : Option (UInt16 × UInt16) := none
  firstHalf : Option LinkWord := none
  lastPrbs : Option UInt16 := none
deriving DecidableEq, Repr

structure Checker where
  enabled : Bool := false
  errors : UInt32 := 0
  memory : CheckerMemory := {}
deriving DecidableEq, Repr

namespace CheckerMemory

/-- Both fields must count one up from the last sample. -/
def checkCount (m : CheckerMemory) (w : LinkWord) : CheckerMemory × Bool :=
  let fields := (w.phase0 &&& fieldMask, w.phase1 &&& fieldMask)
  let mismatch :=
    match m.lastCount with
    | some (a, b) => fields != (nextCount a, nextCount b)
    | none => false
  ({ m with lastCount := some fields }, mismatch)

/-- A first half waits for its second.  Together they must be the fields of one value, and that
value must follow the last one. -/
def checkPrbs (m : CheckerMemory) (s : LinkSample) : CheckerMemory × Bool :=
  if s.isFirst then ({ m with firstHalf := some s.word }, false)
  else
    match m.firstHalf with
    | none => (m, false)
    | some first =>
      let seen : PrbsFields :=
        ⟨first.phase0 &&& fieldMask, first.phase1 &&& fieldMask, s.word.phase0 &&& fieldMask,
          s.word.phase1 &&& fieldMask⟩
      let v := PrbsFields.value seen.ai seen.bi
      let consistent := PrbsFields.ofValue v == seen
      let predicted :=
        match m.lastPrbs with
        | some last => (Prbs.ofState last).next.state == v
        | none => true
      ({ m with firstHalf := none, lastPrbs := some v }, !(consistent && predicted))

def check (m : CheckerMemory) : PatternMode → LinkSample → CheckerMemory × Bool
  | .count, s => m.checkCount s.word
  | .prbs, s => m.checkPrbs s

end CheckerMemory

namespace Checker

/-- Whether the checker takes samples: its enable must have been seen one cycle before. -/
def ready (c : Checker) (enable : Bool) : Bool := enable && c.enabled

def tick (c : Checker) (enable : Bool) (mode : PatternMode) (sample : Option LinkSample) :
    Checker :=
  if c.ready enable then
    match sample with
    | some s =>
      let (memory, mismatch) := c.memory.check mode s
      { c with memory, errors := if mismatch then c.errors + 1 else c.errors }
    | none => c
  else if enable then { enabled := true }
  else { c with enabled := false }

end Checker
end LinkBridge
