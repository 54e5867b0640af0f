import LinkBridge.Sample.Word

/-!
Frame alignment.

A transmitter drives one frame level on both phases of a cycle, so frame bits that differ show that
the receiver samples half a cycle late.  The aligner keeps one cycle of history and then rebuilds
the word from the previous phase 1 and the current phase 0.
-/

namespace LinkBridge

structure Aligner where
  last : Option LinkSample := none
  aligned : Bool := false
deriving DecidableEq, Repr

/-- Takes a sample and gives the sample of the cycle before, put right. -/
def Aligner.tick (a : Aligner) (sample : LinkSample) : Aligner × Option LinkSample :=
  let aligned := sample.isAligned
  let out := a.last.map fun last => if aligned then last else last.late sample
  ({ last := some sample, aligned }, out)

end LinkBridge
