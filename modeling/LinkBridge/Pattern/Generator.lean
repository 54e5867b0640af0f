import LinkBridge.Pattern.Prbs

/-!
The pattern generator.

While enabled it makes one link word each cycle.  Both patterns go on from where they stopped when
it is enabled again.
-/

namespace LinkBridge

structure Generator where
  count : UInt16 := 0
  prbs : Prbs := Prbs.seed
  word : UInt16 := 0
deriving DecidableEq, Repr

namespace Generator

def tickCount (g : Generator) : Generator × LinkWord :=
  ({ g with count := nextCount g.count }, ⟨g.count, g.count⟩)

/-- One cycle of the pseudo-random pattern: a first slot draws a new value. -/
def tickPrbs (g : Generator) (firstSlot : Bool) : Generator × LinkWord :=
  if firstSlot then
    let prbs := g.prbs.next
    let f := PrbsFields.ofValue prbs.state
    ({ g with prbs, word := prbs.state }, ⟨f.ai, f.aq⟩)
  else
    let f := PrbsFields.ofValue g.word
    (g, ⟨f.bi, f.bq⟩)

def tick (g : Generator) (enable : Bool) (mode : PatternMode) (firstSlot : Bool) :
    Generator × Option LinkWord :=
  if enable then
    let (g, w) :=
      match mode with
      | .count => g.tickCount
      | .prbs => g.tickPrbs firstSlot
    (g, some w)
  else (g, none)

end Generator
end LinkBridge
