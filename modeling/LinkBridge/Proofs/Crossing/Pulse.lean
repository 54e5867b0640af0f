import LinkBridge.Crossing.Pulse
import LinkBridge.Proofs.Crossing.Chain

/-!
Laws of the pulse crossing.

A tick of the destination compares the level that comes out of the chain with the one that came out
a tick before.  Both entered the chain `stages - 1` ticks earlier, so a pulse is seen exactly if the
level changed between two earlier ticks: if an odd number of pulses was sent between them.  An even
number leaves no trace.
-/

namespace LinkBridge.Crossing.PulseCrossing

/-- The levels that `n` ticks of the destination found.  The level of reset stands for everything
before the first tick. -/
structure Fed (p : PulseCrossing) (stages : Nat) (level : Nat → Bool) (n : Nat) : Prop where
  chain : p.chain.Fed stages (level 0) ((List.range n).map fun k => level (k + 1))
  seen_eq : p.seen = p.chain.output

namespace Fed

variable {p : PulseCrossing} {stages n : Nat} {level : Nat → Bool}

theorem new (hstages : minStages ≤ stages) (hreset : level 0 = false) :
    (PulseCrossing.new stages).Fed stages level 0 := by
  refine ⟨?_, (Chain.output_new stages false).symm⟩
  rw [hreset]
  exact Chain.Fed.new hstages false

theorem pulse (h : p.Fed stages level n) : p.pulse.Fed stages level n := ⟨h.chain, h.seen_eq⟩

theorem chain_tick (h : p.Fed stages level n) (hlevel : p.level = level (n + 1)) :
    (p.chain.drive p.level).tick.Fed stages (level 0)
      ((List.range (n + 1)).map fun k => level (k + 1)) := by
  have hnext := (h.chain.drive p.level).tick
  rw [Chain.source_drive, hlevel] at hnext
  rw [hlevel, List.range_succ, List.map_append]
  exact hnext

theorem tick (h : p.Fed stages level n) (hlevel : p.level = level (n + 1)) :
    p.tick.1.Fed stages level (n + 1) :=
  ⟨h.chain_tick hlevel, rfl⟩

/-- A tick sees a pulse if the level changed between the two ticks that it looks back to. -/
theorem sees_iff (h : p.Fed stages level n) (hlevel : p.level = level (n + 1)) :
    p.tick.2 = true ↔ level (n + 1 + 1 - stages) ≠ level (n + 1 - stages) := by
  have hbefore := h.chain.output_eq
  have hnow := (h.chain_tick hlevel).output_eq
  show ((p.chain.drive p.level).tick.output != p.seen) = true ↔ _
  rw [h.seen_eq, hbefore, hnow, bne_iff_ne]

end Fed
end LinkBridge.Crossing.PulseCrossing
