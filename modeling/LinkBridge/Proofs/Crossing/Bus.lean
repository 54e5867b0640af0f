import LinkBridge.Crossing.Bus

/-!
Laws of the bus crossing.

Nothing but values presented by the source is ever held or copied, so what is true of all of them
is true of the value that the destination sees.  The copied value is also never newer than the
held one, and what is copied later was presented later.  No tick looks at a value, so a crossing of
whole values is a crossing of each of their parts.
-/

namespace LinkBridge.Crossing.BusCrossing

variable {α β : Type}

/-- Whether a tick of the source captures the value that it presents. -/
def captures (b : BusCrossing α) : Bool :=
  !b.source.started ||
    ((b.source.pongChain.drive b.destination.pong).tick).output != b.source.pongSeen

/-- Whether a tick of the destination copies the held value. -/
def copies (b : BusCrossing α) : Bool :=
  ((b.destination.pingChain.drive b.source.ping).tick).output != b.destination.pingSeen

/-! ### What the ticks do -/

theorem sourceTick_of_captures {b : BusCrossing α} (h : b.captures = true) (v : α) :
    b.sourceTick v =
      let pongChain := (b.source.pongChain.drive b.destination.pong).tick
      { b with source :=
        { held := v, ping := !b.source.ping, pongChain, pongSeen := pongChain.output,
          started := true } } := if_pos h

theorem sourceTick_of_waits {b : BusCrossing α} (h : b.captures = false) (v : α) :
    b.sourceTick v =
      { b with source :=
        { b.source with
          pongChain := (b.source.pongChain.drive b.destination.pong).tick } } :=
  if_neg (Bool.eq_false_iff.mp h)

theorem destinationTick_of_copies {b : BusCrossing α} (h : b.copies = true) :
    b.destinationTick =
      let pingChain := (b.destination.pingChain.drive b.source.ping).tick
      { b with destination :=
        { copied := b.source.held, pingChain, pingSeen := pingChain.output,
          pong := !b.destination.pong } } := if_pos h

theorem destinationTick_of_waits {b : BusCrossing α} (h : b.copies = false) :
    b.destinationTick =
      { b with destination :=
        { b.destination with
          pingChain := (b.destination.pingChain.drive b.source.ping).tick } } :=
  if_neg (Bool.eq_false_iff.mp h)

@[simp] theorem value_sourceTick (b : BusCrossing α) (v : α) :
    (b.sourceTick v).value = b.value := by
  cases h : b.captures with
  | true =>
    rw [sourceTick_of_captures h]
    rfl
  | false =>
    rw [sourceTick_of_waits h]
    rfl

/-! ### A part of each value -/

def map (f : α → β) (b : BusCrossing α) : BusCrossing β :=
  { source :=
      { held := f b.source.held, ping := b.source.ping, pongChain := b.source.pongChain,
        pongSeen := b.source.pongSeen, started := b.source.started }
    destination :=
      { copied := f b.destination.copied, pingChain := b.destination.pingChain,
        pingSeen := b.destination.pingSeen, pong := b.destination.pong } }

theorem map_sourceTick (f : α → β) (b : BusCrossing α) (v : α) :
    (b.map f).sourceTick (f v) = (b.sourceTick v).map f := by
  cases h : b.captures with
  | true =>
    have hmap : (b.map f).captures = true := h
    rw [sourceTick_of_captures h, sourceTick_of_captures hmap]
    rfl
  | false =>
    have hmap : (b.map f).captures = false := h
    rw [sourceTick_of_waits h, sourceTick_of_waits hmap]
    rfl

theorem map_destinationTick (f : α → β) (b : BusCrossing α) :
    (b.map f).destinationTick = b.destinationTick.map f := by
  cases h : b.copies with
  | true =>
    have hmap : (b.map f).copies = true := h
    rw [destinationTick_of_copies h, destinationTick_of_copies hmap]
    rfl
  | false =>
    have hmap : (b.map f).copies = false := h
    rw [destinationTick_of_waits h, destinationTick_of_waits hmap]
    rfl

@[simp] theorem value_map (f : α → β) (b : BusCrossing α) : (b.map f).value = f b.value := rfl

/-! ### A predicate on all values -/

structure Holds (P : α → Prop) (b : BusCrossing α) : Prop where
  held : P b.source.held
  copied : P b.destination.copied

namespace Holds

variable {P : α → Prop} {b : BusCrossing α}

theorem new {reset : α} (h : P reset) (stages : Nat) :
    (BusCrossing.new stages reset).Holds P := ⟨h, h⟩

theorem sourceTick (hb : b.Holds P) {v : α} (hv : P v) : (b.sourceTick v).Holds P := by
  unfold BusCrossing.sourceTick
  simp only
  split
  · exact ⟨hv, hb.copied⟩
  · exact ⟨hb.held, hb.copied⟩

theorem destinationTick (hb : b.Holds P) : b.destinationTick.Holds P := by
  unfold BusCrossing.destinationTick
  simp only
  split
  · exact ⟨hb.held, hb.held⟩
  · exact ⟨hb.held, hb.copied⟩

theorem value (hb : b.Holds P) : P b.value := hb.copied

end Holds

/-! ### Where the values come from -/

/-- Both registers hold values seen so far, and the copied one is no newer than the held one. -/
structure Dated (seen : List α) (held copied : Nat) (b : BusCrossing α) : Prop where
  held_eq : seen[held]? = some b.source.held
  copied_eq : seen[copied]? = some b.value
  copied_le : copied ≤ held

namespace Dated

variable {seen : List α} {held copied : Nat} {b : BusCrossing α}

theorem new (stages : Nat) (reset : α) : Dated [reset] 0 0 (BusCrossing.new stages reset) :=
  ⟨rfl, rfl, Nat.le_refl 0⟩

theorem held_lt (h : Dated seen held copied b) : held < seen.length :=
  (List.getElem?_eq_some_iff.mp h.held_eq).1

theorem sourceTick (h : Dated seen held copied b) (v : α) :
    ∃ held', Dated (seen ++ [v]) held' copied (b.sourceTick v) := by
  have hheld := h.held_lt
  have hcopied : (seen ++ [v])[copied]? = some b.value := by
    rw [List.getElem?_append_left (Nat.lt_of_le_of_lt h.copied_le hheld)]
    exact h.copied_eq
  cases hcaptures : b.captures with
  | true =>
    refine ⟨seen.length, ?_, ?_, Nat.le_of_lt (Nat.lt_of_le_of_lt h.copied_le hheld)⟩
    · rw [sourceTick_of_captures hcaptures, List.getElem?_concat_length]
    · rw [sourceTick_of_captures hcaptures]
      exact hcopied
  | false =>
    refine ⟨held, ?_, ?_, h.copied_le⟩
    · rw [sourceTick_of_waits hcaptures, List.getElem?_append_left hheld]
      exact h.held_eq
    · rw [sourceTick_of_waits hcaptures]
      exact hcopied

theorem destinationTick (h : Dated seen held copied b) :
    ∃ copied', copied ≤ copied' ∧ Dated seen held copied' b.destinationTick := by
  cases hcopies : b.copies with
  | true =>
    refine ⟨held, h.copied_le, ?_⟩
    rw [destinationTick_of_copies hcopies]
    exact ⟨h.held_eq, h.held_eq, Nat.le_refl held⟩
  | false =>
    refine ⟨copied, Nat.le_refl copied, ?_⟩
    rw [destinationTick_of_waits hcopies]
    exact ⟨h.held_eq, h.copied_eq, h.copied_le⟩

end Dated
end LinkBridge.Crossing.BusCrossing
