import LinkBridge.Proofs.Crossing.Bus
import LinkBridge.Proofs.Crossing.Fifo
import Mathlib.Order.Monotone.Basic

/-!
The bus crossing hands each captured value over once.

The source flips `ping` once for each capture and the destination flips `pong` once for each copy,
and each chain carries older and older flips to the other side.  So the crossing is a queue with a
single place, and `Totals` describes it as it does the dual-clock queue:

  `read ≤ oldest copy of written`   and   `written ≤ oldest copy of read + 1`.

Of each total only the parity crosses.  That is enough, since what a side compares never differs by
more than one.
-/

namespace LinkBridge.Crossing

/-- A level that started low, after a number of flips. -/
def levelAfter (flips : Nat) : Bool := flips % 2 == 1

@[simp] theorem levelAfter_succ (n : Nat) : levelAfter (n + 1) = !levelAfter n := by
  simp only [levelAfter]
  rcases Nat.mod_two_eq_zero_or_one n with h | h
  · have hnext : (n + 1) % 2 = 1 := by omega
    simp [h, hnext]
  · have hnext : (n + 1) % 2 = 0 := by omega
    simp [h, hnext]

/-- Two counts that are at most one apart are equal if their levels are. -/
theorem levelAfter_eq_iff {m n : Nat} (hle : m ≤ n) (hnear : n ≤ m + 1) :
    levelAfter n = levelAfter m ↔ n = m := by
  by_cases h : n = m
  · simp [h]
  · obtain rfl : n = m + 1 := by omega
    simp

namespace BusCrossing

variable {α : Type}

/-- What levels, chains and what has been seen of them stand for. -/
structure Tracks (b : BusCrossing α) (t : Totals) : Prop where
  ping_eq : b.source.ping = levelAfter t.written
  pong_eq : b.destination.pong = levelAfter t.read
  pingSeen_eq : b.destination.pingSeen = levelAfter t.read
  pongSeen_eq : b.source.pongSeen = levelAfter (t.written - 1)
  started_eq : b.source.started = decide (0 < t.written)
  pingChain_eq : b.destination.pingChain = t.toReader.map levelAfter
  pongChain_eq : b.source.pongChain = t.toWriter.map levelAfter
  toReader_follows : t.toReader.Follows t.written
  toWriter_follows : t.toWriter.Follows t.read
  read_le : t.read ≤ t.toReader.output
  written_le : t.written ≤ t.toWriter.output + 1

theorem tracks_new (stages : Nat) (reset : α) :
    (new stages reset).Tracks (Totals.new stages) where
  ping_eq := rfl
  pong_eq := rfl
  pingSeen_eq := rfl
  pongSeen_eq := rfl
  started_eq := rfl
  pingChain_eq := (Chain.map_new levelAfter stages 0).symm
  pongChain_eq := (Chain.map_new levelAfter stages 0).symm
  toReader_follows := Chain.Follows.new stages 0
  toWriter_follows := Chain.Follows.new stages 0
  read_le := Nat.zero_le _
  written_le := Nat.zero_le _

namespace Tracks

variable {b : BusCrossing α} {t : Totals}

theorem read_le_written (h : b.Tracks t) : t.read ≤ t.written :=
  Nat.le_trans h.read_le h.toReader_follows.output_le

theorem written_le_read (h : b.Tracks t) : t.written ≤ t.read + 1 := by
  have hcopy := h.toWriter_follows.output_le
  have hwritten := h.written_le
  omega

/-- The copy of the read total that the source sees in a tick. -/
theorem toWriter_bounds (h : b.Tracks t) :
    t.written ≤ (t.toWriter.drive t.read).tick.output + 1 ∧
      (t.toWriter.drive t.read).tick.output ≤ t.read := by
  have hdrive := h.toWriter_follows.output_le_drive
  have htick := h.toWriter_follows.drive.output_le_tick
  have hwritten := h.written_le
  exact ⟨by omega, h.toWriter_follows.drive.tick.output_le⟩

theorem toReader_bounds (h : b.Tracks t) :
    t.read ≤ (t.toReader.drive t.written).tick.output ∧
      (t.toReader.drive t.written).tick.output ≤ t.written := by
  have hdrive := h.toReader_follows.output_le_drive
  have htick := h.toReader_follows.drive.output_le_tick
  have hread := h.read_le
  exact ⟨by omega, h.toReader_follows.drive.tick.output_le⟩

theorem pongChain_tick (h : b.Tracks t) :
    (b.source.pongChain.drive b.destination.pong).tick =
      ((t.toWriter.drive t.read).tick).map levelAfter := by
  rw [h.pongChain_eq, h.pong_eq, Chain.map_drive, Chain.map_tick]

theorem pingChain_tick (h : b.Tracks t) :
    (b.destination.pingChain.drive b.source.ping).tick =
      ((t.toReader.drive t.written).tick).map levelAfter := by
  rw [h.pingChain_eq, h.ping_eq, Chain.map_drive, Chain.map_tick]

/-- The source captures when it sees that all captured values have been copied. -/
theorem captures_iff (h : b.Tracks t) :
    b.captures = true ↔ (t.toWriter.drive t.read).tick.output = t.written := by
  obtain ⟨hlow, hhigh⟩ := h.toWriter_bounds
  have hread := h.read_le_written
  simp only [captures, h.pongChain_tick, Chain.output_map, h.pongSeen_eq, h.started_eq]
  generalize (t.toWriter.drive t.read).tick.output = n at hlow hhigh ⊢
  by_cases hzero : t.written = 0
  · have hn : n = 0 := by omega
    simp [hzero, hn]
  · have hstarted : 0 < t.written := by omega
    have hlevel := levelAfter_eq_iff (m := t.written - 1) (n := n) (by omega) (by omega)
    simp only [hstarted, decide_true, Bool.not_true, Bool.false_or, bne_iff_ne, ne_eq, hlevel]
    omega

theorem copies_iff (h : b.Tracks t) :
    b.copies = true ↔ t.read < (t.toReader.drive t.written).tick.output := by
  obtain ⟨hlow, hhigh⟩ := h.toReader_bounds
  have hwritten := h.written_le_read
  have hlevel := levelAfter_eq_iff hlow (by omega)
  simp only [copies, h.pingChain_tick, Chain.output_map, h.pingSeen_eq, bne_iff_ne, ne_eq, hlevel]
  omega

/-- A capture finds every captured value copied. -/
theorem written_eq_of_captures (h : b.Tracks t) (hcaptures : b.captures = true) :
    t.written = t.read := by
  have hseen := h.captures_iff.mp hcaptures
  have hhigh := h.toWriter_bounds.2
  have hread := h.read_le_written
  omega

/-- A copy finds one value captured and not yet copied. -/
theorem written_eq_of_copies (h : b.Tracks t) (hcopies : b.copies = true) :
    t.written = t.read + 1 := by
  have hseen := h.copies_iff.mp hcopies
  have hhigh := h.toReader_bounds.2
  have hwritten := h.written_le_read
  omega

theorem ping_eq_pong_iff (h : b.Tracks t) :
    b.source.ping = b.destination.pong ↔ t.written = t.read := by
  rw [h.ping_eq, h.pong_eq]
  exact levelAfter_eq_iff h.read_le_written h.written_le_read

end Tracks

/-! ### Ticks -/

namespace Tracks

variable {b : BusCrossing α} {t : Totals}

theorem sourceTick (h : b.Tracks t) (v : α) : (b.sourceTick v).Tracks (t.write b.captures) := by
  obtain ⟨hlow, hhigh⟩ := h.toWriter_bounds
  cases hcaptures : b.captures with
  | true =>
    have hseen := h.captures_iff.mp hcaptures
    rw [sourceTick_of_captures hcaptures]
    exact {
      ping_eq := by
        show (!b.source.ping) = levelAfter (t.written + 1)
        rw [h.ping_eq, levelAfter_succ]
      pong_eq := h.pong_eq
      pingSeen_eq := h.pingSeen_eq
      pongSeen_eq := by
        show (b.source.pongChain.drive b.destination.pong).tick.output = levelAfter t.written
        rw [h.pongChain_tick, Chain.output_map, hseen]
      started_eq := (decide_eq_true (Nat.succ_pos t.written)).symm
      pingChain_eq := h.pingChain_eq
      pongChain_eq := h.pongChain_tick
      toReader_follows := h.toReader_follows.mono (Nat.le_succ _)
      toWriter_follows := h.toWriter_follows.drive.tick
      read_le := h.read_le
      written_le := by
        show t.written + 1 ≤ (t.toWriter.drive t.read).tick.output + 1
        omega }
  | false =>
    rw [sourceTick_of_waits hcaptures]
    exact {
      ping_eq := h.ping_eq
      pong_eq := h.pong_eq
      pingSeen_eq := h.pingSeen_eq
      pongSeen_eq := h.pongSeen_eq
      started_eq := h.started_eq
      pingChain_eq := h.pingChain_eq
      pongChain_eq := h.pongChain_tick
      toReader_follows := h.toReader_follows
      toWriter_follows := h.toWriter_follows.drive.tick
      read_le := h.read_le
      written_le := hlow }

theorem destinationTick (h : b.Tracks t) : b.destinationTick.Tracks (t.take b.copies) := by
  obtain ⟨hlow, hhigh⟩ := h.toReader_bounds
  cases hcopies : b.copies with
  | true =>
    have hseen := h.copies_iff.mp hcopies
    have hone := h.written_eq_of_copies hcopies
    rw [destinationTick_of_copies hcopies]
    exact {
      ping_eq := h.ping_eq
      pong_eq := by
        show (!b.destination.pong) = levelAfter (t.read + 1)
        rw [h.pong_eq, levelAfter_succ]
      pingSeen_eq := by
        show (b.destination.pingChain.drive b.source.ping).tick.output = levelAfter (t.read + 1)
        have hnew : (t.toReader.drive t.written).tick.output = t.read + 1 := by omega
        rw [h.pingChain_tick, Chain.output_map, hnew]
      pongSeen_eq := h.pongSeen_eq
      started_eq := h.started_eq
      pingChain_eq := h.pingChain_tick
      pongChain_eq := h.pongChain_eq
      toReader_follows := h.toReader_follows.drive.tick
      toWriter_follows := h.toWriter_follows.mono (Nat.le_succ _)
      read_le := hseen
      written_le := h.written_le }
  | false =>
    rw [destinationTick_of_waits hcopies]
    exact {
      ping_eq := h.ping_eq
      pong_eq := h.pong_eq
      pingSeen_eq := h.pingSeen_eq
      pongSeen_eq := h.pongSeen_eq
      started_eq := h.started_eq
      pingChain_eq := h.pingChain_tick
      pongChain_eq := h.pongChain_eq
      toReader_follows := h.toReader_follows.drive.tick
      toWriter_follows := h.toWriter_follows
      read_le := hlow
      written_le := h.written_le }

end Tracks

/-! ### Runs -/

inductive Tick (α : Type) where
  | source (value : α)
  | destination
deriving DecidableEq, Repr

def tick (b : BusCrossing α) : Tick α → BusCrossing α
  | .source value => b.sourceTick value
  | .destination => b.destinationTick

def presentedBy (_ : BusCrossing α) : Tick α → List α
  | .source value => [value]
  | .destination => []

/-- The value that a tick loads into the holding register, which `ping` announces. -/
def capturedBy (b : BusCrossing α) : Tick α → List α
  | .source value =>
    let next := b.sourceTick value
    if next.source.ping = b.source.ping then [] else [next.source.held]
  | .destination => []

/-- The value that a tick copies out of the holding register, which `pong` announces. -/
def copiedBy (b : BusCrossing α) : Tick α → List α
  | .source _ => []
  | .destination =>
    let next := b.destinationTick
    if next.destination.pong = b.destination.pong then [] else [next.value]

/-- A captured value that is still to be copied. -/
def waiting (b : BusCrossing α) : List α :=
  if b.source.ping = b.destination.pong then [] else [b.source.held]

theorem length_waiting_le (b : BusCrossing α) : b.waiting.length ≤ 1 := by
  simp only [waiting]
  split <;> simp

def Valid (b : BusCrossing α) : Prop := ∃ t, b.Tracks t

theorem valid_tick {b : BusCrossing α} (h : b.Valid) (i : Tick α) : (b.tick i).Valid := by
  obtain ⟨t, ht⟩ := h
  cases i with
  | source value => exact ⟨_, ht.sourceTick value⟩
  | destination => exact ⟨_, ht.destinationTick⟩

/-- A value is captured only when none waits, and then it waits until it is copied. -/
theorem waiting_tick {b : BusCrossing α} (h : b.Valid) (i : Tick α) :
    b.copiedBy i ++ (b.tick i).waiting = b.waiting ++ b.capturedBy i := by
  obtain ⟨t, ht⟩ := h
  cases i with
  | source value =>
    simp only [copiedBy, capturedBy, tick, waiting]
    cases hcaptures : b.captures with
    | true =>
      have hempty := ht.ping_eq_pong_iff.mpr (ht.written_eq_of_captures hcaptures)
      simp [sourceTick_of_captures hcaptures, hempty]
    | false => simp [sourceTick_of_waits hcaptures]
  | destination =>
    simp only [copiedBy, capturedBy, tick, waiting]
    cases hcopies : b.copies with
    | true =>
      have hone := ht.written_eq_of_copies hcopies
      have hfull : b.source.ping = !b.destination.pong := by
        rw [ht.ping_eq, ht.pong_eq, hone, levelAfter_succ]
      simp [destinationTick_of_copies hcopies, hfull, value]
    | false => simp [destinationTick_of_waits hcopies]

/-- While a captured value waits, a tick of the source leaves it alone. -/
theorem held_of_waiting {b : BusCrossing α} (h : b.Valid) (hwaiting : b.waiting ≠ []) (v : α) :
    b.waiting = [b.source.held] ∧ (b.sourceTick v).source.held = b.source.held := by
  obtain ⟨t, ht⟩ := h
  have hne : b.source.ping ≠ b.destination.pong := by
    intro heq
    simp [waiting, heq] at hwaiting
  refine ⟨if_neg hne, ?_⟩
  cases hcaptures : b.captures with
  | true => exact absurd (ht.ping_eq_pong_iff.mpr (ht.written_eq_of_captures hcaptures)) hne
  | false => rw [sourceTick_of_waits hcaptures]

theorem dated_tick {seen : List α} {copied : Nat} {b : BusCrossing α}
    (h : ∃ held, Dated seen held copied b) (i : Tick α) :
    ∃ later, copied ≤ later ∧
      ∃ held, Dated (seen ++ b.presentedBy i) held later (b.tick i) := by
  obtain ⟨held, hdated⟩ := h
  cases i with
  | source value => exact ⟨copied, Nat.le_refl _, hdated.sourceTick value⟩
  | destination =>
    obtain ⟨later, hle, hnext⟩ := hdated.destinationTick
    refine ⟨later, hle, held, ?_⟩
    show Dated (seen ++ []) held later b.destinationTick
    rw [List.append_nil]
    exact hnext

/-- Ticks of the two sides in any order copy each captured value once and in order, before the next
one is captured; and what the destination sees is the reset value or a value presented, never an
older one than before. -/
theorem handshake_transfers_once (stages : Nat) (reset : α) (ticks : List (Tick α)) :
    let start : BusCrossing α := new stages reset
    let last := Trace.final tick start ticks
    let captured := Trace.gather tick capturedBy start ticks
    let copied := Trace.gather tick copiedBy start ticks
    copied <+: captured ∧ captured.length ≤ copied.length + 1 ∧
      (copied.length < captured.length →
        captured.getLast? = some last.source.held ∧
          ∀ v, (last.sourceTick v).source.held = last.source.held) ∧
      ∃ origin : Nat → Nat, Monotone origin ∧ ∀ n,
        (reset :: Trace.gather tick presentedBy start (ticks.take n))[origin n]? =
          some (Trace.final tick start (ticks.take n)).value := by
  intro start last captured copied
  have hfree : Trace.Along tick (fun _ _ => True) start ticks := Trace.along_true start ticks
  have hstart : start.Valid := ⟨_, tracks_new stages reset⟩
  have hvalid : last.Valid :=
    Trace.final_invariant (P := Valid) (fun b i hb _ => valid_tick hb i) hstart hfree
  have hbalance : copied ++ last.waiting = captured :=
    Trace.gather_balance waiting (fun b i hb _ => valid_tick hb i)
      (fun b i hb _ => waiting_tick hb i) hstart hfree
  refine ⟨⟨_, hbalance⟩, ?_, ?_, ?_⟩
  · have hone := last.length_waiting_le
    rw [← hbalance, List.length_append]
    omega
  · intro hlength
    have hwaiting : last.waiting ≠ [] := by
      intro hnone
      rw [← hbalance, hnone, List.append_nil] at hlength
      exact Nat.lt_irrefl _ hlength
    refine ⟨?_, fun v => (held_of_waiting hvalid hwaiting v).2⟩
    rw [← hbalance, (held_of_waiting hvalid hwaiting reset).1, List.getLast?_concat]
  · obtain ⟨origin, -, hrising, hall⟩ :=
      Trace.exists_rising (R := fun seen n b => ∃ held, Dated seen held n b)
        (fun seen n b i hb => dated_tick hb i) ⟨0, Dated.new stages reset⟩ ticks
    refine ⟨origin, monotone_nat_of_le_succ hrising, fun n => ?_⟩
    obtain ⟨held, hdated⟩ := hall n
    exact hdated.copied_eq

end BusCrossing
end LinkBridge.Crossing
