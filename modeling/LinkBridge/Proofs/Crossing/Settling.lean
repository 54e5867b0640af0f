import LinkBridge.Proofs.Crossing.Handshake

/-!
How a bus crossing settles.

Let the source present one value from some point on.  What was captured before is copied within as
many ticks of the destination as there are stages; as many ticks of the source later the source has
heard of it, and has captured the value at the latest then; and as many ticks of the destination
later that capture has been copied.  Every further capture brings the same value, so from then on
the destination sees it for good, whatever other ticks come in between.

`Heard` and `Answered` follow a total through the chain to the other side, one register a tick.
-/

namespace LinkBridge.Crossing

/-- A bound that the first registers have reached. -/
def risen (total ticks i : Nat) : Nat := if i < ticks then total else 0

theorem Chain.AtLeast.tick_risen {c : Chain Nat} {total ticks v : Nat}
    (h : c.AtLeast (risen total ticks)) (hv : total ≤ v) :
    (c.drive v).tick.AtLeast (risen total (ticks + 1)) := by
  refine tick_drive (h.mono fun i => ?_) ?_
  · unfold risen
    split
    · rw [if_pos (by omega)]
    · exact Nat.zero_le _
  · unfold risen
    rw [if_pos (Nat.succ_pos ticks)]
    exact hv

theorem Chain.AtLeast.output_risen {c : Chain Nat} {total ticks : Nat}
    (h : c.AtLeast (risen total ticks)) (hpos : 0 < c.stages) (hticks : c.stages ≤ ticks) :
    total ≤ c.output := by
  have houtput := h.output hpos
  unfold risen at houtput
  rw [if_pos (by omega)] at houtput
  exact houtput

/-- After some ticks of the reader since so much was written. -/
structure Heard (stages total ticks : Nat) (t : Totals) : Prop where
  le_written : total ≤ t.written
  risen : t.toReader.AtLeast (risen total ticks)
  le_read : stages ≤ ticks → total ≤ t.read

/-- After some ticks of the writer since so much was read. -/
structure Answered (stages total ticks : Nat) (t : Totals) : Prop where
  le_read : total ≤ t.read
  risen : t.toWriter.AtLeast (risen total ticks)
  lt_written : stages ≤ ticks → total < t.written

namespace BusCrossing

variable {α : Type} {b : BusCrossing α} {t : Totals} {stages total ticks : Nat} {v : α}
  {i : Tick α}

def Tick.isSource : Tick α → Bool
  | .source _ => true
  | .destination => false

def Tick.isDestination : Tick α → Bool
  | .source _ => false
  | .destination => true

def Tick.Presents (v : α) : Tick α → Prop
  | .source value => value = v
  | .destination => True

/-- Of all captures beyond a total, the source has presented one value. -/
structure Renewed (stages total : Nat) (v : α) (b : BusCrossing α) (t : Totals) : Prop where
  tracks : b.Tracks t
  stages_pos : 0 < stages
  toReader_stages : t.toReader.stages = stages
  toWriter_stages : t.toWriter.stages = stages
  held_eq : total < t.written → b.source.held = v
  value_eq : total < t.read → b.value = v

def totalsAfter (b : BusCrossing α) (t : Totals) : Tick α → Totals
  | .source _ => t.write b.captures
  | .destination => t.take b.copies

theorem Renewed.tick (h : Renewed stages total v b t) (hi : i.Presents v) :
    Renewed stages total v (b.tick i) (b.totalsAfter t i) := by
  cases i with
  | source value =>
    obtain rfl := hi
    refine ⟨h.tracks.sourceTick value, h.stages_pos, h.toReader_stages,
      Chain.stages_drive_tick h.stages_pos h.toWriter_stages _, fun hlt => ?_, fun hlt => ?_⟩
    · show (b.sourceTick value).source.held = value
      cases hcaptures : b.captures with
      | true => rw [sourceTick_of_captures hcaptures]
      | false =>
        have hwritten : total < t.written := by
          have hlt : total < if b.captures then t.written + 1 else t.written := hlt
          rw [hcaptures] at hlt
          exact hlt
        rw [sourceTick_of_waits hcaptures]
        exact h.held_eq hwritten
    · exact (b.value_sourceTick value).trans (h.value_eq hlt)
  | destination =>
    refine ⟨h.tracks.destinationTick, h.stages_pos,
      Chain.stages_drive_tick h.stages_pos h.toReader_stages _, h.toWriter_stages, fun hlt => ?_,
      fun hlt => ?_⟩
    · show b.destinationTick.source.held = v
      cases hcopies : b.copies with
      | true =>
        rw [destinationTick_of_copies hcopies]
        exact h.held_eq hlt
      | false =>
        rw [destinationTick_of_waits hcopies]
        exact h.held_eq hlt
    · show b.destinationTick.value = v
      have hlt : total < if b.copies then t.read + 1 else t.read := hlt
      cases hcopies : b.copies with
      | true =>
        have hone := h.tracks.written_eq_of_copies hcopies
        rw [hcopies, if_pos rfl, ← hone] at hlt
        rw [destinationTick_of_copies hcopies]
        exact h.held_eq hlt
      | false =>
        rw [hcopies] at hlt
        rw [destinationTick_of_waits hcopies]
        exact h.value_eq hlt

theorem heard_tick (hb : Renewed stages total v b t) {w : Nat} (h : Heard stages w ticks t)
    (i : Tick α) :
    Heard stages w (ticks + i.isDestination.toNat) (b.totalsAfter t i) := by
  cases i with
  | source value =>
    refine ⟨?_, h.risen, h.le_read⟩
    show w ≤ if b.captures then t.written + 1 else t.written
    have hwritten := h.le_written
    split <;> omega
  | destination =>
    have hrisen := h.risen.tick_risen h.le_written
    refine ⟨h.le_written, hrisen, fun hticks => ?_⟩
    have hstages := Chain.stages_drive_tick hb.stages_pos hb.toReader_stages t.written
    have houtput := hrisen.output_risen (hstages ▸ hb.stages_pos) (hstages ▸ hticks)
    show w ≤ if b.copies then t.read + 1 else t.read
    cases hcopies : b.copies with
    | true =>
      rw [if_pos rfl, ← hb.tracks.written_eq_of_copies hcopies]
      exact h.le_written
    | false =>
      have hnone : ¬t.read < (t.toReader.drive t.written).tick.output := fun hlt => by
        rw [hb.tracks.copies_iff.mpr hlt] at hcopies
        exact nomatch hcopies
      rw [if_neg (by simp)]
      omega

theorem answered_tick (hb : Renewed stages total v b t) {w : Nat} (h : Answered stages w ticks t)
    (i : Tick α) :
    Answered stages w (ticks + i.isSource.toNat) (b.totalsAfter t i) := by
  have hread := hb.tracks.read_le_written
  cases i with
  | destination =>
    refine ⟨?_, h.risen, h.lt_written⟩
    show w ≤ if b.copies then t.read + 1 else t.read
    have hle := h.le_read
    split <;> omega
  | source value =>
    have hrisen := h.risen.tick_risen h.le_read
    refine ⟨h.le_read, hrisen, fun hticks => ?_⟩
    have hstages := Chain.stages_drive_tick hb.stages_pos hb.toWriter_stages t.read
    have houtput := hrisen.output_risen (hstages ▸ hb.stages_pos) (hstages ▸ hticks)
    have hseen := hb.tracks.toWriter_bounds.2
    have hle := h.le_read
    show w < if b.captures then t.written + 1 else t.written
    cases hcaptures : b.captures with
    | true =>
      rw [if_pos rfl]
      omega
    | false =>
      -- a source that hears of all its captures captures again
      have hmore : (t.toWriter.drive t.read).tick.output ≠ t.written := fun heq => by
        rw [hb.tracks.captures_iff.mpr heq] at hcaptures
        exact nomatch hcaptures
      rw [if_neg (by simp)]
      omega

/-! ### Runs -/

variable {inputs : List (Tick α)}

/-- What counts the ticks of one side step by step counts them over a run. -/
theorem counted_run {Q : Nat → Totals → Prop} {p : Tick α → Bool}
    (hstep : ∀ {b t n}, Renewed stages total v b t → Q n t →
      ∀ i, Q (n + (p i).toNat) (b.totalsAfter t i))
    (hb : Renewed stages total v b t) (h : Q ticks t) (hv : ∀ i ∈ inputs, i.Presents v) :
    ∃ u, Renewed stages total v (Trace.final tick b inputs) u ∧
      Q (ticks + inputs.countP p) u := by
  induction inputs generalizing b t ticks with
  | nil => exact ⟨t, hb, h⟩
  | cons i rest ih =>
    obtain ⟨hnow, hlater⟩ := List.forall_mem_cons.mp hv
    obtain ⟨u, hu, hcounted⟩ := ih (hb.tick hnow) (hstep hb h i) hlater
    have hcount : (i :: rest).countP p = (p i).toNat + rest.countP p := by
      rw [List.countP_cons, Nat.add_comm]
      cases p i <;> rfl
    refine ⟨u, hu, ?_⟩
    rw [hcount, ← Nat.add_assoc]
    exact hcounted

/-- A crossing in a state that it can come to, with so many stages each way. -/
def Staged (stages : Nat) (b : BusCrossing α) : Prop :=
  0 < stages ∧ ∃ t, b.Tracks t ∧ t.toReader.stages = stages ∧ t.toWriter.stages = stages

namespace Staged

theorem new (stages : Nat) (reset : α) :
    (BusCrossing.new stages reset).Staged (max stages minStages) :=
  ⟨Chain.max_stages_pos stages, Totals.new stages, tracks_new stages reset,
    Chain.stages_new stages 0, Chain.stages_new stages 0⟩

theorem renewed (h : b.Staged stages) (v : α) : ∃ t, Renewed stages t.written v b t := by
  obtain ⟨hpos, t, htracks, hreader, hwriter⟩ := h
  refine ⟨t, htracks, hpos, hreader, hwriter, fun hlt => absurd hlt (Nat.lt_irrefl _),
    fun hlt => ?_⟩
  exact absurd hlt (Nat.not_lt.mpr htracks.read_le_written)

theorem tick (h : b.Staged stages) (i : Tick α) : (b.tick i).Staged stages := by
  have hnext : ∀ {v : α}, i.Presents v → (b.tick i).Staged stages := by
    intro v hi
    obtain ⟨t, ht⟩ := h.renewed v
    have hafter := ht.tick hi
    exact ⟨hafter.stages_pos, _, hafter.tracks, hafter.toReader_stages, hafter.toWriter_stages⟩
  cases i with
  | source value => exact hnext (v := value) rfl
  | destination => exact hnext (v := b.value) trivial

end Staged

/-- A crossing takes the value of its source there, back and there again. -/
theorem value_settled (h : b.Staged stages) {first back again : List (Tick α)}
    (hv : ∀ i ∈ first ++ back ++ again, i.Presents v)
    (hfirst : stages ≤ first.countP Tick.isDestination)
    (hback : stages ≤ back.countP Tick.isSource)
    (hagain : stages ≤ again.countP Tick.isDestination) :
    (Trace.final tick b (first ++ back ++ again)).value = v := by
  obtain ⟨hearlier, hvagain⟩ := List.forall_mem_append.mp hv
  obtain ⟨hvfirst, hvback⟩ := List.forall_mem_append.mp hearlier
  obtain ⟨t, hstart⟩ := h.renewed v
  have hpos := hstart.stages_pos
  have hnone : ∀ (c : Chain Nat) (w : Nat), c.AtLeast (risen w 0) := fun c w i u _ => by
    simp [risen]
  have hheardStart : Heard stages t.written 0 t :=
    ⟨Nat.le_refl _, hnone _ _, fun h => absurd hpos (by omega)⟩
  obtain ⟨t₁, hb₁, hheard⟩ := counted_run (heard_tick · ·) hstart hheardStart hvfirst
  have hread : t.written ≤ t₁.read := hheard.le_read (by omega)
  have hansweredStart : Answered stages t.written 0 t₁ :=
    ⟨hread, hnone _ _, fun h => absurd hpos (by omega)⟩
  obtain ⟨t₂, hb₂, hanswered⟩ := counted_run (answered_tick · ·) hb₁ hansweredStart hvback
  have hwritten : t.written < t₂.written := hanswered.lt_written (by omega)
  have hagainStart : Heard stages (t.written + 1) 0 t₂ :=
    ⟨hwritten, hnone _ _, fun h => absurd hpos (by omega)⟩
  obtain ⟨t₃, hb₃, hagainHeard⟩ := counted_run (heard_tick · ·) hb₂ hagainStart hvagain
  have hcopied : t.written + 1 ≤ t₃.read := hagainHeard.le_read (by omega)
  rw [Trace.final_append, Trace.final_append]
  exact hb₃.value_eq hcopied

/-! ### From any state -/

theorem staged_final (stages : Nat) (reset : α) (ticks : List (Tick α)) :
    (Trace.final tick (new stages reset) ticks).Staged (max stages minStages) :=
  Trace.final_invariant (P := Staged (max stages minStages)) (fun _ i hb _ => hb.tick i)
    (.new stages reset) (Trace.along_true _ ticks)

/-- So many ticks there, back and there again. -/
def roundTrip (stages : Nat) (v : α) : List (Tick α) :=
  List.replicate stages .destination ++
    (List.replicate stages (.source v) ++ List.replicate stages .destination)

/-- A schedule with the ticks of a round trip falls into its three ways. -/
theorem exists_ways {schedule : List (Tick α)} (h : (roundTrip stages v).Sublist schedule) :
    ∃ first back again, schedule = first ++ back ++ again ∧
      stages ≤ first.countP Tick.isDestination ∧ stages ≤ back.countP Tick.isSource ∧
      stages ≤ again.countP Tick.isDestination := by
  have hcount : ∀ {p : Tick α → Bool} {i : Tick α} {way : List (Tick α)}, p i = true →
      (List.replicate stages i).Sublist way → stages ≤ way.countP p := by
    intro p i way hi hway
    have hle := hway.countP_le (p := p)
    rw [List.countP_replicate, if_pos hi] at hle
    exact hle
  obtain ⟨first, rest, rfl, hfirst, hrest⟩ := List.append_sublist_iff.mp h
  obtain ⟨back, again, rfl, hback, hagain⟩ := List.append_sublist_iff.mp hrest
  exact ⟨first, back, again, (List.append_assoc first back again).symm, hcount rfl hfirst,
    hcount rfl hback, hcount rfl hagain⟩

/-- Whatever ticks came before: from when on the source presents one value only, the destination
sees it after any schedule with the ticks of a round trip in it, and it sees it for good. -/
theorem value_converges (stages : Nat) (reset v : α) (earlier : List (Tick α))
    {schedule later : List (Tick α)} (hpresents : ∀ i ∈ schedule ++ later, i.Presents v)
    (hround : (roundTrip (max stages minStages) v).Sublist schedule) :
    (Trace.final tick (new stages reset) (earlier ++ (schedule ++ later))).value = v := by
  obtain ⟨first, back, again, rfl, hfirst, hback, hagain⟩ := exists_ways hround
  rw [Trace.final_append]
  rw [List.append_assoc] at hpresents ⊢
  refine value_settled (staged_final stages reset earlier) hpresents hfirst hback ?_
  rw [List.countP_append]
  exact Nat.le_add_right_of_le hagain

/-- With 1 under way the source turns to 2, and other ticks come between those of the round trip. -/
theorem value_converges_while_waiting :
    let earlier : List (Tick Nat) := [.source 1, .destination, .source 1]
    let schedule : List (Tick Nat) :=
      [.source 2, .destination, .source 2, .destination, .source 2, .destination, .source 2,
        .destination, .destination]
    let later : List (Tick Nat) := [.source 2, .destination]
    (∀ i ∈ schedule ++ later, i.Presents 2) ∧
      (roundTrip (max 2 minStages) 2).Sublist schedule ∧
      (Trace.final tick (new 2 0) (earlier ++ (schedule ++ later))).value = 2 := by
  intro earlier schedule later
  have hpresents : ∀ i ∈ schedule ++ later, i.Presents 2 := by simp [schedule, later, Tick.Presents]
  have hround : (roundTrip (max 2 minStages) 2).Sublist schedule := by decide
  exact ⟨hpresents, hround, value_converges 2 0 2 earlier hpresents hround⟩

end BusCrossing
end LinkBridge.Crossing
