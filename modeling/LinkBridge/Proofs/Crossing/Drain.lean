import LinkBridge.Proofs.Crossing.Fifo

/-!
What the sides of a queue come to know.

Each tick of a side takes in the other side's pointer as it is.  While the other side rests, the
registers fill up with that one pointer, and after as many ticks as there are stages it is what the
side compares with its own (`WriterKnows`, `ReaderKnows`).  From then on the flags are exact, and a
reader that goes on reading takes a value in every tick until the queue is empty.
-/

namespace LinkBridge.Crossing

/-- So many stages each way. -/
structure Totals.Staged (stages : Nat) (t : Totals) : Prop where
  stages_pos : 0 < stages
  toReader : t.toReader.stages = stages
  toWriter : t.toWriter.stages = stages

namespace Totals.Staged

variable {stages : Nat} {t : Totals}

theorem new (stages : Nat) : (Totals.new stages).Staged (max stages minStages) where
  stages_pos := Chain.max_stages_pos stages
  toReader := Chain.stages_new stages 0
  toWriter := Chain.stages_new stages 0

theorem write (h : t.Staged stages) (accepted : Bool) : (t.write accepted).Staged stages :=
  ⟨h.stages_pos, h.toReader, Chain.stages_drive_tick h.stages_pos h.toWriter _⟩

theorem take (h : t.Staged stages) (taken : Bool) : (t.take taken).Staged stages :=
  ⟨h.stages_pos, Chain.stages_drive_tick h.stages_pos h.toReader _, h.toWriter⟩

end Totals.Staged

namespace Fifo

variable {α : Type} {f : Fifo α} {stages ticks : Nat}

/-- A queue in a state that it can come to, with so many stages each way. -/
def Staged (stages : Nat) (f : Fifo α) : Prop := ∃ t, f.Tracks t ∧ t.Staged stages

/-- The last ticks of the writer found the read pointer where it is now. -/
def WriterKnows (stages ticks : Nat) (f : Fifo α) : Prop :=
  ∃ t, f.Tracks t ∧ t.Staged stages ∧ t.toWriter.FilledTo ticks t.read

/-- The last ticks of the reader found the write pointer where it is now. -/
def ReaderKnows (stages ticks : Nat) (f : Fifo α) : Prop :=
  ∃ t, f.Tracks t ∧ t.Staged stages ∧ t.toReader.FilledTo ticks t.written

theorem Staged.writerKnows (h : f.Staged stages) : f.WriterKnows stages 0 := by
  obtain ⟨t, htracks, hstaged⟩ := h
  exact ⟨t, htracks, hstaged, Chain.FilledTo.zero _ _⟩

theorem Staged.readerKnows (h : f.Staged stages) : f.ReaderKnows stages 0 := by
  obtain ⟨t, htracks, hstaged⟩ := h
  exact ⟨t, htracks, hstaged, Chain.FilledTo.zero _ _⟩

theorem WriterKnows.valid (h : f.WriterKnows stages ticks) : f.Valid := by
  obtain ⟨t, htracks, -⟩ := h
  exact ⟨t, htracks⟩

theorem ReaderKnows.valid (h : f.ReaderKnows stages ticks) : f.Valid := by
  obtain ⟨t, htracks, -⟩ := h
  exact ⟨t, htracks⟩

variable [Inhabited α]

theorem Staged.new (depth stages : Nat) :
    (Fifo.new depth stages : Fifo α).Staged (max stages minStages) :=
  ⟨_, tracks_new depth stages, Totals.Staged.new stages⟩

theorem Staged.tick (h : f.Staged stages) (i : Tick α) : (f.tick i).Staged stages := by
  obtain ⟨t, htracks, hstaged⟩ := h
  cases i with
  | write input => exact ⟨_, htracks.writeTick input, hstaged.write _⟩
  | read ready => exact ⟨_, htracks.readTick ready, hstaged.take _⟩

namespace WriterKnows

theorem write (h : f.WriterKnows stages ticks) (input : Option α) :
    (f.tick (.write input)).WriterKnows stages (ticks + 1) := by
  obtain ⟨t, htracks, hstaged, hfilled⟩ := h
  exact ⟨_, htracks.writeTick input, hstaged.write _, Chain.FilledTo.tick hfilled rfl⟩

theorem writable_iff (h : f.WriterKnows stages ticks) (hticks : stages ≤ ticks) :
    f.writable = true ↔ f.queued.length < f.depth := by
  obtain ⟨t, htracks, hstaged, hfilled⟩ := h
  have hread := htracks.read_le_written
  have hseen : t.toWriter.output = t.read :=
    hfilled.output (hstaged.toWriter ▸ hstaged.stages_pos) (hstaged.toWriter ▸ hticks)
  rw [htracks.writable_iff, htracks.queued_length, hseen]
  omega

end WriterKnows

namespace ReaderKnows

theorem read (h : f.ReaderKnows stages ticks) (ready : Bool) :
    (f.tick (.read ready)).ReaderKnows stages (ticks + 1) := by
  obtain ⟨t, htracks, hstaged, hfilled⟩ := h
  exact ⟨_, htracks.readTick ready, hstaged.take _, Chain.FilledTo.tick hfilled rfl⟩

theorem readable_iff (h : f.ReaderKnows stages ticks) (hticks : stages ≤ ticks) :
    f.readable = true ↔ 0 < f.queued.length := by
  obtain ⟨t, htracks, hstaged, hfilled⟩ := h
  have hseen : t.toReader.output = t.written :=
    hfilled.output (hstaged.toReader ▸ hstaged.stages_pos) (hstaged.toReader ▸ hticks)
  rw [htracks.readable_iff, htracks.queued_length, hseen]
  omega

end ReaderKnows

/-! ### Runs of one side -/

theorem queued_write_none (h : f.Valid) : (f.tick (.write none)).queued = f.queued := by
  obtain ⟨t, ht⟩ := h
  have hnone : f.accepted none = none := ite_self _
  show (f.writeTick none).1.queued = f.queued
  rw [ht.queued_writeTick, hnone]
  exact List.append_nil _

theorem queued_read_false (h : f.Valid) : (f.tick (.read false)).queued = f.queued := by
  obtain ⟨t, ht⟩ := h
  exact ht.queued_readTick false

/-- What ready reads return is taken off the front of the contents. -/
theorem returned_reads (h : f.Valid) (flags : List Bool) :
    Trace.gather tick returnedBy f (flags.map .read) ++
      (Trace.final tick f (flags.map .read)).queued = f.queued := by
  induction flags generalizing f with
  | nil => rfl
  | cons ready rest ih =>
    have hrest := ih (valid_tick h (.read ready))
    obtain ⟨t, ht⟩ := h
    show ((f.taken ready).toList ++ Trace.gather tick returnedBy _ (rest.map .read)) ++
      (Trace.final tick (f.tick (.read ready)) (rest.map .read)).queued = f.queued
    rw [List.append_assoc, hrest]
    exact ht.queued_readTick ready

theorem final_concat (f : Fifo α) (count : Nat) (i : Tick α) :
    Trace.final tick f (List.replicate (count + 1) i) =
      (Trace.final tick f (List.replicate count i)).tick i := by
  rw [List.replicate_succ', Trace.final_append]
  rfl

/-- A writer that offers nothing learns the read pointer, and nothing else changes. -/
theorem writerKnows_run (h : f.Staged stages) (count : Nat) :
    let g := Trace.final tick f (List.replicate count (.write none))
    g.WriterKnows stages count ∧ g.queued = f.queued ∧ g.depth = f.depth := by
  intro g
  induction count with
  | zero => exact ⟨h.writerKnows, rfl, rfl⟩
  | succ count ih =>
    obtain ⟨hknows, hqueued, hdepth⟩ := ih
    have hg : g = _ := final_concat f count (.write none)
    rw [hg]
    exact ⟨hknows.write none, (queued_write_none hknows.valid).trans hqueued,
      (depth_tick _ _).trans hdepth⟩

theorem readerKnows_run (h : f.Staged stages) (ready : Bool) (count : Nat) :
    (Trace.final tick f (List.replicate count (.read ready))).ReaderKnows stages count := by
  induction count with
  | zero => exact h.readerKnows
  | succ count ih =>
    rw [final_concat]
    exact ih.read ready

theorem queued_run_false (h : f.Staged stages) (count : Nat) :
    (Trace.final tick f (List.replicate count (.read false))).queued = f.queued := by
  induction count with
  | zero => rfl
  | succ count ih =>
    rw [final_concat, queued_read_false (readerKnows_run h false count).valid]
    exact ih

theorem length_read (h : f.Valid) (ready : Bool) :
    (if (f.taken ready).isSome then 1 else 0) + (f.tick (.read ready)).queued.length =
      f.queued.length := by
  obtain ⟨t, ht⟩ := h
  rw [← ht.queued_readTick ready, List.length_append, Option.length_toList]
  rfl

theorem isSome_taken_true (f : Fifo α) : (f.taken true).isSome = f.readable := by
  show f.peek.isSome = _
  unfold peek
  cases f.readable <;> rfl

/-- Every tick of a reader that is ready and knows of all values takes one, if there is one. -/
theorem ReaderKnows.length_read (h : f.ReaderKnows stages ticks) (hticks : stages ≤ ticks) :
    (f.tick (.read true)).queued.length = f.queued.length - 1 := by
  have hreadable := h.readable_iff hticks
  have hlength := Fifo.length_read h.valid true
  rw [isSome_taken_true] at hlength
  split at hlength
  · omega
  · have hempty : ¬0 < f.queued.length := fun hpos => absurd (hreadable.mpr hpos) ‹_›
    omega

theorem length_queued_reads (h : f.Staged stages) (count : Nat) :
    (Trace.final tick f (List.replicate count (.read true))).queued.length ≤
      f.queued.length - (count - stages) := by
  induction count with
  | zero => exact Nat.sub_le_sub_left (Nat.sub_le 0 stages) _
  | succ count ih =>
    have hknows := readerKnows_run h true count
    have hlength := Fifo.length_read hknows.valid true
    rw [final_concat]
    by_cases hticks : stages ≤ count
    · rw [hknows.length_read hticks]
      omega
    · omega

/-- As many ready reads as there are stages and values empty the queue. -/
theorem queued_after_reads (h : f.Staged stages) :
    (Trace.final tick f (List.replicate (stages + f.queued.length) (.read true))).queued = [] := by
  have hlength := length_queued_reads h (stages + f.queued.length)
  rw [Nat.add_sub_cancel_left, Nat.sub_self] at hlength
  exact List.eq_nil_of_length_eq_zero (Nat.le_zero.mp hlength)

/-! ### Runs from reset -/

theorem staged_final (depth stages : Nat) (ticks : List (Tick α)) :
    (Trace.final tick (new depth stages) ticks : Fifo α).Staged (max stages minStages) :=
  Trace.final_invariant (P := Staged (max stages minStages)) (fun _ i hg _ => hg.tick i)
    (.new depth stages) (Trace.along_true _ ticks)

/-- The contents are what was accepted and not yet returned. -/
theorem queued_final (depth stages : Nat) (ticks : List (Tick α)) :
    (Trace.final tick (new depth stages) ticks : Fifo α).queued =
      (Trace.gather tick acceptedBy (new depth stages) ticks).drop
        (Trace.gather tick returnedBy (new depth stages) ticks).length := by
  have hbalance := Trace.gather_balance (queued (α := α)) (fun _ i hg _ => valid_tick hg i)
    (fun _ i hg _ => queued_tick hg i) (valid_new depth stages) (Trace.along_true _ ticks)
  rw [queued_new, List.nil_append] at hbalance
  rw [← hbalance, List.drop_left]

/-- From any state that a queue can come to: once one side has ticked as often as there are stages
while the other rests, its flag is exact; and as many reads as there are stages and unread values
return just these values in order, and no read after them returns another. -/
theorem flags_settle_and_contents_drain (depth stages : Nat) (ticks : List (Tick α)) :
    let start : Fifo α := new depth stages
    let f := Trace.final tick start ticks
    let accepted := Trace.gather tick acceptedBy start ticks
    let returned := Trace.gather tick returnedBy start ticks
    let unread := accepted.drop returned.length
    let s := max stages minStages
    let reads := List.replicate (s + unread.length) (.read true)
    (∀ count, s ≤ count →
      ((Trace.final tick f (List.replicate count (.write none))).writable = true ↔
        unread.length < f.depth)) ∧
      (∀ count, s ≤ count →
        ((Trace.final tick f (List.replicate count (.read false))).readable = true ↔
          0 < unread.length)) ∧
      Trace.gather tick returnedBy f reads = unread ∧
      ∀ further : List Bool,
        Trace.gather tick returnedBy (Trace.final tick f reads) (further.map .read) = [] := by
  intro start f accepted returned unread s reads
  have hstaged : f.Staged s := staged_final depth stages ticks
  have hunread : f.queued = unread := queued_final depth stages ticks
  have hempty : (Trace.final tick f reads).queued = [] := by
    show (Trace.final tick f (List.replicate (s + unread.length) (.read true))).queued = []
    rw [← hunread]
    exact queued_after_reads hstaged
  refine ⟨fun count hcount => ?_, fun count hcount => ?_, ?_, fun further => ?_⟩
  · obtain ⟨hknows, hqueued, hdepth⟩ := writerKnows_run hstaged count
    rw [hknows.writable_iff hcount, hqueued, hdepth, hunread]
  · rw [(readerKnows_run hstaged false count).readable_iff hcount, queued_run_false hstaged,
      hunread]
  · have hall := returned_reads hstaged.readerKnows.valid (List.replicate (s + unread.length) true)
    rw [List.map_replicate, hempty, List.append_nil, hunread] at hall
    exact hall
  · have hnone := returned_reads (readerKnows_run hstaged true (s + unread.length)).valid further
    rw [hempty] at hnone
    exact (List.append_eq_nil_iff.mp hnone).1

end Fifo
end LinkBridge.Crossing
