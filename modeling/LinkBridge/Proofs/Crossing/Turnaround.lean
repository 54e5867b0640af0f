import LinkBridge.Proofs.Crossing.Fifo

/-!
How long a cell of the queue stays in use.

A writer that offers at most one value in two of its cycles, and a reader that takes every value it
can see and is clocked between any two cycles of the writer.  A write needs as many reader cycles
as there are stages to become visible, one more to be read, and the read needs as many writer
cycles as there are stages to come back.  So the writer knows of every read that is due to a write
`2 * stages` of its cycles ago, and in that time it has written no more than `stages` values.

`History` is what the writer remembers for this argument: the total written after each of its
cycles.  `Prompt` bounds the read total and both chains from below by entries of the history, each
register by an older entry than the one before it.
-/

namespace LinkBridge.Crossing

/-- The totals written after the writer's last cycle, after the one before, and so on. -/
abbrev History := Nat → Nat

namespace History

def later (past : History) (written : Nat) : History
  | 0 => written
  | i + 1 => past i

/-- A rising total with at most one write in any two cycles. -/
structure Sparse (past : History) : Prop where
  falling : ∀ i, past (i + 1) ≤ past i
  sparse : ∀ i, past i ≤ past (i + 2) + 1

namespace Sparse

variable {past : History}

theorem le_next (h : past.Sparse) (i : Nat) : past i ≤ past (i + 1) + 1 := by
  have hfalling : past (i + 2) ≤ past (i + 1) := h.falling (i + 1)
  have hsparse := h.sparse i
  omega

theorem le_twice (h : past.Sparse) (n : Nat) : past 0 ≤ past (2 * n) + n := by
  induction n with
  | zero => exact Nat.le_refl _
  | succ n ih =>
    have hsparse := h.sparse (2 * n)
    have hindex : 2 * (n + 1) = 2 * n + 2 := by omega
    rw [hindex]
    omega

/-- A cycle that writes only if the last one did not. -/
theorem later (h : past.Sparse) {accepted : Bool} (hrest : accepted = true → past 0 = past 1) :
    (past.later (if accepted then past 0 + 1 else past 0)).Sparse := by
  constructor
  · intro i
    cases i with
    | zero =>
      show past 0 ≤ if accepted then past 0 + 1 else past 0
      split <;> omega
    | succ i => exact h.falling i
  · intro i
    cases i with
    | zero =>
      show (if accepted then past 0 + 1 else past 0) ≤ past 1 + 1
      have hnext := h.le_next 0
      split
      · have := hrest ‹_›
        omega
      · exact hnext
    | succ i => exact h.sparse i

end Sparse
end History

/-- `late` is one from a cycle of the writer to the next cycle of the reader, and zero after it. -/
structure Prompt (stages : Nat) (t : Totals) (past : History) (late : Nat) : Prop where
  late_le : late ≤ 1
  written_eq : t.written = past 0
  sparse : past.Sparse
  stages_pos : 0 < stages
  toReader_stages : t.toReader.stages = stages
  toWriter_stages : t.toWriter.stages = stages
  toReader : t.toReader.AtLeast fun i => past (i + late)
  read : past (stages + late) ≤ t.read
  toWriter : t.toWriter.AtLeast fun i => past (stages + 1 + i)

namespace Prompt

variable {stages late : Nat} {t : Totals} {past : History}

theorem new {stages : Nat} (h : minStages ≤ stages) :
    Prompt stages (Totals.new stages) (fun _ => 0) 0 := by
  have hstages : (Chain.new stages 0).stages = stages := by
    rw [Chain.stages_new]
    exact Nat.max_eq_left h
  exact {
    late_le := Nat.zero_le _
    written_eq := rfl
    sparse := ⟨fun _ => Nat.le_refl _, fun _ => Nat.zero_le _⟩
    stages_pos := Nat.lt_of_lt_of_le (by decide) h
    toReader_stages := hstages
    toWriter_stages := hstages
    toReader := Chain.AtLeast.zero _
    read := Nat.zero_le _
    toWriter := Chain.AtLeast.zero _ }

/-- A cycle of a reader that takes a value whenever it sees one. -/
theorem take (h : Prompt stages t past late) {taken : Bool}
    (htaken : t.read < t.toReader.output → taken = true) :
    Prompt stages (t.take taken) past 0 := by
  have hlate := h.late_le
  have hpos := h.stages_pos
  have hread := h.read
  have hseen := h.toReader.output (by rw [h.toReader_stages]; exact hpos)
  rw [h.toReader_stages] at hseen
  refine {
    late_le := Nat.zero_le _
    written_eq := h.written_eq
    sparse := h.sparse
    stages_pos := hpos
    toReader_stages := Chain.stages_drive_tick hpos h.toReader_stages _
    toWriter_stages := h.toWriter_stages
    toReader := ?_
    read := ?_
    toWriter := h.toWriter }
  · refine Chain.AtLeast.tick_drive (h.toReader.mono fun i => ?_) (Nat.le_of_eq h.written_eq.symm)
    obtain rfl | rfl : late = 0 ∨ late = 1 := by omega
    · exact h.sparse.falling i
    · exact Nat.le_refl _
  · -- one read makes up for the one cycle by which the reader was late
    show past stages ≤ if taken then t.read + 1 else t.read
    obtain rfl | rfl : late = 0 ∨ late = 1 := by omega
    · have hread : past stages ≤ t.read := hread
      split <;> omega
    · have hnext := h.sparse.le_next stages
      have hindex : stages - 1 + 1 = stages := by omega
      rw [hindex] at hseen
      split
      · omega
      · have hnone : ¬ t.read < t.toReader.output := fun hlt => absurd (htaken hlt) ‹_›
        omega

/-- A cycle of the writer, with the reader clocked since the last one. -/
theorem write (h : Prompt stages t past 0) {accepted : Bool}
    (hrest : accepted = true → past 0 = past 1) :
    Prompt stages (t.write accepted)
      (past.later (if accepted then past 0 + 1 else past 0)) 1 where
  late_le := Nat.le_refl _
  written_eq := by
    show (if accepted then t.written + 1 else t.written) = _
    rw [h.written_eq]
    rfl
  sparse := h.sparse.later hrest
  stages_pos := h.stages_pos
  toReader_stages := h.toReader_stages
  toWriter_stages := Chain.stages_drive_tick h.stages_pos h.toWriter_stages _
  toReader := h.toReader
  read := h.read
  toWriter := h.toWriter.tick_drive h.read

/-- The writer never sees more than `stages` cells in use. -/
theorem written_le (h : Prompt stages t past late) :
    t.written ≤ t.toWriter.output + stages := by
  have hpos := h.stages_pos
  have hseen := h.toWriter.output (by rw [h.toWriter_stages]; exact hpos)
  have htwice := h.sparse.le_twice stages
  have hindex : stages + 1 + (t.toWriter.stages - 1) = 2 * stages := by
    rw [h.toWriter_stages]
    omega
  rw [hindex] at hseen
  rw [h.written_eq]
  omega

end Prompt
end LinkBridge.Crossing
