import LinkBridge.Proofs.Crossing.Turnaround

/-!
A queue that does not run dry.

Free places travel through a queue as values do, only the other way: a read hands a place over to
the writer, and a write uses one up.  `Totals.places` looks at a queue in this way, and then a
reader that takes a value in every other cycle is the slow side of `Prompt`, and a writer that
writes whenever it can is the fast one.  What says there that few values are under way says here
that few places are, so with one place more than stages there is always a value to be read.

This holds from the first read on.  Until then the queue fills by at least one value between any two
cycles of the reader (`Filling`), and when the first value comes out of the chain to the reader, the
values behind it are as many as `Prompt` asks for.
-/

namespace LinkBridge.Crossing

namespace Totals

/-- The totals of the places handed over and used up, of which there were `room` to start with. -/
def places (t : Totals) (room : Nat) : Totals :=
  { written := t.read + room
    read := t.written
    toReader := t.toWriter.map (· + room)
    toWriter := t.toReader }

variable (t : Totals) (room : Nat)

theorem places_write (accepted : Bool) :
    (t.write accepted).places room = (t.places room).take accepted := by
  simp only [places, write, take, ← Chain.map_tick, ← Chain.map_drive]

theorem places_take (taken : Bool) :
    (t.take taken).places room = (t.places room).write taken := by
  have hsum : (if taken then t.read + 1 else t.read) + room =
      if taken then t.read + room + 1 else t.read + room := by
    split <;> omega
  simp only [places, write, take, hsum]

end Totals

/-- Nothing has been read.  The first value written has come as far as `reached` along the chain to
the reader, and with each register it went, at least one more was written. -/
structure Filling (stages : Nat) (t : Totals) (reached late : Nat) : Prop where
  late_le : late ≤ 1
  stages_pos : 0 < stages
  read_eq : t.read = 0
  toReader_stages : t.toReader.stages = stages
  toWriter_stages : t.toWriter.stages = stages
  reached_le : reached ≤ stages
  filled : t.toReader.AtLeast fun i => reached - i
  empty : ∀ i v, t.toReader.registers[i]? = some v → reached ≤ i → v = 0
  ahead : reached < t.written + late ∨ reached = 0 ∧ t.written = 0

namespace Filling

variable {stages reached late : Nat} {t : Totals}

theorem new (h : minStages ≤ stages) : Filling stages (Totals.new stages) 0 0 := by
  have hstages : (Chain.new stages 0).stages = stages := by
    rw [Chain.stages_new]
    exact Nat.max_eq_left h
  exact {
    late_le := Nat.zero_le _
    stages_pos := Nat.lt_of_lt_of_le (by decide) h
    read_eq := rfl
    toReader_stages := hstages
    toWriter_stages := hstages
    reached_le := Nat.zero_le _
    filled := fun i v _ => by simp
    empty := by
      intro i v hv _
      exact List.eq_of_mem_replicate (List.mem_of_getElem? hv)
    ahead := .inr ⟨rfl, rfl⟩ }

/-- A cycle of a writer that has not yet used up all places. -/
theorem write (h : Filling stages t reached late) {accepted : Bool}
    (haccepted : t.written ≤ stages → accepted = true) :
    Filling stages (t.write accepted) reached 0 ∧ (t.write accepted).written ≠ 0 := by
  have hlate := h.late_le
  have hpos := h.stages_pos
  have hreached := h.reached_le
  have hahead : reached < (t.write accepted).written := by
    show reached < if accepted then t.written + 1 else t.written
    split
    · rcases h.ahead with hlt | ⟨hzero, -⟩ <;> omega
    · have hfull : ¬ t.written ≤ stages := fun hle => absurd (haccepted hle) ‹_›
      omega
  refine ⟨{
    late_le := Nat.zero_le _
    stages_pos := hpos
    read_eq := h.read_eq
    toReader_stages := h.toReader_stages
    toWriter_stages := Chain.stages_drive_tick hpos h.toWriter_stages _
    reached_le := hreached
    filled := h.filled
    empty := h.empty
    ahead := .inl hahead }, by omega⟩

/-- A cycle of the reader that takes nothing, with the writer clocked since the last one. -/
theorem take (h : Filling stages t reached 0) :
    Filling stages (t.take false) (if t.written = 0 then 0 else min (reached + 1) stages) 1 := by
  have hpos := h.stages_pos
  have hreached := h.reached_le
  have hahead := h.ahead
  generalize hnext : (if t.written = 0 then 0 else min (reached + 1) stages) = next
  have hle : next ≤ reached + 1 ∧ next ≤ t.written ∧ next ≤ stages := by
    split at hnext <;> omega
  refine {
    late_le := Nat.le_refl _
    stages_pos := hpos
    read_eq := h.read_eq
    toReader_stages := Chain.stages_drive_tick hpos h.toReader_stages _
    toWriter_stages := h.toWriter_stages
    reached_le := hle.2.2
    filled := Chain.AtLeast.tick_drive (h.filled.mono fun i => ?_) hle.2.1
    empty := ?_
    ahead := .inl (Nat.lt_succ_of_le hle.2.1) }
  · show next - (i + 1) ≤ reached - i
    omega
  · intro i v hv hi
    cases i with
    | zero =>
      obtain rfl : t.written = v := Option.some.inj hv
      split at hnext <;> omega
    | succ i =>
      have hold : t.toReader.registers.dropLast[i]? = some v := hv
      rw [List.getElem?_dropLast] at hold
      split at hold
      · rename_i hlast
        have hlength : t.toReader.registers.length = stages := h.toReader_stages
        refine h.empty i v hold ?_
        split at hnext <;> omega
      · simp at hold

/-- The reader sees a value once the first one has come out of the chain. -/
theorem output_pos_iff (h : Filling stages t reached late) :
    0 < t.toReader.output ↔ reached = stages := by
  have hpos := h.stages_pos
  have hreached := h.reached_le
  have hstages := h.toReader_stages
  constructor
  · intro hseen
    have hlast : t.toReader.registers[stages - 1]? = some t.toReader.output := by
      rw [← hstages]
      exact t.toReader.getElem?_last (by omega)
    have hempty := h.empty _ _ hlast
    omega
  · rintro rfl
    have hseen := h.filled.output (by omega)
    rw [hstages] at hseen
    omega

/-- Before the first read the places are those that a slow reader would have left. -/
theorem prompt (h : Filling stages t stages 0) :
    Prompt stages (t.places (stages + 1)) (fun i => stages + 1 - i / 2) 0 := by
  have hpos := h.stages_pos
  have hfull : stages < t.written := by
    rcases h.ahead with hlt | ⟨hzero, -⟩ <;> omega
  refine {
    late_le := Nat.zero_le _
    written_eq := ?_
    sparse := ⟨fun i => ?_, fun i => ?_⟩
    stages_pos := hpos
    toReader_stages := ?_
    toWriter_stages := h.toReader_stages
    toReader := ?_
    read := ?_
    toWriter := ?_ }
  · show t.read + (stages + 1) = _
    rw [h.read_eq]
    omega
  · show stages + 1 - (i + 1) / 2 ≤ stages + 1 - i / 2
    omega
  · show stages + 1 - i / 2 ≤ stages + 1 - (i + 2) / 2 + 1
    omega
  · show (t.toWriter.map _).stages = stages
    rw [Chain.stages_map, h.toWriter_stages]
  · intro i v hv
    have hv : (t.toWriter.registers.map (· + (stages + 1)))[i]? = some v := hv
    rw [List.getElem?_map, Option.map_eq_some_iff] at hv
    obtain ⟨u, -, rfl⟩ := hv
    show stages + 1 - (i + 0) / 2 ≤ u + (stages + 1)
    omega
  · show stages + 1 - (stages + 0) / 2 ≤ t.written
    omega
  · intro i v hv
    have hi : i < t.toReader.registers.length := (List.getElem?_eq_some_iff.mp hv).1
    have hlength : t.toReader.registers.length = stages := h.toReader_stages
    have hv : stages - i ≤ v := h.filled i v hv
    show stages + 1 - (stages + 1 + i) / 2 ≤ v
    omega

end Filling

namespace Prompt

variable {stages late room : Nat} {t : Totals} {past : History}

/-- A cycle of a writer that writes whenever it sees a place. -/
theorem writePlaces (h : Prompt stages (t.places room) past late) {accepted : Bool}
    (haccepted : t.written < t.toWriter.output + room → accepted = true) :
    Prompt stages ((t.write accepted).places room) past 0 := by
  rw [Totals.places_write]
  refine h.take fun hseen => haccepted ?_
  have houtput : (t.places room).toReader.output = t.toWriter.output + room := Chain.output_map _ _
  rw [← houtput]
  exact hseen

/-- A cycle of a reader that takes nothing right after a value it took. -/
theorem takePlaces (h : Prompt stages (t.places room) past 0) {taken : Bool}
    (hrest : taken = true → past 0 = past 1) :
    Prompt stages ((t.take taken).places room)
      (past.later (if taken then past 0 + 1 else past 0)) 1 := by
  rw [Totals.places_take]
  exact h.write hrest

/-- With one place more than stages the reader always sees a value. -/
theorem read_lt (h : Prompt stages (t.places (stages + 1)) past late) :
    t.read < t.toReader.output := by
  have hle : t.read + (stages + 1) ≤ t.toReader.output + stages := h.written_le
  omega

end Prompt
end LinkBridge.Crossing
