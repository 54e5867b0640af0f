import LinkBridge.Crossing.Fifo
import LinkBridge.Proofs.Crossing.Chain
import LinkBridge.Proofs.Crossing.Gray
import LinkBridge.Proofs.Trace
import Mathlib.Data.Nat.Basic

/-!
The dual-clock queue is a queue.

Pointers wrap and cross as Gray codes, so the argument runs on totals that do neither: how many
values were ever written and read, and which of these totals are still under way in each chain.
`Tracks` says that the pointers and chains of a queue are the images of such totals and that

  `read ≤ oldest copy of written`   and   `written ≤ oldest copy of read + depth`.

Every tick keeps it.  The contents are the cells between the true pointers, a write appends to them
and a read takes their head, so a run gives out what it took in, in order.
-/

namespace LinkBridge

/-! ### Rounding up to a power of two -/

theorem ceilPow2_pos (n : Nat) : 0 < ceilPow2 n := by
  unfold ceilPow2
  split
  · exact Nat.one_pos
  · exact Nat.two_pow_pos _

theorem le_ceilPow2 (n : Nat) : n ≤ ceilPow2 n := by
  unfold ceilPow2
  split
  · assumption
  · have h : n - 1 < pow2 ((n - 1).log2 + 1) := Nat.lt_log2_self
    omega

/-- No power of two lies between a number and the one it is rounded up to. -/
theorem ceilPow2_le {n k : Nat} (h : n ≤ pow2 k) : ceilPow2 n ≤ pow2 k := by
  unfold ceilPow2
  split
  · exact Nat.two_pow_pos k
  · have hlog : (n - 1).log2 < k := (Nat.log2_lt (by omega)).mpr (by
      have hk : pow2 k = 2 ^ k := rfl
      omega)
    exact Nat.pow_le_pow_right (by decide) hlog

theorem ceilPow2_pow2 (k : Nat) : ceilPow2 (pow2 k) = pow2 k :=
  Nat.le_antisymm (ceilPow2_le (Nat.le_refl _)) (le_ceilPow2 _)

namespace Crossing

/-! ### Wrapped counts -/

/-- Distances between wrapped counts are those of the counts, within one turn. -/
theorem wrapped_sub {a b m : Nat} (hle : b ≤ a) (hlt : a < b + m) :
    (a % m + m - b % m) % m = a - b := by
  obtain ⟨d, rfl⟩ := Nat.exists_eq_add_of_le hle
  have hd : d < m := by omega
  have hb : b % m < m := Nat.mod_lt _ (by omega)
  have hsum : (b + d) % m = (b % m + d) % m := by rw [Nat.mod_add_mod]
  rw [hsum, Nat.add_sub_cancel_left]
  by_cases hwrap : b % m + d < m
  · rw [Nat.mod_eq_of_lt hwrap]
    have h : b % m + d + m - b % m = d + m := by omega
    rw [h, Nat.add_mod_right, Nat.mod_eq_of_lt hd]
  · have hmod : (b % m + d) % m = b % m + d - m := by
      rw [Nat.mod_eq_sub_mod (by omega), Nat.mod_eq_of_lt (by omega)]
    rw [hmod]
    have h : b % m + d - m + m - b % m = d := by omega
    rw [h, Nat.mod_eq_of_lt hd]

theorem wrapped_ne {a b m : Nat} (hlt : b < a) (hturn : a < b + m) : a % m ≠ b % m := by
  intro h
  have hsub := wrapped_sub (Nat.le_of_lt hlt) hturn
  have hm : b % m + m - b % m = m := by omega
  rw [h, hm, Nat.mod_self] at hsub
  omega

/-- What the pointers stand for: the totals written and read since reset, and the copies of them
under way to the other side. -/
structure Totals where
  written : Nat := 0
  read : Nat := 0
  toReader : Chain Nat
  toWriter : Chain Nat

namespace Totals

def new (stages : Nat) : Totals :=
  { toReader := Chain.new stages 0, toWriter := Chain.new stages 0 }

def write (t : Totals) (accepted : Bool) : Totals :=
  { t with
    written := if accepted then t.written + 1 else t.written
    toWriter := (t.toWriter.drive t.read).tick }

def take (t : Totals) (taken : Bool) : Totals :=
  { t with
    read := if taken then t.read + 1 else t.read
    toReader := (t.toReader.drive t.written).tick }

end Totals

namespace Fifo

variable {α : Type}

theorem depth_dvd_modulus (f : Fifo α) : f.depth ∣ f.modulus := Nat.dvd_mul_left _ _

/-- A total as it crosses: wrapped and coded. -/
def code (f : Fifo α) (n : Nat) : Nat := gray (n % f.modulus)

structure Tracks (f : Fifo α) (t : Totals) : Prop where
  depth_pos : 0 < f.depth
  cells_size : f.cells.size = f.depth
  writePtr_eq : f.writePtr = t.written % f.modulus
  readPtr_eq : f.readPtr = t.read % f.modulus
  readChain_eq : f.readChain = t.toReader.map f.code
  writeChain_eq : f.writeChain = t.toWriter.map f.code
  toReader_follows : t.toReader.Follows t.written
  toWriter_follows : t.toWriter.Follows t.read
  read_le : t.read ≤ t.toReader.output
  written_le : t.written ≤ t.toWriter.output + f.depth

def fill (f : Fifo α) : Nat := (f.writePtr + f.modulus - f.readPtr) % f.modulus

/-- The values not yet read, the oldest first. -/
def queued [Inhabited α] (f : Fifo α) : List α :=
  (List.range f.fill).map fun i => f.cells.getD ((f.readPtr + i) % f.depth) default

theorem peek_some [Inhabited α] {f : Fifo α} {v : α} (h : f.peek = some v) :
    f.readable = true ∧ v = f.cells.getD (f.readPtr % f.depth) default := by
  unfold peek at h
  split at h
  · exact ⟨‹_›, (Option.some.inj h).symm⟩
  · simp at h

theorem tracks_new [Inhabited α] (depth stages : Nat) :
    (new depth stages : Fifo α).Tracks (Totals.new stages) := by
  have hdepth : 0 < ceilPow2 (max depth 2) := ceilPow2_pos _
  have hcode : (new depth stages : Fifo α).code 0 = 0 := by
    show gray (0 % _) = 0
    rw [Nat.zero_mod]
    rfl
  have hchain : Chain.new stages 0 =
      (Chain.new stages 0).map (new depth stages : Fifo α).code := by
    rw [Chain.map_new, hcode]
  exact {
    depth_pos := hdepth
    cells_size := Array.size_replicate
    writePtr_eq := (Nat.zero_mod _).symm
    readPtr_eq := (Nat.zero_mod _).symm
    readChain_eq := hchain
    writeChain_eq := hchain
    toReader_follows := Chain.Follows.new stages 0
    toWriter_follows := Chain.Follows.new stages 0
    read_le := Nat.zero_le _
    written_le := Nat.zero_le _ }

namespace Tracks

variable {f : Fifo α} {t : Totals}

theorem read_le_written (h : f.Tracks t) : t.read ≤ t.written :=
  Nat.le_trans h.read_le h.toReader_follows.output_le

theorem written_le_read (h : f.Tracks t) : t.written ≤ t.read + f.depth := by
  have hcopy := h.toWriter_follows.output_le
  have hwritten := h.written_le
  omega

theorem lt_modulus (h : f.Tracks t) {a b : Nat} (hab : a ≤ b + f.depth) : a < b + f.modulus := by
  have hdepth := h.depth_pos
  unfold modulus
  omega

theorem fill_eq (h : f.Tracks t) : f.fill = t.written - t.read := by
  unfold fill
  rw [h.writePtr_eq, h.readPtr_eq]
  exact wrapped_sub h.read_le_written (h.lt_modulus h.written_le_read)

/-- The writer sees the fill that the oldest copy of the read total gives. -/
theorem fillSeen_eq (h : f.Tracks t) : f.fillSeen = t.written - t.toWriter.output := by
  unfold fillSeen
  rw [h.writePtr_eq, h.writeChain_eq, Chain.output_map, code, ungray_gray, Nat.mod_mod]
  refine wrapped_sub ?_ (h.lt_modulus h.written_le)
  exact Nat.le_trans h.toWriter_follows.output_le h.read_le_written

theorem writable_iff (h : f.Tracks t) :
    f.writable = true ↔ t.written < t.toWriter.output + f.depth := by
  have hcopy := Nat.le_trans h.toWriter_follows.output_le h.read_le_written
  rw [writable, decide_eq_true_iff, h.fillSeen_eq]
  omega

theorem readable_iff (h : f.Tracks t) : f.readable = true ↔ t.read < t.toReader.output := by
  have hread := h.read_le
  have hcopy := h.toReader_follows.output_le
  have hfull := h.written_le_read
  rw [readable, bne_iff_ne, h.readChain_eq, Chain.output_map, code, ungray_gray, h.readPtr_eq]
  constructor
  · intro hne
    refine Nat.lt_of_le_of_ne hread ?_
    intro heq
    exact hne (by rw [heq])
  · intro hlt
    exact wrapped_ne hlt (h.lt_modulus (by omega))

theorem cell_eq (h : f.Tracks t) (i : Nat) :
    (f.readPtr + i) % f.depth = (t.read + i) % f.depth := by
  rw [h.readPtr_eq, Nat.add_mod, Nat.mod_mod_of_dvd _ f.depth_dvd_modulus, ← Nat.add_mod]

theorem queued_eq [Inhabited α] (h : f.Tracks t) :
    f.queued = (List.range (t.written - t.read)).map
      fun i => f.cells.getD ((t.read + i) % f.depth) default := by
  unfold queued
  rw [h.fill_eq]
  simp only [h.cell_eq]

theorem queued_length [Inhabited α] (h : f.Tracks t) :
    f.queued.length = t.written - t.read := by
  rw [h.queued_eq, List.length_map, List.length_range]

theorem queued_length_le [Inhabited α] (h : f.Tracks t) : f.queued.length ≤ f.depth := by
  have hfull := h.written_le_read
  rw [h.queued_length]
  omega

theorem head_queued [Inhabited α] (h : f.Tracks t) {v : α} (hv : f.peek = some v) :
    f.queued.head? = some v := by
  obtain ⟨hreadable, hcell⟩ := peek_some hv
  have hread := h.readable_iff.mp hreadable
  have hcopy := h.toReader_follows.output_le
  obtain ⟨n, hn⟩ : ∃ n, f.fill = n + 1 := by
    rw [h.fill_eq]
    exact Nat.exists_eq_succ_of_ne_zero (by omega)
  rw [queued, hn, List.range_succ_eq_map, List.map_cons, List.head?_cons, Nat.add_zero, hcell]

/-! ### Ticks -/

theorem push (h : f.Tracks t) (v : α) (hspace : t.written < t.toWriter.output + f.depth) :
    (f.push v).Tracks { t with written := t.written + 1 } where
  depth_pos := h.depth_pos
  cells_size := by
    show (f.cells.setIfInBounds _ v).size = f.depth
    rw [Array.size_setIfInBounds, h.cells_size]
  writePtr_eq := by
    show (f.writePtr + 1) % f.modulus = (t.written + 1) % f.modulus
    rw [h.writePtr_eq, Nat.mod_add_mod]
  readPtr_eq := h.readPtr_eq
  readChain_eq := h.readChain_eq
  writeChain_eq := h.writeChain_eq
  toReader_follows := h.toReader_follows.mono (Nat.le_succ _)
  toWriter_follows := h.toWriter_follows
  read_le := h.read_le
  written_le := hspace

theorem drop (h : f.Tracks t) (hmore : t.read < t.toReader.output) :
    f.drop.Tracks { t with read := t.read + 1 } where
  depth_pos := h.depth_pos
  cells_size := h.cells_size
  writePtr_eq := h.writePtr_eq
  readPtr_eq := by
    show (f.readPtr + 1) % f.modulus = (t.read + 1) % f.modulus
    rw [h.readPtr_eq, Nat.mod_add_mod]
  readChain_eq := h.readChain_eq
  writeChain_eq := h.writeChain_eq
  toReader_follows := h.toReader_follows
  toWriter_follows := h.toWriter_follows.mono (Nat.le_succ _)
  read_le := hmore
  written_le := h.written_le

theorem clockWriter (h : f.Tracks t) :
    ({ f with writeChain := (f.writeChain.drive (gray f.readPtr)).tick } : Fifo α).Tracks
      { t with toWriter := (t.toWriter.drive t.read).tick } where
  depth_pos := h.depth_pos
  cells_size := h.cells_size
  writePtr_eq := h.writePtr_eq
  readPtr_eq := h.readPtr_eq
  readChain_eq := h.readChain_eq
  writeChain_eq := by
    show (f.writeChain.drive (gray f.readPtr)).tick = ((t.toWriter.drive t.read).tick).map f.code
    rw [h.writeChain_eq, h.readPtr_eq, ← Chain.map_tick, ← Chain.map_drive]
    rfl
  toReader_follows := h.toReader_follows
  toWriter_follows := h.toWriter_follows.drive.tick
  read_le := h.read_le
  written_le := by
    have hdrive := h.toWriter_follows.output_le_drive
    have htick := h.toWriter_follows.drive.output_le_tick
    have hwritten := h.written_le
    show t.written ≤ (t.toWriter.drive t.read).tick.output + f.depth
    omega

theorem clockReader (h : f.Tracks t) :
    ({ f with readChain := (f.readChain.drive (gray f.writePtr)).tick } : Fifo α).Tracks
      { t with toReader := (t.toReader.drive t.written).tick } where
  depth_pos := h.depth_pos
  cells_size := h.cells_size
  writePtr_eq := h.writePtr_eq
  readPtr_eq := h.readPtr_eq
  readChain_eq := by
    show (f.readChain.drive (gray f.writePtr)).tick =
      ((t.toReader.drive t.written).tick).map f.code
    rw [h.readChain_eq, h.writePtr_eq, ← Chain.map_tick, ← Chain.map_drive]
    rfl
  writeChain_eq := h.writeChain_eq
  toReader_follows := h.toReader_follows.drive.tick
  toWriter_follows := h.toWriter_follows
  read_le := by
    have hdrive := h.toReader_follows.output_le_drive
    have htick := h.toReader_follows.drive.output_le_tick
    exact Nat.le_trans h.read_le (Nat.le_trans hdrive htick)
  written_le := h.written_le

end Tracks

/-! ### What the ticks do -/

def accepted (f : Fifo α) (input : Option α) : Option α := if f.writable then input else none

theorem writeTick_eq (f : Fifo α) (input : Option α) :
    f.writeTick input =
      let g := (f.accepted input).elim f f.push
      ({ g with writeChain := (g.writeChain.drive (gray g.readPtr)).tick },
        (f.accepted input).isSome) := by
  unfold writeTick accepted
  cases input with
  | none => cases f.writable <;> rfl
  | some v => cases f.writable <;> simp

theorem snd_writeTick (f : Fifo α) (input : Option α) :
    (f.writeTick input).2 = (f.accepted input).isSome := by
  rw [writeTick_eq]

def taken [Inhabited α] (f : Fifo α) (ready : Bool) : Option α := if ready then f.peek else none

theorem readTick_eq [Inhabited α] (f : Fifo α) (ready : Bool) :
    f.readTick ready =
      let g := if (f.taken ready).isSome then f.drop else f
      ({ g with readChain := (g.readChain.drive (gray g.writePtr)).tick }, f.taken ready) := rfl

theorem snd_readTick [Inhabited α] (f : Fifo α) (ready : Bool) :
    (f.readTick ready).2 = f.taken ready := rfl

theorem accepted_some {f : Fifo α} {input : Option α} {v : α} (h : f.accepted input = some v) :
    f.writable = true ∧ input = some v := by
  unfold accepted at h
  split at h
  · exact ⟨‹_›, h⟩
  · simp at h

theorem taken_some [Inhabited α] {f : Fifo α} {ready : Bool} {v : α}
    (h : f.taken ready = some v) :
    f.readable = true ∧ v = f.cells.getD (f.readPtr % f.depth) default := by
  unfold taken at h
  split at h
  · exact peek_some h
  · simp at h

namespace Tracks

variable {f : Fifo α} {t : Totals}

theorem isSome_accepted (h : f.Tracks t) {input : Option α} (hinput : input.isSome = true)
    (hspace : t.written < t.toWriter.output + f.depth) : (f.accepted input).isSome = true := by
  rw [accepted, if_pos (h.writable_iff.mpr hspace)]
  exact hinput

theorem isSome_peek_iff [Inhabited α] (h : f.Tracks t) :
    f.peek.isSome = true ↔ t.read < t.toReader.output := by
  rw [← h.readable_iff]
  unfold peek
  cases f.readable <;> simp

theorem writeTick (h : f.Tracks t) (input : Option α) :
    (f.writeTick input).1.Tracks (t.write (f.accepted input).isSome) := by
  rw [writeTick_eq]
  cases hv : f.accepted input with
  | none => exact h.clockWriter
  | some v => exact (h.push v (h.writable_iff.mp (accepted_some hv).1)).clockWriter

theorem readTick [Inhabited α] (h : f.Tracks t) (ready : Bool) :
    (f.readTick ready).1.Tracks (t.take (f.taken ready).isSome) := by
  rw [readTick_eq]
  cases hv : f.taken ready with
  | none => exact h.clockReader
  | some v => exact (h.drop (h.readable_iff.mp (taken_some hv).1)).clockReader

/-- A write goes to a cell outside the contents, since those are fewer than the depth. -/
theorem queued_push [Inhabited α] (h : f.Tracks t) (v : α)
    (hspace : t.written < t.toWriter.output + f.depth) :
    (f.push v).queued = f.queued ++ [v] := by
  have hread := h.read_le_written
  have hcopy := h.toWriter_follows.output_le
  have hcell : f.writePtr % f.depth = t.written % f.depth := by
    rw [h.writePtr_eq, Nat.mod_mod_of_dvd _ f.depth_dvd_modulus]
  have hin : t.written % f.depth < f.cells.size := by
    rw [h.cells_size]
    exact Nat.mod_lt _ h.depth_pos
  have hold : ∀ i ∈ List.range (t.written - t.read),
      (f.cells.setIfInBounds (t.written % f.depth) v).getD ((t.read + i) % f.depth) default =
        f.cells.getD ((t.read + i) % f.depth) default := by
    intro i hi
    have hi := List.mem_range.mp hi
    have hne : t.written % f.depth ≠ (t.read + i) % f.depth :=
      wrapped_ne (by omega) (by omega)
    rw [Array.getD_eq_getD_getElem?, Array.getD_eq_getD_getElem?,
      Array.getElem?_setIfInBounds_ne hne]
  have hnew : (f.cells.setIfInBounds (t.written % f.depth) v).getD
      ((t.read + (t.written - t.read)) % f.depth) default = v := by
    rw [Nat.add_sub_cancel' hread, Array.getD_eq_getD_getElem?,
      Array.getElem?_setIfInBounds_self_of_lt hin]
    rfl
  rw [(h.push v hspace).queued_eq, h.queued_eq]
  show (List.range (t.written + 1 - t.read)).map (fun i =>
    (f.cells.setIfInBounds (f.writePtr % f.depth) v).getD ((t.read + i) % f.depth) default) = _
  rw [hcell, Nat.succ_sub hread, List.range_succ, List.map_append, List.map_singleton, hnew,
    List.map_congr_left hold]

theorem queued_drop [Inhabited α] (h : f.Tracks t) (hmore : t.read < t.toReader.output) :
    f.queued = f.cells.getD (f.readPtr % f.depth) default :: f.drop.queued := by
  have hcopy := h.toReader_follows.output_le
  have hfill : t.written - t.read = t.written - (t.read + 1) + 1 := by omega
  have hhead : f.readPtr % f.depth = (t.read + 0) % f.depth := h.cell_eq 0
  rw [(h.drop hmore).queued_eq, h.queued_eq, hfill, List.range_succ_eq_map, List.map_cons,
    List.map_map, hhead]
  refine congrArg _ (List.map_congr_left fun i _ => ?_)
  show f.cells.getD ((t.read + (i + 1)) % f.depth) default =
    f.cells.getD ((t.read + 1 + i) % f.depth) default
  rw [Nat.add_comm i 1, Nat.add_assoc]

theorem queued_writeTick [Inhabited α] (h : f.Tracks t) (input : Option α) :
    (f.writeTick input).1.queued = f.queued ++ (f.accepted input).toList := by
  rw [writeTick_eq]
  cases hv : f.accepted input with
  | none => exact (List.append_nil _).symm
  | some v => exact h.queued_push v (h.writable_iff.mp (accepted_some hv).1)

theorem queued_readTick [Inhabited α] (h : f.Tracks t) (ready : Bool) :
    (f.taken ready).toList ++ (f.readTick ready).1.queued = f.queued := by
  rw [readTick_eq]
  cases hv : f.taken ready with
  | none => rfl
  | some v =>
    obtain ⟨hreadable, hcell⟩ := taken_some hv
    rw [h.queued_drop (h.readable_iff.mp hreadable), hcell]
    rfl

end Tracks

/-! ### Runs -/

inductive Tick (α : Type) where
  | write (input : Option α)
  | read (ready : Bool)
deriving DecidableEq, Repr

/-- The values that a tick reports as accepted. -/
def acceptedBy (f : Fifo α) : Tick α → List α
  | .write input => if (f.writeTick input).2 then input.toList else []
  | .read _ => []

theorem acceptedBy_write (f : Fifo α) (input : Option α) :
    f.acceptedBy (.write input) = (f.accepted input).toList := by
  show (if (f.writeTick input).2 then input.toList else []) = _
  rw [snd_writeTick]
  unfold accepted
  cases f.writable <;> cases input <;> rfl

variable [Inhabited α]

def returnedBy (f : Fifo α) : Tick α → List α
  | .write _ => []
  | .read ready => (f.readTick ready).2.toList

def tick (f : Fifo α) : Tick α → Fifo α
  | .write input => (f.writeTick input).1
  | .read ready => (f.readTick ready).1

def Valid (f : Fifo α) : Prop := ∃ t, f.Tracks t

theorem valid_new (depth stages : Nat) : (new depth stages : Fifo α).Valid :=
  ⟨_, tracks_new depth stages⟩

theorem valid_tick {f : Fifo α} (h : f.Valid) (i : Tick α) : (f.tick i).Valid := by
  obtain ⟨t, ht⟩ := h
  cases i with
  | write input => exact ⟨_, ht.writeTick input⟩
  | read ready => exact ⟨_, ht.readTick ready⟩

theorem queued_tick {f : Fifo α} (h : f.Valid) (i : Tick α) :
    f.returnedBy i ++ (f.tick i).queued = f.queued ++ f.acceptedBy i := by
  obtain ⟨t, ht⟩ := h
  cases i with
  | write input =>
    rw [acceptedBy_write]
    exact ht.queued_writeTick input
  | read ready =>
    show (f.taken ready).toList ++ (f.readTick ready).1.queued = f.queued ++ []
    rw [ht.queued_readTick ready, List.append_nil]

theorem depth_tick (f : Fifo α) (i : Tick α) : (f.tick i).depth = f.depth := by
  cases i with
  | write input => exact depth_writeTick f input
  | read ready => exact depth_readTick f ready

theorem queued_new (depth stages : Nat) : (new depth stages : Fifo α).queued = [] :=
  (tracks_new depth stages).queued_eq

/-- Ticks of the two sides in any order give out what was accepted, in order, from contents that
never exceed the depth, and the reader sees nothing but the oldest value not yet read. -/
theorem fifo_conserves (depth stages : Nat) (ticks : List (Tick α)) :
    let start : Fifo α := new depth stages
    let f := Trace.final tick start ticks
    let accepted := Trace.gather tick acceptedBy start ticks
    let returned := Trace.gather tick returnedBy start ticks
    f.depth = ceilPow2 (max depth 2) ∧
      returned ++ f.queued = accepted ∧
      f.queued.length ≤ f.depth ∧
      ∀ v, f.peek = some v → accepted[returned.length]? = some v := by
  intro start f accepted returned
  have hfree : Trace.Along tick (fun _ _ => True) start ticks :=
    Trace.along_true start ticks
  have hdepth : f.depth = start.depth :=
    Trace.final_invariant (P := fun g => g.depth = start.depth)
      (fun g i hg _ => (depth_tick g i).trans hg) rfl hfree
  have hvalid : f.Valid :=
    Trace.final_invariant (P := Valid) (fun g i hg _ => valid_tick hg i)
      (valid_new depth stages) hfree
  have hbalance : returned ++ f.queued = start.queued ++ accepted :=
    Trace.gather_balance queued (fun g i hg _ => valid_tick hg i)
      (fun g i hg _ => queued_tick hg i) (valid_new depth stages) hfree
  rw [queued_new, List.nil_append] at hbalance
  obtain ⟨t, ht⟩ := hvalid
  refine ⟨hdepth, hbalance, ht.queued_length_le, ?_⟩
  intro v hv
  rw [← hbalance, List.getElem?_append_right (Nat.le_refl _), Nat.sub_self,
    ← List.head?_eq_getElem?]
  exact ht.head_queued hv

end Fifo
end Crossing
end LinkBridge
