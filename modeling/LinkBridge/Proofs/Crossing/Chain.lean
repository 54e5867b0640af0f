import LinkBridge.Crossing.Chain
import Mathlib.Data.List.Forall2
import Mathlib.Order.Basic

/-!
Laws of synchronizer chains.

Six ways to speak of everything in a chain at once.  `Holds` says that each value in it satisfies
a predicate, `Follows` that it carries older and older copies of a rising value, `Alongside` that
two chains of one length carry related values in each place, `AtLeast` that each register has
reached a bound of its own, `FilledTo` that the first registers hold one value, and `Fed` which
values it carries, by what its ticks have fed it.  Driving and ticking preserve all six, and each
of them says something about the output.
-/

namespace LinkBridge.Crossing.Chain

variable {α β : Type}

theorem max_stages_pos (stages : Nat) : 0 < max stages minStages :=
  Nat.lt_of_lt_of_le (by decide) (Nat.le_max_right stages minStages)

@[simp] theorem source_tick (c : Chain α) : c.tick.source = c.source := rfl

@[simp] theorem source_drive (c : Chain α) (v : α) : (c.drive v).source = v := rfl

@[simp] theorem registers_drive (c : Chain α) (v : α) :
    (c.drive v).registers = c.registers := rfl

@[simp] theorem output_new (stages : Nat) (reset : α) :
    (new stages reset).output = reset := by
  unfold output new
  rw [List.getLastD_eq_getLast?, List.getLast?_replicate]
  split <;> rfl

theorem getElem?_last (c : Chain α) (h : 0 < c.stages) :
    c.registers[c.stages - 1]? = some c.output := by
  simp only [stages] at h ⊢
  rw [output, List.getLastD_eq_getLast?, List.getLast?_eq_getElem?,
    List.getElem?_eq_getElem (by omega)]
  rfl

theorem stages_drive_tick {c : Chain α} {stages : Nat} (hpos : 0 < stages)
    (hc : c.stages = stages) (v : α) : (c.drive v).tick.stages = stages := by
  rw [stages_tick _ (by rw [stages_drive, hc]; exact hpos), stages_drive, hc]

theorem output_mem (c : Chain α) : c.output ∈ c.source :: c.registers := List.getLastD_mem_cons

/-! ### Encoded chains -/

def map (f : α → β) (c : Chain α) : Chain β :=
  { source := f c.source, registers := c.registers.map f }

theorem map_drive (f : α → β) (c : Chain α) (v : α) :
    (c.map f).drive (f v) = (c.drive v).map f := rfl

theorem map_tick (f : α → β) (c : Chain α) : (c.map f).tick = c.tick.map f := by
  simp [map, tick, List.map_dropLast]

theorem map_new (f : α → β) (stages : Nat) (reset : α) :
    (new stages reset).map f = new stages (f reset) := by
  simp [map, new]

@[simp] theorem stages_map (f : α → β) (c : Chain α) : (c.map f).stages = c.stages :=
  List.length_map f

theorem output_map (f : α → β) (c : Chain α) : (c.map f).output = f c.output :=
  List.getLastD_map

/-! ### A predicate on all values -/

def Holds (P : α → Prop) (c : Chain α) : Prop := ∀ v ∈ c.source :: c.registers, P v

namespace Holds

variable {P : α → Prop} {c : Chain α}

theorem new {reset : α} (h : P reset) (stages : Nat) : (Chain.new stages reset).Holds P := by
  intro v hv
  simp only [Chain.new, List.mem_cons, List.mem_replicate] at hv
  rcases hv with rfl | ⟨_, rfl⟩ <;> exact h

theorem drive (hc : c.Holds P) {v : α} (hv : P v) : (c.drive v).Holds P := by
  intro u hu
  simp only [source_drive, registers_drive, List.mem_cons] at hu
  rcases hu with rfl | hu
  · exact hv
  · exact hc u (List.mem_cons_of_mem _ hu)

theorem tick (hc : c.Holds P) : c.tick.Holds P := by
  intro u hu
  simp only [Chain.tick, List.mem_cons] at hu
  rcases hu with rfl | rfl | hu
  · exact hc _ List.mem_cons_self
  · exact hc _ List.mem_cons_self
  · exact hc u (List.mem_cons_of_mem _ (List.dropLast_subset _ hu))

theorem output (hc : c.Holds P) : P c.output := hc _ c.output_mem

end Holds

/-! ### Copies of a rising value -/

/-- The chain carries copies of a value that never falls: none is newer than the value, and each is
at least as old as the one before it. -/
structure Follows [Preorder α] (c : Chain α) (value : α) : Prop where
  falling : (c.source :: c.registers).Pairwise fun newer older => older ≤ newer
  source_le : c.source ≤ value

namespace Follows

variable [Preorder α] {c : Chain α} {value : α}

theorem new (stages : Nat) (reset : α) : (Chain.new stages reset).Follows reset := by
  refine ⟨?_, le_refl _⟩
  have h : reset :: List.replicate (max stages minStages) reset =
      List.replicate (max stages minStages + 1) reset := rfl
  show (reset :: List.replicate (max stages minStages) reset).Pairwise _
  rw [h, List.pairwise_replicate]
  exact Or.inr (le_refl reset)

theorem mono (hc : c.Follows value) {later : α} (h : value ≤ later) : c.Follows later :=
  ⟨hc.falling, le_trans hc.source_le h⟩

theorem register_le (hc : c.Follows value) {v : α} (hv : v ∈ c.registers) : v ≤ value :=
  le_trans ((List.pairwise_cons.mp hc.falling).1 v hv) hc.source_le

theorem output_le (hc : c.Follows value) : c.output ≤ value := by
  rcases List.mem_cons.mp c.output_mem with h | h
  · rw [h]
    exact hc.source_le
  · exact hc.register_le h

theorem drive (hc : c.Follows value) : (c.drive value).Follows value := by
  refine ⟨List.pairwise_cons.mpr ⟨fun v hv => hc.register_le hv, ?_⟩, le_refl _⟩
  exact (List.pairwise_cons.mp hc.falling).2

theorem tick (hc : c.Follows value) : c.tick.Follows value := by
  obtain ⟨hfirst, hrest⟩ := List.pairwise_cons.mp hc.falling
  have hmem : ∀ v ∈ c.registers.dropLast, v ≤ c.source :=
    fun v hv => hfirst v (List.dropLast_subset _ hv)
  refine ⟨List.pairwise_cons.mpr ⟨?_, List.pairwise_cons.mpr ⟨hmem, ?_⟩⟩, hc.source_le⟩
  · intro v hv
    rcases List.mem_cons.mp hv with rfl | hv
    · exact le_refl _
    · exact hmem v hv
  · exact hrest.sublist (List.dropLast_sublist _)

/-- A tick never brings out an older copy than the one before. -/
theorem output_le_tick (hc : c.Follows value) : c.output ≤ c.tick.output := by
  obtain ⟨source, registers⟩ := c
  rcases List.eq_nil_or_concat' registers with rfl | ⟨front, last, rfl⟩
  · exact le_refl source
  · have hlast : ∀ v ∈ source :: front, last ≤ v := by
      have h := hc.falling
      rw [← List.cons_append, List.pairwise_append] at h
      exact fun v hv => h.2.2 v hv last (List.mem_singleton_self last)
    have hnext : (Chain.tick ⟨source, front ++ [last]⟩).output = front.getLastD source := by
      simp only [Chain.tick, Chain.output, List.dropLast_concat, List.getLastD_cons]
    rw [hnext]
    show (front ++ [last]).getLastD source ≤ _
    rw [List.getLastD_concat]
    exact hlast _ List.getLastD_mem_cons

theorem output_le_drive (hc : c.Follows value) : c.output ≤ (c.drive value).output := by
  obtain ⟨source, registers⟩ := c
  cases registers with
  | nil => exact hc.source_le
  | cons v rest => exact le_refl _

end Follows

/-! ### Two chains side by side -/

def Alongside (R : α → β → Prop) (c : Chain α) (d : Chain β) : Prop :=
  R c.source d.source ∧ List.Forall₂ R c.registers d.registers

namespace Alongside

variable {R : α → β → Prop} {c : Chain α} {d : Chain β}

theorem new {v : α} {w : β} (h : R v w) (stages : Nat) :
    Alongside R (Chain.new stages v) (Chain.new stages w) := by
  refine ⟨h, ?_⟩
  simp only [Chain.new]
  generalize max stages minStages = n
  induction n with
  | zero => exact List.Forall₂.nil
  | succ n ih => exact List.Forall₂.cons h ih

theorem drive (h : Alongside R c d) {v : α} {w : β} (hv : R v w) :
    Alongside R (c.drive v) (d.drive w) := ⟨hv, h.2⟩

theorem tick (h : Alongside R c d) : Alongside R c.tick d.tick := by
  refine ⟨h.1, List.Forall₂.cons h.1 ?_⟩
  rw [List.dropLast_eq_take, List.dropLast_eq_take, h.2.length_eq]
  exact List.forall₂_take _ h.2

theorem output (h : Alongside R c d) : R c.output d.output := by
  obtain ⟨hsource, hregisters⟩ := h
  have hlast : ∀ {l : List α} {m : List β}, List.Forall₂ R l m →
      ∀ {v : α} {w : β}, R v w → R (l.getLastD v) (m.getLastD w) := by
    intro l m hlm
    induction hlm with
    | nil => exact fun hvw => hvw
    | cons hxy _ ih =>
      intro v w _
      rw [List.getLastD_cons, List.getLastD_cons]
      exact ih hxy
  exact hlast hregisters hsource

end Alongside

/-! ### What a chain was fed -/

/-- Each tick since reset has fed the chain a value, the latest last, and the registers hold the
last of these. -/
structure Fed (c : Chain α) (stages : Nat) (reset : α) (values : List α) : Prop where
  stages_pos : 0 < stages
  stages_eq : c.stages = stages
  suffix : c.registers.reverse <:+ List.replicate stages reset ++ values

namespace Fed

variable {c : Chain α} {stages : Nat} {reset : α} {values : List α}

theorem new (h : minStages ≤ stages) (reset : α) :
    (Chain.new stages reset).Fed stages reset [] := by
  have hmax : max stages minStages = stages := Nat.max_eq_left h
  have hregisters : (Chain.new stages reset).registers.reverse = List.replicate stages reset := by
    rw [Chain.new, hmax, List.reverse_replicate]
  exact ⟨Nat.lt_of_lt_of_le (by decide) h, (stages_new stages reset).trans hmax, [],
    hregisters.trans (List.append_nil _).symm⟩

theorem drive (h : c.Fed stages reset values) (v : α) : (c.drive v).Fed stages reset values :=
  ⟨h.stages_pos, h.stages_eq, h.suffix⟩

theorem tick (h : c.Fed stages reset values) :
    c.tick.Fed stages reset (values ++ [c.source]) := by
  have hpos : 0 < c.stages := by
    rw [h.stages_eq]
    exact h.stages_pos
  refine ⟨h.stages_pos, (c.stages_tick hpos).trans h.stages_eq, ?_⟩
  obtain ⟨before, hbefore⟩ := (List.dropLast_prefix c.registers).reverse.trans h.suffix
  refine ⟨before, ?_⟩
  rw [Chain.tick, List.reverse_cons, ← List.append_assoc, ← List.append_assoc, ← hbefore]

theorem output (h : c.Fed stages reset values) :
    (List.replicate stages reset ++ values)[values.length]? = some c.output := by
  obtain ⟨hpos, hstages, before, hbefore⟩ := h
  have hlast := c.getElem?_last (hstages ▸ hpos)
  have hlength := congrArg List.length hbefore
  simp only [Chain.stages] at hstages hlast
  simp only [List.length_append, List.length_reverse, List.length_replicate] at hlength
  rw [← hbefore, List.getElem?_append_right (by omega), List.getElem?_reverse (by omega)]
  have hindex : c.registers.length - 1 - (values.length - before.length) =
      c.registers.length - 1 := by omega
  rw [hindex]
  exact hlast

/-- What comes out is what went in `stages - 1` ticks before. -/
theorem output_eq {value : Nat → α} {n : Nat}
    (h : c.Fed stages (value 0) ((List.range n).map fun k => value (k + 1))) :
    c.output = value (n + 1 - stages) := by
  have houtput := h.output
  rw [List.length_map, List.length_range] at houtput
  refine (Option.some.inj (houtput.symm.trans ?_))
  rcases Nat.lt_or_ge n stages with hearly | hlate
  · rw [List.getElem?_append_left (by rw [List.length_replicate]; exact hearly),
      List.getElem?_replicate, if_pos hearly, Nat.sub_eq_zero_of_le hearly]
  · have hpos := h.stages_pos
    rw [List.getElem?_append_right (by rw [List.length_replicate]; exact hlate),
      List.length_replicate, List.getElem?_map, List.getElem?_range (by omega), Option.map_some,
      Nat.sub_add_comm hlate]

/-- A tick brings out the value that was fed `stages - 1` ticks before. -/
theorem output_tick (h : c.Fed stages reset values) :
    (List.replicate stages reset ++ (values ++ [c.source]))[values.length + 1]? =
      some c.tick.output := by
  have houtput := h.tick.output
  rw [List.length_append, List.length_singleton] at houtput
  exact houtput

theorem output_tick_of_early (h : c.Fed stages reset values)
    (hearly : values.length + 1 < stages) : c.tick.output = reset := by
  have houtput := h.output_tick
  rw [List.getElem?_append_left (by rw [List.length_replicate]; exact hearly),
    List.getElem?_replicate, if_pos hearly] at houtput
  exact (Option.some.inj houtput).symm

theorem output_tick_of_fed {older newer : List α} {v : α}
    (h : c.Fed stages reset (older ++ v :: newer)) (hnewer : newer.length + 2 = stages) :
    c.tick.output = v := by
  have houtput := h.output_tick
  have hindex : (older ++ v :: newer).length + 1 = stages + older.length := by
    rw [List.length_append, List.length_cons]
    omega
  rw [hindex, List.getElem?_append_right (by rw [List.length_replicate]; omega),
    List.length_replicate, Nat.add_sub_cancel_left, List.append_assoc,
    List.getElem?_append_right (Nat.le_refl _), Nat.sub_self] at houtput
  exact (Option.some.inj houtput).symm

end Fed

/-! ### One value in the first registers -/

/-- The first registers hold a value. -/
def FilledTo (n : Nat) (v : α) (c : Chain α) : Prop := ∀ u ∈ c.registers.take n, u = v

namespace FilledTo

variable {c : Chain α} {n : Nat} {v : α}

theorem zero (v : α) (c : Chain α) : c.FilledTo 0 v := fun _ hu => nomatch hu

theorem tick (h : c.FilledTo n v) (hsource : c.source = v) : c.tick.FilledTo (n + 1) v := by
  intro u hu
  rw [Chain.tick, List.take_succ_cons] at hu
  rcases List.mem_cons.mp hu with rfl | hu
  · exact hsource
  · rw [List.dropLast_eq_take, List.take_take] at hu
    exact h u (List.take_subset_take_left _ (Nat.min_le_left _ _) hu)

theorem output (h : c.FilledTo n v) (hpos : 0 < c.stages) (hn : c.stages ≤ n) :
    c.output = v := by
  refine h _ ?_
  rw [List.take_of_length_le hn]
  exact List.mem_of_getElem? (c.getElem?_last hpos)

end FilledTo

/-! ### Bounds that fall along the chain -/

/-- Register `i` carries at least `floor i`. -/
def AtLeast (floor : Nat → Nat) (c : Chain Nat) : Prop :=
  ∀ i v, c.registers[i]? = some v → floor i ≤ v

namespace AtLeast

variable {floor : Nat → Nat} {c : Chain Nat}

theorem zero (c : Chain Nat) : c.AtLeast fun _ => 0 := fun _ _ _ => Nat.zero_le _

theorem mono (hc : c.AtLeast floor) {lower : Nat → Nat} (h : ∀ i, lower i ≤ floor i) :
    c.AtLeast lower :=
  fun i v hv => Nat.le_trans (h i) (hc i v hv)

/-- A tick moves each value, and so its bound, one register on. -/
theorem tick_drive (hc : c.AtLeast fun i => floor (i + 1)) {v : Nat} (hv : floor 0 ≤ v) :
    (c.drive v).tick.AtLeast floor := by
  intro i u hu
  cases i with
  | zero =>
    obtain rfl : v = u := Option.some.inj hu
    exact hv
  | succ i =>
    have hold : c.registers.dropLast[i]? = some u := hu
    rw [List.getElem?_dropLast] at hold
    split at hold
    · exact hc i u hold
    · simp at hold

theorem output (hc : c.AtLeast floor) (h : 0 < c.stages) : floor (c.stages - 1) ≤ c.output :=
  hc _ _ (c.getElem?_last h)

end AtLeast
end LinkBridge.Crossing.Chain
