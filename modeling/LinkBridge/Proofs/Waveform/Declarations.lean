import LinkBridge.Proofs.Waveform.Code
import LinkBridge.Waveform.Dump
import Mathlib.Data.Finset.Card

/-!
The codes of declared signals.

A declaration takes the code whose number is the count of different ids so far (`signal?_declared`).
An id that is declared for the first time adds to that count, and so no later declaration takes its
code.  An id that is declared again adds nothing, and it holds the code that the next new id takes
as well.  So two ids share a code exactly if one of them was declared again and, until the other was
last declared, no new id came between (`codes_shared_iff_reused`).
-/

namespace LinkBridge.Waveform

/-- A signal to be declared. -/
structure Declaration where
  id : UInt32
  name : String
  width : Nat
deriving DecidableEq, Repr

def ids (ds : List Declaration) : List UInt32 := ds.map (·.id)

@[simp] theorem ids_nil : ids [] = [] := rfl

@[simp] theorem ids_cons (d : Declaration) (ds : List Declaration) :
    ids (d :: ds) = d.id :: ids ds := rfl

@[simp] theorem ids_append (ds es : List Declaration) : ids (ds ++ es) = ids ds ++ ids es :=
  List.map_append

theorem forall_mem_ids_iff {ds : List Declaration} {p : UInt32 → Prop} :
    (∀ id ∈ ids ds, p id) ↔ ∀ d ∈ ds, p d.id := List.forall_mem_map

/-- The number of different ids. -/
def idCount (ds : List Declaration) : Nat := (ids ds).toFinset.card

theorem idCount_append_eq_iff {before more : List Declaration} :
    idCount (before ++ more) = idCount before ↔ ∀ d ∈ more, d.id ∈ ids before := by
  have hunion : (ids (before ++ more)).toFinset = (ids before).toFinset ∪ (ids more).toFinset := by
    rw [ids_append, List.toFinset_append]
  have hsubset : (ids before).toFinset ⊆ (ids (before ++ more)).toFinset :=
    hunion ▸ Finset.subset_union_left
  have hall : (∀ d ∈ more, d.id ∈ ids before) ↔ (ids more).toFinset ⊆ (ids before).toFinset := by
    simp [Finset.subset_iff, forall_mem_ids_iff]
  rw [hall, ← Finset.union_eq_left, ← hunion]
  exact ⟨fun h => (Finset.eq_of_subset_of_card_le hsubset (Nat.le_of_eq h)).symm, congrArg _⟩

namespace Dump

/-! ### One declaration -/

section Keep

variable {signals : List Signal} {s : Signal}

theorem any_id_iff : (signals.any fun t => t.id == s.id) = true ↔ s.id ∈ signals.map (·.id) := by
  rw [List.any_eq_true, List.mem_map]
  exact exists_congr fun t => and_congr_right fun _ => beq_iff_eq

/-- Replacing a signal leaves every id in its place. -/
theorem id_replaced (t : Signal) : (if t.id == s.id then s else t).id = t.id := by
  split
  · rename_i heq
    exact (beq_iff_eq.mp heq).symm
  · rfl

theorem ids_keep : (keep signals s).map (·.id) =
    if s.id ∈ signals.map (·.id) then signals.map (·.id) else s.id :: signals.map (·.id) := by
  unfold keep
  by_cases hold : s.id ∈ signals.map (·.id)
  · rw [if_pos (any_id_iff.mpr hold), if_pos hold, List.map_map]
    exact List.map_congr_left fun t _ => id_replaced t
  · rw [if_neg (mt any_id_iff.mp hold), if_neg hold, List.map_cons]

theorem mem_ids_keep {id : UInt32} :
    id ∈ (keep signals s).map (·.id) ↔ id ∈ signals.map (·.id) ∨ id = s.id := by
  rw [ids_keep]
  split
  · rename_i hold
    exact ⟨Or.inl, fun h => h.elim (fun h => h) fun h => h ▸ hold⟩
  · rw [List.mem_cons, or_comm]

theorem nodup_ids_keep (h : (signals.map (·.id)).Nodup) : ((keep signals s).map (·.id)).Nodup := by
  rw [ids_keep]
  split
  · exact h
  · rename_i hnew
    exact List.nodup_cons.mpr ⟨hnew, h⟩

theorem find?_keep (id : UInt32) :
    (keep signals s).find? (fun t => t.id == id) =
      if id = s.id then some s else signals.find? fun t => t.id == id := by
  unfold keep
  by_cases hold : s.id ∈ signals.map (·.id)
  · have hplace : ((fun t => t.id == id) ∘ fun t : Signal => if t.id == s.id then s else t) =
        fun t => t.id == id := funext fun t => congrArg (· == id) (id_replaced t)
    rw [if_pos (any_id_iff.mpr hold), List.find?_map, hplace]
    cases hfind : signals.find? fun t => t.id == id with
    | none =>
      have hne : id ≠ s.id := by
        rintro rfl
        obtain ⟨t, ht, hid⟩ := List.mem_map.mp hold
        exact List.find?_eq_none.mp hfind t ht (beq_iff_eq.mpr hid)
      rw [if_neg hne]
      rfl
    | some t =>
      have hid := List.find?_some hfind
      obtain rfl : t.id = id := beq_iff_eq.mp hid
      by_cases hsame : t.id = s.id <;> simp [hsame]
  · rw [if_neg (mt any_id_iff.mp hold), List.find?_cons]
    by_cases hid : id = s.id
    · simp [hid]
    · simp [hid, beq_eq_false_iff_ne.mpr (Ne.symm hid)]

end Keep

theorem signals_declare (dump : Dump) (id : UInt32) (name : String) (width : Nat) :
    (dump.declare id name width).signals =
      keep dump.signals { id, width, code := String.ofList (code dump.signals.length) } := by
  unfold declare openDeclarations push
  split <;> rfl

theorem signal?_declare (dump : Dump) (d : Declaration) (id : UInt32) :
    (dump.declare d.id d.name d.width).signal? id =
      if id = d.id then
        some { id := d.id, width := d.width, code := String.ofList (code dump.signals.length) }
      else dump.signal? id := by
  unfold signal?
  rw [signals_declare, find?_keep]

/-! ### A sequence of declarations -/

/-- A dump in which some signals were declared one after the other. -/
def declared (ds : List Declaration) : Dump :=
  ds.foldl (fun dump d => dump.declare d.id d.name d.width) {}

theorem declared_concat (ds : List Declaration) (d : Declaration) :
    declared (ds ++ [d]) = (declared ds).declare d.id d.name d.width := by
  unfold declared
  rw [List.foldl_append]
  rfl

theorem mem_ids_declared {ds : List Declaration} {id : UInt32} :
    id ∈ (declared ds).signals.map (·.id) ↔ id ∈ ids ds := by
  induction ds using List.reverseRecOn with
  | nil => exact Iff.rfl
  | append_singleton ds d ih =>
    rw [declared_concat, signals_declare, mem_ids_keep, ih]
    simp

/-- There is one signal for each id. -/
theorem nodup_ids_declared (ds : List Declaration) :
    ((declared ds).signals.map (·.id)).Nodup := by
  induction ds using List.reverseRecOn with
  | nil => exact List.nodup_nil
  | append_singleton ds d ih =>
    rw [declared_concat, signals_declare]
    exact nodup_ids_keep ih

theorem length_signals_declared (ds : List Declaration) :
    (declared ds).signals.length = idCount ds := by
  have hsame : ((declared ds).signals.map (·.id)).toFinset = (ids ds).toFinset := by
    ext id
    rw [List.mem_toFinset, List.mem_toFinset, mem_ids_declared]
  rw [idCount, ← hsame, List.toFinset_card_of_nodup (nodup_ids_declared ds), List.length_map]

theorem signal?_declared {before after : List Declaration} {d : Declaration}
    (hlast : d.id ∉ ids after) :
    (declared (before ++ d :: after)).signal? d.id =
      some { id := d.id, width := d.width, code := String.ofList (code (idCount before)) } := by
  induction after using List.reverseRecOn with
  | nil => rw [declared_concat, signal?_declare, if_pos rfl, length_signals_declared]
  | append_singleton after later ih =>
    have hmem : d.id ∉ ids after ∧ d.id ≠ later.id := by
      simpa using hlast
    rw [← List.cons_append, ← List.append_assoc, declared_concat, signal?_declare, if_neg hmem.2]
    exact ih hmem.1

/-- The code that an id has in the end. -/
def codeOf (ds : List Declaration) (id : UInt32) : Option String :=
  ((declared ds).signal? id).map (·.code)

theorem codeOf_of_last {before after : List Declaration} {d : Declaration}
    (hlast : d.id ∉ ids after) :
    codeOf (before ++ d :: after) d.id = some (String.ofList (code (idCount before))) := by
  rw [codeOf, signal?_declared hlast]
  rfl

/-! ### Two ids -/

/-- Where two ids are declared for the last time. -/
structure LastTwo (ds before : List Declaration) (first : Declaration)
    (between : List Declaration) (second : Declaration) (after : List Declaration) : Prop where
  eq : ds = before ++ first :: (between ++ second :: after)
  first_last : first.id ∉ ids (between ++ second :: after)
  second_last : second.id ∉ ids after

/-- The first of two ids was declared again, and until the second was last declared, no id was
new. -/
def Reused (ds : List Declaration) (a b : UInt32) : Prop :=
  ∃ before first between second after, LastTwo ds before first between second after ∧
    first.id = a ∧ second.id = b ∧ ∀ d ∈ first :: between, d.id ∈ ids before

theorem exists_last {ds : List Declaration} {id : UInt32} (h : id ∈ ids ds) :
    ∃ before d after, ds = before ++ d :: after ∧ d.id = id ∧ id ∉ ids after := by
  induction ds using List.reverseRecOn with
  | nil => exact absurd h List.not_mem_nil
  | append_singleton ds d ih =>
    by_cases hd : d.id = id
    · exact ⟨ds, d, [], rfl, hd, List.not_mem_nil⟩
    · have hmem : id ∈ ids ds := by
        simpa [Ne.symm hd] using h
      obtain ⟨before, last, after, rfl, hid, hafter⟩ := ih hmem
      refine ⟨before, last, after ++ [d], by simp, hid, ?_⟩
      simpa [Ne.symm hd] using hafter

theorem isSome_codeOf {ds : List Declaration} {id : UInt32} (h : id ∈ ids ds) :
    (codeOf ds id).isSome := by
  obtain ⟨before, d, after, rfl, rfl, hafter⟩ := exists_last h
  rw [codeOf_of_last hafter]
  rfl

theorem exists_lastTwo {ds : List Declaration} {a b : UInt32} (ha : a ∈ ids ds) (hb : b ∈ ids ds)
    (hne : a ≠ b) :
    ∃ before first between second after, LastTwo ds before first between second after ∧
      (first.id = a ∧ second.id = b ∨ first.id = b ∧ second.id = a) := by
  obtain ⟨before, d, after, rfl, rfl, hafter⟩ := exists_last ha
  by_cases hlater : b ∈ ids after
  · obtain ⟨between, e, rest, rfl, rfl, hrest⟩ := exists_last hlater
    exact ⟨before, d, between, e, rest, ⟨rfl, hafter, hrest⟩, .inl ⟨rfl, rfl⟩⟩
  · have hearlier : b ∈ ids before := by
      simpa [Ne.symm hne, hlater] using hb
    obtain ⟨start, e, between, rfl, rfl, hbetween⟩ := exists_last hearlier
    refine ⟨start, e, between, d, after, ⟨by simp, ?_, hafter⟩, .inr ⟨rfl, rfl⟩⟩
    simpa [Ne.symm hne] using ⟨hbetween, hlater⟩

theorem LastTwo.same_code_iff {ds before between after : List Declaration}
    {first second : Declaration} (h : LastTwo ds before first between second after) :
    codeOf ds first.id = codeOf ds second.id ↔ ∀ d ∈ first :: between, d.id ∈ ids before := by
  have hfirst : codeOf ds first.id = some (String.ofList (code (idCount before))) := by
    rw [h.eq]
    exact codeOf_of_last h.first_last
  have hsecond : codeOf ds second.id =
      some (String.ofList (code (idCount (before ++ first :: between)))) := by
    rw [h.eq, ← List.cons_append, ← List.append_assoc]
    exact codeOf_of_last h.second_last
  rw [hfirst, hsecond, Option.some.injEq, String.ofList_inj, code_injective.eq_iff, eq_comm,
    idCount_append_eq_iff]

theorem Reused.same_code {ds : List Declaration} {a b : UInt32} (h : Reused ds a b) :
    codeOf ds a = codeOf ds b := by
  obtain ⟨before, first, between, second, after, hlast, rfl, rfl, hold⟩ := h
  exact hlast.same_code_iff.mpr hold

theorem Reused.not_nodup {ds : List Declaration} {a b : UInt32} (h : Reused ds a b) :
    ¬(ids ds).Nodup := by
  obtain ⟨before, first, between, second, after, hlast, rfl, rfl, hold⟩ := h
  have hbefore := hold first List.mem_cons_self
  rw [hlast.eq, ids_append, List.nodup_append]
  exact fun hnodup => hnodup.2.2 _ hbefore _ List.mem_cons_self rfl

/-- Two different ids that are declared both have a code.  They share it exactly if one of them was
declared again and no id was new from there until the other was last declared, which cannot be where
each id is declared once. -/
theorem codes_shared_iff_reused (ds : List Declaration) {a b : UInt32} (ha : a ∈ ids ds)
    (hb : b ∈ ids ds) (hne : a ≠ b) :
    (codeOf ds a).isSome ∧ (codeOf ds b).isSome ∧
      (codeOf ds a = codeOf ds b ↔ Reused ds a b ∨ Reused ds b a) ∧
      ((ids ds).Nodup → codeOf ds a ≠ codeOf ds b) := by
  have hshared : codeOf ds a = codeOf ds b ↔ Reused ds a b ∨ Reused ds b a := by
    constructor
    · intro hsame
      obtain ⟨before, first, between, second, after, hlast, hids⟩ := exists_lastTwo ha hb hne
      rcases hids with ⟨rfl, rfl⟩ | ⟨rfl, rfl⟩
      · exact .inl ⟨_, _, _, _, _, hlast, rfl, rfl, hlast.same_code_iff.mp hsame⟩
      · exact .inr ⟨_, _, _, _, _, hlast, rfl, rfl, hlast.same_code_iff.mp hsame.symm⟩
    · rintro (h | h)
      · exact h.same_code
      · exact h.same_code.symm
  refine ⟨isSome_codeOf ha, isSome_codeOf hb, hshared, fun hnodup hsame => ?_⟩
  rcases hshared.mp hsame with h | h
  · exact h.not_nodup hnodup
  · exact h.not_nodup hnodup

/-- Of four declarations the third repeats the first, and the fourth takes the same code. -/
theorem codes_shared_after_repetition :
    let ds : List Declaration := [⟨1, "a", 1⟩, ⟨2, "b", 1⟩, ⟨1, "a", 4⟩, ⟨3, "c", 1⟩]
    1 ∈ ids ds ∧ 3 ∈ ids ds ∧ (1 : UInt32) ≠ 3 ∧ Reused ds 1 3 ∧
      (codeOf ds 1).isSome ∧ (codeOf ds 3).isSome ∧ codeOf ds 1 = codeOf ds 3 := by
  intro ds
  have hfirst : 1 ∈ ids ds := by decide
  have hsecond : 3 ∈ ids ds := by decide
  have hreused : Reused ds 1 3 :=
    ⟨[⟨1, "a", 1⟩, ⟨2, "b", 1⟩], ⟨1, "a", 4⟩, [], ⟨3, "c", 1⟩, [], ⟨rfl, by decide, by decide⟩,
      rfl, rfl, by decide⟩
  obtain ⟨hcode, hother, hshared, -⟩ := codes_shared_iff_reused ds hfirst hsecond (by decide)
  exact ⟨hfirst, hsecond, by decide, hreused, hcode, hother, hshared.mpr (.inl hreused)⟩

/-- One id declared twice and another once: both have one code, and a change of one is written as
the same change of the other would be. -/
theorem code_of_two_signals :
    let dump := declared [⟨1, "a", 1⟩, ⟨1, "a", 1⟩, ⟨2, "b", 1⟩]
    ∃ s t, dump.signal? 1 = some s ∧ dump.signal? 2 = some t ∧ s.code = t.code ∧
      ∀ fs value, dump.write fs s value = dump.write fs t value := by
  intro dump
  refine ⟨⟨1, String.ofList (code 1), 1⟩, ⟨2, String.ofList (code 1), 1⟩, ?_, ?_, rfl,
    fun fs value => rfl⟩
  · rfl
  · rfl

end Dump
end LinkBridge.Waveform
