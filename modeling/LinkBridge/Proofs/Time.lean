import LinkBridge.Proofs.Duration

/-!
The text of a time.

A time is shown in whole units, in the largest unit that leaves nothing over.  What is shown is the
text of a duration, so the reader of durations gives the same time back, up to the last instant
(`text_reads_back`).
-/

namespace LinkBridge.Time

open Digits

/-- The shown units stand from the largest to the smallest. -/
theorem descending_shown :
    TimeUnit.shown.Pairwise fun u v => v.femtoseconds < u.femtoseconds := by decide

theorem unit_of_zero {t : Time} (h : t.fs = 0) : t.unit = .fs := if_pos h

theorem unit_mem (t : Time) : t.unit ∈ TimeUnit.shown ++ [.fs] := by
  unfold unit
  split
  · exact List.mem_append_right _ List.mem_cons_self
  · cases hfind : TimeUnit.shown.find? fun u => t.fs % u.femtoseconds = 0 with
    | none => exact List.mem_append_right _ List.mem_cons_self
    | some u => exact List.mem_append_left _ (List.mem_of_find?_eq_some hfind)

theorem unit_dvd (t : Time) : t.unit.femtoseconds ∣ t.fs := by
  unfold unit
  split
  · exact Nat.one_dvd _
  · cases hfind : TimeUnit.shown.find? fun u => t.fs % u.femtoseconds = 0 with
    | none => exact Nat.one_dvd _
    | some u =>
      have hmod := List.find?_some hfind
      exact Nat.dvd_of_mod_eq_zero (of_decide_eq_true hmod)

theorem le_unit {t : Time} (ht : t.fs ≠ 0) {u : TimeUnit} (hu : u ∈ TimeUnit.shown ++ [.fs])
    (hdvd : u.femtoseconds ∣ t.fs) : u.femtoseconds ≤ t.unit.femtoseconds := by
  have hone : ∀ v : TimeUnit, TimeUnit.fs.femtoseconds ≤ v.femtoseconds := by
    intro v
    cases v <;> decide
  rcases List.mem_append.mp hu with hshown | hfs
  · unfold unit
    rw [if_neg ht]
    cases hfind : TimeUnit.shown.find? fun u => t.fs % u.femtoseconds = 0 with
    | none =>
      have hnot := List.find?_eq_none.mp hfind u hshown
      exact absurd (decide_eq_true (Nat.mod_eq_zero_of_dvd hdvd)) hnot
    | some v =>
      obtain ⟨-, larger, smaller, hparts, hlarger⟩ := List.find?_eq_some_iff_append.mp hfind
      have hdescending := descending_shown
      rw [hparts] at hshown hdescending
      rcases List.mem_append.mp hshown with hbefore | hafter
      · have hnot := hlarger u hbefore
        simp [Nat.mod_eq_zero_of_dvd hdvd] at hnot
      · rcases List.mem_cons.mp hafter with rfl | hsmaller
        · exact Nat.le_refl _
        · have htail := (List.pairwise_append.mp hdescending).2.1
          exact Nat.le_of_lt ((List.pairwise_cons.mp htail).1 u hsmaller)
  · rw [List.mem_singleton.mp hfs]
    exact hone _

theorem writes_text (t : Time) : Duration.Writes t.text.toList t.fs := by
  have hspan : t.fs / t.unit.femtoseconds * t.unit.femtoseconds = t.fs :=
    Nat.div_mul_cancel t.unit_dvd
  have hle := t.le_last
  have hcount := Nat.div_le_self t.fs t.unit.femtoseconds
  have hnone : Text.Blanks [] := nofun
  have hblank : Text.Blanks [' '] := List.forall_mem_singleton.mpr rfl
  have hwritten := Duration.Writes.written hnone
    ((read?_eq_some_iff (by decide)).mp (read?_render (by decide) (by decide) _)) hblank
    (Duration.mem_units_iff.mpr ⟨t.unit, rfl, rfl⟩) hnone
    (show t.fs / t.unit.femtoseconds < 2 ^ 64 from Nat.lt_succ_of_le (Nat.le_trans hcount hle))
    (show _ < 2 ^ 64 from hspan.symm ▸ Nat.lt_succ_of_le hle)
  rw [hspan] at hwritten
  simpa [text, decimal] using hwritten

/-- The text of a time reads back as the time, and counts it in the largest shown unit in which it
is a whole number. -/
theorem text_reads_back (t : Time) :
    Duration.read t.text = .ok t ∧
      ∃ u ∈ [TimeUnit.ms, .us, .ns, .ps, .fs],
        t.text = (t.fs / u.femtoseconds).repr ++ " " ++ u.symbol ∧ u.femtoseconds ∣ t.fs ∧
          (t.fs = 0 → u = .fs) ∧
          (t.fs ≠ 0 → ∀ v ∈ [TimeUnit.ms, .us, .ns, .ps, .fs],
            v.femtoseconds ∣ t.fs → v.femtoseconds ≤ u.femtoseconds) := by
  obtain ⟨t', hread, hfs⟩ := Duration.exists_read_of_writes t.writes_text
  obtain rfl := ext hfs
  refine ⟨hread, t'.unit, t'.unit_mem, ?_, t'.unit_dvd, unit_of_zero,
    fun ht v hv hdvd => le_unit ht hv hdvd⟩
  rw [text, decimal_eq_repr]

end LinkBridge.Time
