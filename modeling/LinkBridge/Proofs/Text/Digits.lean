import LinkBridge.Text.Digits

/-!
How many digits a number takes, and which.

A number below a power of the base takes no more digits than the exponent says, so filling with
zeros brings it to exactly that width; and zeros on the left do not change what is read back.
-/

namespace LinkBridge.Digits

theorem mem_render {base n : Nat} (hb : 2 ≤ base) {c : Char} (h : c ∈ render base n) :
    ∃ d, d < base ∧ c = ofValue d := by
  induction n using Nat.strongRecOn with
  | ind n ih =>
    unfold render at h
    split at h
    · exact ⟨n, by omega, List.mem_singleton.mp h⟩
    · rcases List.mem_append.mp h with hfront | hlast
      · exact ih _ (Nat.div_lt_self (by omega) (by omega)) hfront
      · exact ⟨n % base, Nat.mod_lt _ (by omega), List.mem_singleton.mp hlast⟩

theorem length_render_le {base n width : Nat} (hw : 0 < width) (hn : n < Nat.pow base width) :
    (render base n).length ≤ width := by
  obtain ⟨w, rfl⟩ : ∃ w, width = w + 1 := ⟨width - 1, by omega⟩
  clear hw
  induction w generalizing n with
  | zero =>
    have hlt : n < base := Nat.pow_one base ▸ hn
    rw [render, dif_pos (.inl hlt)]
    exact Nat.le_refl _
  | succ w ih =>
    unfold render
    split
    · exact Nat.le_add_left 1 _
    · have hlt : n < base * Nat.pow base (w + 1) := Nat.mul_comm _ base ▸ hn
      have hfront := ih (Nat.div_lt_of_lt_mul hlt)
      rw [List.length_append, List.length_singleton]
      omega

theorem length_padLeft {width : Nat} {fill : Char} {cs : List Char} (h : cs.length ≤ width) :
    (padLeft width fill cs).length = width := by
  rw [padLeft, List.length_append, List.length_replicate]
  omega

theorem readOnto_replicate_zero {base : Nat} (hb : 0 < base) (k : Nat) (cs : List Char) :
    readOnto base 0 (List.replicate k '0' ++ cs) = readOnto base 0 cs := by
  have hzero : value? base '0' = some 0 := if_pos hb
  induction k with
  | zero => rfl
  | succ k ih =>
    rw [List.replicate_succ, List.cons_append, readOnto, hzero]
    simpa using ih

/-- Zeros on the left are read as nothing. -/
theorem read?_padLeft {base : Nat} (hb : 2 ≤ base) (hb' : base ≤ 16) (width n : Nat) :
    read? base (padLeft width '0' (render base n)) = some n := by
  have hread : readOnto base 0 (padLeft width '0' (render base n)) = some n := by
    rw [padLeft, readOnto_replicate_zero (by omega), readOnto_render hb hb']
  cases hcs : padLeft width '0' (render base n) with
  | nil => exact absurd (List.append_eq_nil_iff.mp hcs).2 (render_ne_nil base n)
  | cons c rest =>
    rw [hcs] at hread
    exact hread

/-- The digits that `binary` writes, and how many. -/
theorem mem_binary {width n : Nat} {c : Char} (h : c ∈ (binary width n).toList) :
    c = '0' ∨ c = '1' := by
  rw [binary, String.toList_ofList] at h
  rcases List.mem_append.mp h with hfill | hdigit
  · exact .inl (List.eq_of_mem_replicate hfill)
  · obtain ⟨d, hd, rfl⟩ := mem_render (Nat.le_refl 2) hdigit
    obtain rfl | rfl : d = 0 ∨ d = 1 := by omega
    · exact .inl rfl
    · exact .inr rfl

theorem length_binary {width n : Nat} (hw : 0 < width) (hn : n < Nat.pow 2 width) :
    (binary width n).toList.length = width := by
  rw [binary, String.toList_ofList, length_padLeft (length_render_le hw hn)]

end LinkBridge.Digits
