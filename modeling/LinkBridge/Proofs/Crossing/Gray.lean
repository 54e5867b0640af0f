import LinkBridge.Crossing.Gray
import Mathlib.Data.Nat.Bitwise

/-!
Laws of Gray code.

The loop that decodes takes every shift of a code into the code itself, and so it does first what it
does to the code shifted once (`ungray_eq`).  Coding and decoding both commute with dropping the
lowest bit, so they are inverse by induction on the number of bits.

Counting on by one turns the lowest bits of a number over, from the first up to some bit and no
further, and so does the step from the last number of a power of two to zero (`exists_flipped`).
A code bit compares two neighbouring bits, so only the one at the upper end of that run changes.
-/

namespace LinkBridge.Crossing

theorem gray_shiftRight (n : Nat) : gray n >>> 1 = gray (n >>> 1) := by
  unfold gray
  exact Nat.shiftRight_xor_distrib

theorem shiftRight_one_lt {n : Nat} (h : n ≠ 0) : n >>> 1 < n := by
  rw [Nat.shiftRight_eq_div_pow]
  omega

theorem ungrayFrom_zero (number : Nat) : ungrayFrom number 0 = number := by
  rw [ungrayFrom, dif_pos rfl]

theorem ungrayFrom_step (number : Nat) {shift : Nat} (h : shift ≠ 0) :
    ungrayFrom number shift = ungrayFrom (number ^^^ shift) (shift >>> 1) := by
  rw [ungrayFrom, dif_neg h]

/-- What the loop adds to a number is the same for any number. -/
theorem ungrayFrom_xor (a b shift : Nat) :
    ungrayFrom (a ^^^ b) shift = a ^^^ ungrayFrom b shift := by
  induction shift using Nat.strongRecOn generalizing b with
  | ind shift ih =>
    by_cases hshift : shift = 0
    · subst hshift
      rw [ungrayFrom_zero, ungrayFrom_zero]
    · rw [ungrayFrom_step _ hshift, ungrayFrom_step b hshift, Nat.xor_assoc,
        ih (shift >>> 1) (shiftRight_one_lt hshift)]

theorem ungray_zero : ungray 0 = 0 := ungrayFrom_zero 0

/-- The first shift leaves to the loop what decoding the shifted code would. -/
theorem ungray_eq (code : Nat) : ungray code = code ^^^ ungray (code >>> 1) := by
  by_cases hrest : code >>> 1 = 0
  · rw [ungray, hrest, ungrayFrom_zero, ungray_zero, Nat.xor_zero]
  · rw [ungray, ungrayFrom_step _ hrest, ungrayFrom_xor]
    rfl

theorem ungray_gray (n : Nat) : ungray (gray n) = n := by
  induction n using Nat.strongRecOn with
  | ind n ih =>
    by_cases hn : n = 0
    · subst hn
      exact ungray_zero
    · rw [ungray_eq, gray_shiftRight, ih (n >>> 1) (shiftRight_one_lt hn)]
      show (n ^^^ n >>> 1) ^^^ n >>> 1 = n
      rw [Nat.xor_assoc, Nat.xor_self, Nat.xor_zero]

theorem ungray_shiftRight (code : Nat) : ungray code >>> 1 = ungray (code >>> 1) := by
  induction code using Nat.strongRecOn with
  | ind code ih =>
    by_cases hcode : code = 0
    · subst hcode
      rw [Nat.zero_shiftRight, ungray_zero, Nat.zero_shiftRight]
    · rw [ungray_eq, Nat.shiftRight_xor_distrib, ih (code >>> 1) (shiftRight_one_lt hcode),
        ← ungray_eq]

theorem gray_ungray (code : Nat) : gray (ungray code) = code := by
  rw [gray, ungray_shiftRight, ungray_eq, Nat.xor_assoc, Nat.xor_self, Nat.xor_zero]

section Width

variable {width n : Nat}

/-- A code has no more bits than its number. -/
theorem gray_lt (h : n < 2 ^ width) : gray n < 2 ^ width :=
  Nat.xor_lt_two_pow h (Nat.lt_of_le_of_lt (Nat.shiftRight_le n 1) h)

theorem ungray_lt (h : n < 2 ^ width) : ungray n < 2 ^ width := by
  induction n using Nat.strongRecOn with
  | ind n ih =>
    by_cases hn : n = 0
    · subst hn
      rw [ungray_zero]
      exact h
    · have hless := shiftRight_one_lt hn
      rw [ungray_eq]
      exact Nat.xor_lt_two_pow h (ih (n >>> 1) hless (Nat.lt_trans hless h))

end Width

theorem testBit_gray (n i : Nat) : (gray n).testBit i = (n.testBit i ^^ n.testBit (i + 1)) := by
  rw [gray, Nat.testBit_xor, Nat.testBit_shiftRight, Nat.add_comm]

/-- Counting on around a power of two turns over the bits up to some bit, and no others. -/
theorem exists_flipped (top : Nat) {p : Nat} (h : p < 2 ^ (top + 1)) :
    ∃ last, ∀ i,
      ((p + 1) % 2 ^ (top + 1)).testBit i = (p.testBit i ^^ decide (i ≤ last)) := by
  induction top generalizing p with
  | zero =>
    refine ⟨0, fun i => ?_⟩
    obtain rfl | rfl : p = 0 ∨ p = 1 := by omega
    · cases i <;> simp [Nat.testBit_succ]
    · cases i <;> simp [Nat.testBit_succ]
  | succ top ih =>
    have hhalf : p / 2 < 2 ^ (top + 1) := by omega
    rcases Nat.mod_two_eq_zero_or_one p with heven | hodd
    · -- no carry leaves the lowest bit
      have hstep : (p + 1) % 2 ^ (top + 1 + 1) = p + 1 := Nat.mod_eq_of_lt (by omega)
      refine ⟨0, fun i => ?_⟩
      rw [hstep]
      cases i with
      | zero => simp [Nat.testBit_zero, heven, Nat.add_mod]
      | succ i =>
        rw [Nat.testBit_succ, Nat.testBit_succ, show (p + 1) / 2 = p / 2 by omega]
        simp
    · obtain ⟨last, hlast⟩ := ih hhalf
      have hstep : (p + 1) % 2 ^ (top + 1 + 1) = 2 * ((p / 2 + 1) % 2 ^ (top + 1)) := by
        rw [Nat.pow_succ', ← Nat.mul_mod_mul_left, show 2 * (p / 2 + 1) = p + 1 by omega]
      refine ⟨last + 1, fun i => ?_⟩
      rw [hstep]
      cases i with
      | zero => simp [Nat.testBit_zero, hodd]
      | succ i =>
        rw [Nat.testBit_succ, Nat.mul_div_cancel_left _ Nat.two_pos, hlast, Nat.testBit_succ]
        simp

/-- Neighbouring codes around a power of two differ in one bit. -/
theorem existsUnique_changed (top : Nat) {p : Nat} (h : p < 2 ^ (top + 1)) :
    ∃! i, (gray p).testBit i ≠ (gray ((p + 1) % 2 ^ (top + 1))).testBit i := by
  obtain ⟨last, hlast⟩ := exists_flipped top h
  have hchanged : ∀ i, (gray p).testBit i ≠ (gray ((p + 1) % 2 ^ (top + 1))).testBit i ↔
      i = last := by
    intro i
    rw [testBit_gray, testBit_gray, hlast, hlast]
    rcases Nat.lt_trichotomy i last with hlt | rfl | hgt
    · simp [Nat.le_of_lt hlt, Nat.succ_le_of_lt hlt, Nat.ne_of_lt hlt]
    · rw [decide_eq_false (Nat.not_succ_le_self i)]
      simp
    · simp [Nat.not_le_of_lt hgt, Nat.not_le_of_lt (Nat.lt_succ_of_lt hgt), Nat.ne_of_gt hgt]
  exact ⟨last, (hchanged last).mpr rfl, fun i hi => (hchanged i).mp hi⟩

/-- Coding and decoding are inverse to each other and stay in the same number of bits.  In a queue
whose depth is a power of two, the code of a pointer fits the pointer's bits, and it changes in one
bit when the pointer goes on, also when it comes back to zero. -/
theorem gray_faithful :
    (∀ v, ungray (gray v) = v ∧ gray (ungray v) = v) ∧
    (∀ width v, v < 2 ^ width → gray v < 2 ^ width ∧ ungray v < 2 ^ width) ∧
    ∀ depth, (∃ k, depth = 2 ^ k) → ∀ p, p < 2 * depth →
      gray p < 2 * depth ∧ gray ((p + 1) % (2 * depth)) < 2 * depth ∧
        ∃! i, (gray p).testBit i ≠ (gray ((p + 1) % (2 * depth))).testBit i := by
  refine ⟨fun v => ⟨ungray_gray v, gray_ungray v⟩, fun width v h => ⟨gray_lt h, ungray_lt h⟩, ?_⟩
  rintro _ ⟨k, rfl⟩ p hp
  rw [← Nat.pow_succ'] at hp ⊢
  exact ⟨gray_lt hp, gray_lt (Nat.mod_lt _ (Nat.two_pow_pos (k + 1))), existsUnique_changed k hp⟩

/-- From the last pointer of a queue of four back to the first, only the highest bit changes. -/
theorem gray_faithful_at_wrap :
    (∃ k, 4 = 2 ^ k) ∧ 7 < 2 * 4 ∧ gray 7 < 2 * 4 ∧ gray ((7 + 1) % (2 * 4)) < 2 * 4 ∧
      ∃! i, (gray 7).testBit i ≠ (gray ((7 + 1) % (2 * 4))).testBit i := by
  have hdepth : ∃ k, 4 = 2 ^ k := ⟨2, rfl⟩
  exact ⟨hdepth, by decide, gray_faithful.2.2 4 hdepth 7 (by decide)⟩

end LinkBridge.Crossing
