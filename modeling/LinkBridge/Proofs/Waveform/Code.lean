import LinkBridge.Waveform.Code
import Mathlib.Algebra.BigOperators.Ring.Finset
import Mathlib.Data.Set.Operations

/-!
Numbers from codes.

Read from its last character on, a code says its number: each character adds its own place to a
multiple of what the rest says.  Places count from one, so a longer code is never the number of a
shorter one (`place_code`), and no two numbers have one code.

No text over the 94 characters is left out either: it is one character in front of a shorter text,
and `code_cons` says which number it is the code of.  So the codes are all of these texts, the
shorter ones first (`length_code_le_iff`).
-/

namespace LinkBridge.Waveform

/-- The place of a code in the row of all codes, counted from one. -/
def place : List Char → Nat
  | [] => 0
  | c :: rest => c.toNat - 33 + 1 + codeBase * place rest

theorem toNat_codeChar : ∀ digit < codeBase, (codeChar digit).toNat = 33 + digit := by decide

theorem place_cons {digit : Nat} (h : digit < codeBase) (rest : List Char) :
    place (codeChar digit :: rest) = digit + 1 + codeBase * place rest := by
  rw [place, toNat_codeChar digit h, Nat.add_sub_cancel_left]

theorem place_code (n : Nat) : place (code n) = n + 1 := by
  fun_induction code n with
  | case1 n h => exact place_cons h []
  | case2 n h ih =>
    have hle : codeBase ≤ n := Nat.le_of_not_lt h
    have hdiv : 0 < n / codeBase := Nat.div_pos hle (by decide)
    rw [place_cons (Nat.mod_lt n (by decide)), ih, Nat.sub_add_cancel hdiv, Nat.add_right_comm,
      Nat.mod_add_div]

theorem code_injective : Function.Injective code := by
  intro a b h
  have hplace : a + 1 = b + 1 := by rw [← place_code a, h, place_code b]
  exact Nat.succ.inj hplace

section Characters

/-- A character that codes are written with. -/
def IsCodeChar (c : Char) : Prop := '!' ≤ c ∧ c ≤ '~'

instance : DecidablePred IsCodeChar := fun c => inferInstanceAs (Decidable ('!' ≤ c ∧ c ≤ '~'))

theorem isCodeChar_codeChar : ∀ digit < codeBase, IsCodeChar (codeChar digit) := by decide

theorem exists_codeChar {c : Char} (h : IsCodeChar c) : ∃ digit < codeBase, codeChar digit = c := by
  have hlow : 33 ≤ c.toNat := h.1
  have hhigh : c.toNat ≤ 126 := h.2
  refine ⟨c.toNat - 33, Nat.lt_of_le_of_lt (Nat.sub_le_sub_right hhigh 33) (by decide), ?_⟩
  rw [codeChar, Nat.add_sub_cancel' hlow, Char.ofNat_toNat]

theorem isCodeChar_of_mem_code {n : Nat} : ∀ c ∈ code n, IsCodeChar c := by
  fun_induction code n with
  | case1 n h => exact List.forall_mem_singleton.mpr (isCodeChar_codeChar n h)
  | case2 n h ih =>
    exact List.forall_mem_cons.mpr ⟨isCodeChar_codeChar _ (Nat.mod_lt n (by decide)), ih⟩

end Characters

theorem code_digit {digit : Nat} (h : digit < codeBase) : code digit = [codeChar digit] := by
  rw [code, dif_pos h]

/-- One character more in front: the multiple counts the codes from one. -/
theorem code_cons {digit : Nat} (h : digit < codeBase) (n : Nat) :
    code (digit + codeBase * (n + 1)) = codeChar digit :: code n := by
  have hbase : 0 < codeBase := by decide
  have hge : ¬ digit + codeBase * (n + 1) < codeBase := by
    rw [Nat.mul_succ]
    omega
  rw [code, dif_neg hge, Nat.add_mul_mod_self_left, Nat.mod_eq_of_lt h,
    Nat.add_mul_div_left _ _ hbase, Nat.div_eq_of_lt h, Nat.zero_add, Nat.add_sub_cancel]

theorem exists_code {cs : List Char} (hne : cs ≠ []) (h : ∀ c ∈ cs, IsCodeChar c) :
    ∃ n, code n = cs := by
  induction cs with
  | nil => exact absurd rfl hne
  | cons c rest ih =>
    obtain ⟨hc, hrest⟩ := List.forall_mem_cons.mp h
    obtain ⟨digit, hdigit, rfl⟩ := exists_codeChar hc
    cases rest with
    | nil => exact ⟨digit, code_digit hdigit⟩
    | cons d rest =>
      obtain ⟨n, hn⟩ := ih (List.cons_ne_nil d rest) hrest
      exact ⟨digit + codeBase * (n + 1), by rw [code_cons hdigit, hn]⟩

theorem range_code : Set.range code = {cs | cs ≠ [] ∧ ∀ c ∈ cs, IsCodeChar c} := by
  ext cs
  constructor
  · rintro ⟨n, rfl⟩
    exact ⟨code_ne_nil n, isCodeChar_of_mem_code⟩
  · rintro ⟨hne, h⟩
    exact exists_code hne h

/-- The codes of up to so many characters are those of the first numbers. -/
theorem length_code_le_iff (n length : Nat) :
    (code n).length ≤ length ↔ n < ∑ i ∈ Finset.range length, codeBase ^ (i + 1) := by
  induction length generalizing n with
  | zero => simp [code_ne_nil]
  | succ length ih =>
    have hbase : 0 < codeBase := by decide
    have hsum : ∑ i ∈ Finset.range (length + 1), codeBase ^ (i + 1) =
        (∑ i ∈ Finset.range length, codeBase ^ (i + 1) + 1) * codeBase := by
      rw [Finset.sum_range_succ', Nat.add_mul, Finset.sum_mul, Nat.zero_add, pow_one, Nat.one_mul]
      rfl
    rw [hsum, ← Nat.div_lt_iff_lt_mul hbase]
    unfold code
    split
    case isTrue h =>
      rw [Nat.div_eq_of_lt h]
      simp
    case isFalse h =>
      have hdiv : 0 < n / codeBase := Nat.div_pos (Nat.le_of_not_lt h) hbase
      rw [List.length_cons, Nat.add_le_add_iff_right, ih]
      omega

section Turns

/-- What the next turn writes a character from. -/
def remaining (n : Nat) : Nat := n / codeBase - 1

/-- A code is written in turns, one character in each, until less than the base remains. -/
theorem exists_turns (n : Nat) :
    ∃ last, (∀ turn < last, codeBase ≤ remaining^[turn] n) ∧ remaining^[last] n < codeBase ∧
      code n = (List.range (last + 1)).map fun turn => codeChar (remaining^[turn] n % codeBase) := by
  fun_induction code n with
  | case1 n h =>
    refine ⟨0, fun turn hturn => absurd hturn (Nat.not_lt_zero turn), h, ?_⟩
    simp [Nat.mod_eq_of_lt h]
  | case2 n h ih =>
    obtain ⟨last, hmore, hlast, hcode⟩ := ih
    refine ⟨last + 1, fun turn hturn => ?_, hlast, ?_⟩
    · cases turn with
      | zero => exact Nat.le_of_not_lt h
      | succ turn => exact hmore turn (Nat.lt_of_succ_lt_succ hturn)
    · rw [List.range_succ_eq_map, List.map_cons, List.map_map, hcode]
      rfl

end Turns

/-- Codes are bijective numerals.  Writing one takes finitely many turns, a character each; the
codes are the non-empty texts over the characters from `!` to `~`, each of one number only; the
characters are the digits, from one to 94, of the number's place; and the shorter codes come
first. -/
theorem code_enumerates_texts :
    (∀ n, ∃ last, (∀ turn < last, codeBase ≤ remaining^[turn] n) ∧ remaining^[last] n < codeBase ∧
      code n = (List.range (last + 1)).map fun turn => codeChar (remaining^[turn] n % codeBase)) ∧
    Set.range code = {cs | cs ≠ [] ∧ ∀ c ∈ cs, '!' ≤ c ∧ c ≤ '~'} ∧
    Function.Injective code ∧
    (∀ n, place (code n) = n + 1) ∧
    ∀ n length, (code n).length ≤ length ↔ n < ∑ i ∈ Finset.range length, codeBase ^ (i + 1) :=
  ⟨exists_turns, range_code, code_injective, place_code, length_code_le_iff⟩

end LinkBridge.Waveform
