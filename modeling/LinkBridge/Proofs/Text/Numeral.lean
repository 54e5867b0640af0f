import LinkBridge.Text.Digits
import Mathlib.Data.List.Forall2
import Mathlib.Data.Nat.Digits.Defs
import Mathlib.Tactic.Ring

/-!
Numerals.

The digits of a base stand in a row, each at the place of its value, and a numeral is worth what its
digits are worth at their places.  Reading gives a number exactly for the numerals, and the number
is what the numeral is worth (`read?_eq_some_iff`).
-/

namespace LinkBridge.Digits

def figures : List Char :=
  ['0', '1', '2', '3', '4', '5', '6', '7', '8', '9', 'a', 'b', 'c', 'd', 'e', 'f']

def capitals : List Char :=
  ['0', '1', '2', '3', '4', '5', '6', '7', '8', '9', 'A', 'B', 'C', 'D', 'E', 'F']

/-- A character is the digit of a value, in either letter case. -/
def HasValue (base : Nat) (c : Char) (d : Nat) : Prop :=
  d < base ∧ (figures[d]? = some c ∨ capitals[d]? = some c)

/-- One or more digits, the most significant first, and the number that they write. -/
def Numeral (base : Nat) (cs : List Char) (n : Nat) : Prop :=
  cs ≠ [] ∧ ∃ ds, List.Forall₂ (HasValue base) cs ds ∧ Nat.ofDigits base ds.reverse = n

variable {base n d : Nat} {c : Char} {cs : List Char}

theorem HasValue.mem (h : HasValue base c d) :
    c ∈ figures.take base ++ capitals.take base := by
  obtain ⟨hd, hc⟩ := h
  refine List.mem_append.mpr (hc.imp ?_ ?_) <;>
  · intro hc
    refine List.mem_of_getElem? (i := d) ?_
    rwa [List.getElem?_take_of_lt hd]

theorem Numeral.mem (h : Numeral base cs n) (hc : c ∈ cs) :
    c ∈ figures.take base ++ capitals.take base := by
  obtain ⟨-, ds, hds, -⟩ := h
  induction hds with
  | nil => nomatch hc
  | cons hhead _ ih =>
    rcases List.mem_cons.mp hc with rfl | hrest
    · exact hhead.mem
    · exact ih hrest

theorem hasValue_iff (hb : base ≤ 16) :
    HasValue base c d ↔ d < base ∧
      (c.toNat = (if d < 10 then 48 + d else 87 + d) ∨
        c.toNat = (if d < 10 then 48 + d else 55 + d)) := by
  have hfigures : ∀ d : Fin 16,
      figures[d.val]? = some (Char.ofNat (if d.val < 10 then 48 + d else 87 + d)) := by decide
  have hcapitals : ∀ d : Fin 16,
      capitals[d.val]? = some (Char.ofNat (if d.val < 10 then 48 + d else 55 + d)) := by decide
  have hcode : ∀ n : Fin 128, (Char.ofNat n).toNat = n := by decide
  have heq : ∀ n, n < 128 → (some (Char.ofNat n) = some c ↔ c.toNat = n) := by
    intro n hn
    rw [Option.some.injEq]
    exact ⟨fun h => h ▸ hcode ⟨n, hn⟩, fun h => h ▸ Char.ofNat_toNat c⟩
  refine and_congr_right fun hd => or_congr ?_ ?_
  · rw [hfigures ⟨d, by omega⟩]
    exact heq _ (by split <;> omega)
  · rw [hcapitals ⟨d, by omega⟩]
    exact heq _ (by split <;> omega)

theorem value?_eq_some_iff (hb : base ≤ 16) : value? base c = some d ↔ HasValue base c d := by
  rw [hasValue_iff hb]
  grind [value?]

/-- What was read before stands above all digits that follow. -/
theorem readOnto_eq_some_iff (hb : base ≤ 16) {acc : Nat} :
    readOnto base acc cs = some n ↔
      ∃ ds, List.Forall₂ (HasValue base) cs ds ∧ Nat.ofDigits base (ds.reverse ++ [acc]) = n := by
  induction cs generalizing acc with
  | nil => simp [readOnto, List.forall₂_nil_left_iff]
  | cons c rest ih =>
    have hplace : ∀ ds d, Nat.ofDigits base ((d :: ds).reverse ++ [acc]) =
        Nat.ofDigits base (ds.reverse ++ [acc * base + d]) := by
      intro ds d
      simp only [List.reverse_cons, List.append_assoc, Nat.ofDigits_append, Nat.ofDigits_cons,
        List.cons_append, List.nil_append, Nat.ofDigits_nil]
      ring
    simp only [List.forall₂_cons_left_iff]
    unfold readOnto
    cases hvalue : value? base c with
    | none =>
      simp only [reduceCtorEq, false_iff]
      rintro ⟨_, ⟨d, ds, hd, -, rfl⟩, -⟩
      rw [← value?_eq_some_iff hb, hvalue] at hd
      cases hd
    | some d =>
      simp only [ih]
      constructor
      · rintro ⟨ds, hds, hn⟩
        exact ⟨d :: ds, ⟨d, ds, (value?_eq_some_iff hb).mp hvalue, hds, rfl⟩, hplace ds d ▸ hn⟩
      · rintro ⟨_, ⟨d', ds, hd, hds, rfl⟩, hn⟩
        obtain rfl : d = d' := by
          rw [← value?_eq_some_iff hb, hvalue] at hd
          exact Option.some.inj hd
        exact ⟨ds, hds, hplace ds d ▸ hn⟩

theorem read?_eq_some_iff (hb : base ≤ 16) : read? base cs = some n ↔ Numeral base cs n := by
  unfold read? Numeral
  cases cs with
  | nil => simp
  | cons c rest => simp [readOnto_eq_some_iff hb, Nat.ofDigits_append]

/-- Numbers are shown as core shows them. -/
theorem decimal_eq_repr (n : Nat) : decimal n = n.repr := by
  have hdigit : ∀ d : Fin 10, ofValue d = Nat.digitChar d := by decide
  rw [decimal, Nat.repr_eq_ofList_toDigits]
  congr 1
  induction n using Nat.strongRecOn with
  | ind n ih =>
    rw [render, Nat.toDigits_eq_if (by decide)]
    split
    · rename_i h
      rw [if_pos (by omega), hdigit ⟨n, by omega⟩]
    · rename_i h
      rw [if_neg (by omega), ih _ (Nat.div_lt_self (by omega) (by decide)),
        hdigit ⟨n % 10, Nat.mod_lt _ (by decide)⟩]

end LinkBridge.Digits
