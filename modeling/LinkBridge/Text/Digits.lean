/-!
Whole numbers as text in a base up to 16.

`render` writes the digits of a number, most significant first, and `read?` reads them back:
`read?_render` says that no digit is lost on the way.
-/

namespace LinkBridge.Digits

def ofValue (d : Nat) : Char :=
  if d < 10 then Char.ofNat (48 + d) else Char.ofNat (87 + d)

/-- The value of a digit in a base, in either letter case. -/
def value? (base : Nat) (c : Char) : Option Nat :=
  let n := c.toNat
  let d :=
    if 48 ≤ n ∧ n ≤ 57 then n - 48
    else if 97 ≤ n ∧ n ≤ 102 then n - 87
    else if 65 ≤ n ∧ n ≤ 70 then n - 55
    else base
  if d < base then some d else none

/-- Digits of a number, most significant first.  A base below two has a single digit, so that the
recursion on the quotient always ends. -/
def render (base n : Nat) : List Char :=
  if _h : n < base ∨ base < 2 then [ofValue n]
  else render base (n / base) ++ [ofValue (n % base)]
termination_by n
decreasing_by exact Nat.div_lt_self (by omega) (by omega)

/-- Reads digits on the right of a number already read. -/
def readOnto (base : Nat) (acc : Nat) : List Char → Option Nat
  | [] => some acc
  | c :: rest =>
    match value? base c with
    | some d => readOnto base (acc * base + d) rest
    | none => none

/-- The number that one or more digits write, and nothing else. -/
def read? (base : Nat) : List Char → Option Nat
  | [] => none
  | cs => readOnto base 0 cs

/-- Text brought to a least width by filling on the left. -/
def padLeft (width : Nat) (fill : Char) (cs : List Char) : List Char :=
  List.replicate (width - cs.length) fill ++ cs

def decimal (n : Nat) : String := String.ofList (render 10 n)

/-- A number in hexadecimal after `0x`, filled with zeros to at least `width` digits. -/
def hex (width n : Nat) : String :=
  "0x" ++ String.ofList (padLeft width '0' (render 16 n))

/-- A number in binary, filled with zeros to at least `width` digits. -/
def binary (width n : Nat) : String := String.ofList (padLeft width '0' (render 2 n))

theorem readOnto_append (base acc : Nat) (xs ys : List Char) :
    readOnto base acc (xs ++ ys) = (readOnto base acc xs).bind fun a => readOnto base a ys := by
  induction xs generalizing acc with
  | nil => rfl
  | cons c rest ih =>
    simp only [List.cons_append, readOnto]
    cases value? base c with
    | none => rfl
    | some d => exact ih _

/-- A digit below ten has the value it was made from. -/
theorem value?_ofValue {base d : Nat} (hd : d < base) (hb : base ≤ 16) :
    value? base (ofValue d) = some d := by
  have h : ∀ d : Fin 16, (ofValue d.val).toNat = if d.val < 10 then 48 + d.val else 87 + d.val := by
    decide
  have hc := h ⟨d, by omega⟩
  simp only at hc
  simp only [value?, hc]
  by_cases h10 : d < 10
  · simp [h10, show 48 + d ≤ 57 by omega, hd]
  · have h57 : ¬(48 ≤ 87 + d ∧ 87 + d ≤ 57) := by omega
    have h102 : 97 ≤ 87 + d ∧ 87 + d ≤ 102 := by omega
    simp only [h10, if_false, if_neg h57, if_pos h102, Nat.add_sub_cancel_left, if_pos hd]

theorem render_ne_nil (base n : Nat) : render base n ≠ [] := by
  unfold render
  split <;> simp

theorem readOnto_render {base : Nat} (hb : 2 ≤ base) (hb' : base ≤ 16) (n : Nat) :
    readOnto base 0 (render base n) = some n := by
  induction n using Nat.strongRecOn with
  | ind n ih =>
    unfold render
    split
    · rename_i h
      have hn : n < base := by omega
      simp [readOnto, value?_ofValue hn hb']
    · rename_i h
      have hlt : n / base < n := Nat.div_lt_self (by omega) (by omega)
      have hmod : n % base < base := Nat.mod_lt _ (by omega)
      have hdiv : n / base * base + n % base = n := by
        rw [Nat.mul_comm]
        exact Nat.div_add_mod n base
      rw [readOnto_append, ih _ hlt]
      simp only [Option.bind_some, readOnto, value?_ofValue hmod hb', hdiv]

/-- What `render` writes reads back as the number. -/
theorem read?_render {base : Nat} (hb : 2 ≤ base) (hb' : base ≤ 16) (n : Nat) :
    read? base (render base n) = some n := by
  have h := readOnto_render hb hb' n
  cases hr : render base n with
  | nil => exact absurd hr (render_ne_nil base n)
  | cons c rest =>
    rw [hr] at h
    exact h

end LinkBridge.Digits
