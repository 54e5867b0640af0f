import LinkBridge.Proofs.Pattern.Symbols
import Mathlib.Tactic.IntervalCases

/-!
Links that are stuck.

A link that carries one word for ever makes one symbol for ever, and the checker is content only
with a symbol that is its own successor.  No count is.  In the pseudo-random pattern both halves of
the symbol are one word, so its value repeats every four bits, and of the eight values of fifteen
bits that do, the sequence comes back at once only to zero.  So a stuck link is found unless each
word is zero beside its complement, and then it never is (`stuck_detected_iff`).
-/

namespace LinkBridge

theorem nextCount_ne (c : UInt16) : nextCount c ≠ c := by
  intro h
  have hnat := congrArg UInt16.toNat h
  rw [toNat_nextCount] at hnat
  omega

namespace Prbs

theorem next_lt (p : Prbs) : p.next.state.toNat < 32768 := by
  have hstate : p.next.state &&& 0x7fff = p.next.state := congrArg state p.ofState_next
  rw [← hstate, UInt16.toNat_and]
  exact Nat.lt_succ_of_le Nat.and_le_right

/-- Of the values that repeat every four bits, only zero comes right after itself. -/
theorem eq_zero_of_next_self {v : UInt16} (hrepeats : v &&& fieldMask = (v >>> 4) &&& fieldMask)
    (hnext : (ofState v).next.state = v) : v = 0 := by
  have hlt : v.toNat < 32768 := hnext ▸ next_lt _
  have hdigits := congrArg UInt16.toNat hrepeats
  rw [toNat_and_fieldMask, toNat_and_fieldMask, toNat_shiftRight_four] at hdigits
  obtain ⟨d, hd⟩ : ∃ d, v.toNat / 4096 = d := ⟨_, rfl⟩
  have hsmall : d < 8 := by omega
  have hv : v = UInt16.ofNat (4369 * d) := by
    apply UInt16.toNat_inj.mp
    rw [UInt16.toNat_ofNat']
    interval_cases d <;> omega
  subst hv
  interval_cases d
  · rfl
  all_goals exact absurd hnext (by decide)

end Prbs

section Stuck

variable {m : PatternMode} {w : LinkWord} {start : Nat}

/-- The symbol that a link makes that carries one word only. -/
def stuckSymbol (m : PatternMode) (w : LinkWord) : m.Symbol := m.symbol (fun _ => w) 0

theorem symbol_stuck (m : PatternMode) (w : LinkWord) (k : Nat) :
    m.symbol (fun _ => w) k = stuckSymbol m w := by
  cases m <;> rfl

theorem stuckSymbol_eq_zero_iff :
    stuckSymbol .prbs w = PrbsFields.ofValue 0 ↔ w.fields = (0, fieldMask) := by
  have hzero : PrbsFields.ofValue 0 = ⟨0, fieldMask, 0, fieldMask⟩ := by decide
  rw [hzero]
  show PrbsFields.ofHalves w w = _ ↔ _
  unfold PrbsFields.ofHalves
  rw [PrbsFields.mk.injEq, Prod.ext_iff]
  exact ⟨fun ⟨h0, h1, _, _⟩ => ⟨h0, h1⟩, fun ⟨h0, h1⟩ => ⟨h0, h1, h0, h1⟩⟩

theorem successor_stuck_iff :
    m.successor (stuckSymbol m w) = stuckSymbol m w ↔ m = .prbs ∧ w.fields = (0, fieldMask) := by
  cases m with
  | count =>
    have hne : nextCount w.fields.1 ≠ w.fields.1 := nextCount_ne _
    exact ⟨fun h => absurd (congrArg Prod.fst h) hne, fun h => nomatch h.1⟩
  | prbs =>
    rw [← stuckSymbol_eq_zero_iff]
    constructor
    · intro h
      refine ⟨rfl, ?_⟩
      have hvalue : PrbsFields.ofValue (Prbs.ofState (PrbsFields.word
          (PrbsFields.ofHalves w w))).next.state = PrbsFields.ofHalves w w := h
      generalize hv : (Prbs.ofState (PrbsFields.word (PrbsFields.ofHalves w w))).next.state = v
        at hvalue
      rw [← hvalue, PrbsFields.word_ofValue] at hv
      have hrepeats : (PrbsFields.ofValue v).ai = (PrbsFields.ofValue v).bi := by
        rw [hvalue]
        rfl
      rw [Prbs.eq_zero_of_next_self hrepeats hv] at hvalue
      exact hvalue.symm
    · rintro ⟨-, h⟩
      rw [h]
      show PrbsFields.ofValue (Prbs.ofState (PrbsFields.word (.ofValue 0))).next.state = _
      rw [PrbsFields.word_ofValue]
      decide

/-- The symbol that follows itself may also open a stream. -/
theorem not_faulty_of_successor (h : m.successor (stuckSymbol m w) = stuckSymbol m w) (i : Nat) :
    faulty (fun _ => w) start m i = false := by
  rw [Bool.eq_false_iff]
  intro hfaulty
  obtain ⟨k, hk, rfl⟩ := exists_symbol_of_faulty hfaulty
  by_cases hp : ∃ p, m.Precedes start p k
  · obtain ⟨p, hbegins, rfl⟩ := hp
    refine (faulty_next hbegins).mp hfaulty ?_
    rw [symbol_stuck, symbol_stuck, h]
  · rw [faulty_first hk (not_exists.mp hp), symbol_stuck] at hfaulty
    obtain ⟨rfl, hfields⟩ := successor_stuck_iff.mp h
    rw [stuckSymbol_eq_zero_iff.mpr hfields] at hfaulty
    exact absurd hfaulty (by decide)

/-- Of two cycles in a row, a symbol begins in one. -/
theorem exists_symbolBegins (m : PatternMode) (start : Nat) :
    ∃ p ≤ 1, m.symbolBegins (start + p) = true := by
  cases m with
  | count => exact ⟨0, Nat.zero_le 1, rfl⟩
  | prbs =>
    cases hslot : SelfTest.firstSlot start with
    | true => exact ⟨0, Nat.zero_le 1, hslot⟩
    | false =>
      refine ⟨1, Nat.le_refl 1, ?_⟩
      show SelfTest.firstSlot (start + 1) = true
      rw [SelfTest.firstSlot_succ, hslot]
      rfl

/-- Of the first five samples, one that ends a second symbol is faulty. -/
theorem exists_faulty_of_stuck (h : m.successor (stuckSymbol m w) ≠ stuckSymbol m w) :
    ∃ i < 5, faulty (fun _ => w) start m i = true := by
  obtain ⟨p, hp, hbegins⟩ := exists_symbolBegins m start
  refine ⟨m.symbolEnd (m.symbolEnd p + 1), ?_, (faulty_next hbegins).mpr ?_⟩
  · cases m <;> simp only [PatternMode.symbolEnd] <;> omega
  · rw [symbol_stuck, symbol_stuck]
    exact h.symm

end Stuck

namespace Checker

/-- The cycle that sets the enable takes no sample. -/
theorem watch_of_starting {c : Checker} (hc : c.enabled = false) (m : PatternMode)
    (words : Nat → LinkWord) (start n : Nat) :
    c.watch m (slotted words start) (n + 1) =
      watch { enabled := true } m (slotted (fun k => words (k + 1)) (start + 1)) n := by
  induction n with
  | zero => exact tick_of_starting hc m _
  | succ n ih => rw [watch, ih, slotted_succ]; rfl

/-- From the cycle on that sets its enable, a checker is given one word in slots that take turns.
After six of them there are errors, unless the pattern is the pseudo-random one and the fields of
the word are zero and its complement. -/
theorem stuck_detected_iff {c : Checker} (hc : c.enabled = false) (m : PatternMode) (w : LinkWord)
    (start : Nat) {n : Nat} (hn : 6 ≤ n) (hle : n ≤ 2 ^ 32) :
    (c.watch m (slotted (fun _ => w) start) n).errors ≠ 0 ↔
      ¬(m = .prbs ∧ w.fields = (0, fieldMask)) := by
  obtain ⟨k, rfl⟩ : ∃ k, n = k + 1 := ⟨n - 1, by omega⟩
  rw [watch_of_starting hc, ← successor_stuck_iff]
  constructor
  · intro herrors hsuccessor
    refine herrors ?_
    rw [errors_watch, Nat.count_of_forall_not fun i _ hfaulty => ?_]
    · rfl
    · rw [not_faulty_of_successor hsuccessor] at hfaulty
      exact nomatch hfaulty
  · intro hsuccessor hzero
    let bad (i : Nat) : Prop := faulty (fun _ => w) (start + 1) m i = true
    obtain ⟨i, hi, hfaulty⟩ : ∃ i < 5, bad i := exists_faulty_of_stuck hsuccessor
    have hcount : (watch { enabled := true } m (slotted (fun _ => w) (start + 1)) k).errors.toNat =
        Nat.count bad k := toNat_errors_watch (by omega)
    have hmono : Nat.count bad (i + 1) ≤ Nat.count bad k := Nat.count_monotone bad (by omega)
    rw [← hcount, hzero, Nat.count_succ, if_pos hfaulty] at hmono
    exact nomatch hmono

/-- All bits zero, from a second slot on. -/
theorem stuck_detected_at_zero :
    let c : Checker := { errors := 5 }
    c.enabled = false ∧ (c.watch .prbs (slotted (fun _ => default) 0) 6).errors ≠ 0 := by
  intro c
  exact ⟨rfl, (stuck_detected_iff (c := c) rfl .prbs default 0 (Nat.le_refl 6) (by decide)).mpr
    (by decide)⟩

/-- Zero beside its complement is taken for the value zero following itself. -/
theorem stuck_undetected_at_complement :
    let w : LinkWord := ⟨0, 0xfff⟩
    (({} : Checker).watch .prbs (slotted (fun _ => w) 0) 6).errors = 0 := by
  decide +kernel

end Checker
end LinkBridge
