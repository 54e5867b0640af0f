import LinkBridge.Proofs.Pattern.Localisation

/-!
A checker in the other pattern.

The two fields of a pseudo-random word are complements of each other, those of a count are equal.
Counting up moves both fields the same way, so no word of the one pattern follows another as a
count, and twelve bits are never their own complement, so no two counts are the fields of a value.
The checker of the other pattern therefore counts all that it can compare
(`wrong_pattern_counted`).
-/

namespace LinkBridge

namespace LinkWord

/-- Both fields together have each of the twelve bits once. -/
def Complementary (w : LinkWord) : Prop := w.fields.1.toNat + w.fields.2.toNat = 4095

def Twin (w : LinkWord) : Prop := w.fields.1 = w.fields.2

end LinkWord

namespace PrbsFields

theorem complement_first (v : UInt16) :
    (ofValue v).ai.toNat + (ofValue v).aq.toNat = 4095 := by
  have hlt : v.toNat < 65536 := v.toNat_lt
  have hnot : (~~~v).toNat = 65535 - v.toNat := UInt16.toNat_not v
  simp only [ofValue, toNat_and_fieldMask, hnot]
  omega

theorem complement_second (v : UInt16) :
    (ofValue v).bi.toNat + (ofValue v).bq.toNat = 4095 := by
  have hlt : v.toNat < 65536 := v.toNat_lt
  have hnot : (~~~v).toNat = 65535 - v.toNat := UInt16.toNat_not v
  simp only [ofValue, toNat_and_fieldMask, toNat_shiftRight_four, hnot]
  omega

end PrbsFields

namespace Generator

theorem complementary_words (g : Generator) (start k : Nat) :
    (g.words .prbs start k).Complementary := by
  unfold LinkWord.Complementary LinkWord.fields
  cases hslot : SelfTest.firstSlot (start + k) with
  | true =>
    obtain ⟨hai, haq, -, -⟩ :=
      PrbsFields.masked_ofValue (g.after .prbs start k).prbs.next.state
    rw [g.words_of_first hslot]
    simp only [hai, haq]
    exact PrbsFields.complement_first _
  | false =>
    obtain ⟨-, -, hbi, hbq⟩ := PrbsFields.masked_ofValue (g.after .prbs start k).word
    rw [g.words_of_second hslot]
    simp only [hbi, hbq]
    exact PrbsFields.complement_second _

theorem twin_words (g : Generator) (start k : Nat) : (g.words .count start k).Twin := rfl

end Generator

variable {words : Nat → LinkWord} {start : Nat}

/-- One of the complements grows by one, so the other does not. -/
theorem faulty_of_complementary (h : ∀ k, (words k).Complementary) (k : Nat) :
    faulty words start .count (k + 1) = true := by
  refine (faulty_next (m := .count) (k := k) rfl).mpr fun hnext => ?_
  have hnow : (words (k + 1)).fields.1.toNat + (words (k + 1)).fields.2.toNat = 4095 := h (k + 1)
  have hbefore : (words k).fields.1.toNat + (words k).fields.2.toNat = 4095 := h k
  have hfields : (words (k + 1)).fields =
      (nextCount (words k).fields.1, nextCount (words k).fields.2) := hnext
  rw [hfields, toNat_nextCount, toNat_nextCount] at hnow
  omega

/-- Equal fields are not those of a value. -/
theorem ofHalves_ne_ofValue {first : LinkWord} (h : first.Twin) (second : LinkWord) (v : UInt16) :
    PrbsFields.ofHalves first second ≠ .ofValue v := by
  intro hvalue
  have hsum := PrbsFields.complement_first v
  have hequal : first.fields.1 = first.fields.2 := h
  rw [← hvalue] at hsum
  have hdouble : first.fields.1.toNat + first.fields.2.toNat = 4095 := hsum
  rw [hequal] at hdouble
  omega

theorem faulty_of_twin (h : ∀ k, (words k).Twin) {k : Nat}
    (hk : SelfTest.firstSlot (start + k) = true) : faulty words start .prbs (k + 1) = true := by
  by_cases hp : ∃ p, PatternMode.Precedes .prbs start p k
  · obtain ⟨p, hbegins, rfl⟩ := hp
    exact (faulty_next (m := .prbs) hbegins).mpr (ofHalves_ne_ofValue (h _) _ _)
  · have hopens : PatternMode.opens .prbs (PatternMode.symbol .prbs words k) = false :=
      beq_false_of_ne (ofHalves_ne_ofValue (h k) _ _).symm
    have hfirst : faulty words start .prbs (k + 1) =
        !PatternMode.opens .prbs (PatternMode.symbol .prbs words k) :=
      faulty_first (m := .prbs) hk (not_exists.mp hp)
    rw [hfirst, hopens]
    rfl

/-- All samples but the first are faulty. -/
theorem count_faulty_of_complementary (h : ∀ k, (words k).Complementary) (n : Nat) :
    Nat.count (fun k => faulty words start .count k = true) n = n - 1 := by
  induction n with
  | zero => rfl
  | succ n ih =>
    rw [Nat.count_succ, ih]
    cases n with
    | zero => rfl
    | succ k => rw [if_pos (faulty_of_complementary h k)]; rfl

/-- All pairs are faulty. -/
theorem count_faulty_of_twin (h : ∀ k, (words k).Twin) (n : Nat) :
    Nat.count (fun k => faulty words start .prbs k = true) n = (n - start % 2) / 2 := by
  induction n with
  | zero => simp
  | succ n ih =>
    rw [Nat.count_succ, ih]
    cases n with
    | zero =>
      rw [faulty_prbs_zero, if_neg Bool.false_ne_true]
      omega
    | succ k =>
      by_cases hslot : SelfTest.firstSlot (start + k) = true
      · rw [if_pos (faulty_of_twin h hslot)]
        have heven : (start + k) % 2 = 0 := of_decide_eq_true hslot
        omega
      · rw [faulty_prbs_succ, Bool.eq_false_iff.mpr hslot, Bool.false_and,
          if_neg Bool.false_ne_true]
        have hodd : ¬(start + k) % 2 = 0 := fun h => hslot (decide_eq_true h)
        omega

namespace SelfTest

/-- A counting checker counts every pseudo-random word but the first, and a pseudo-random checker
every pair of counts. -/
theorem wrong_pattern_counted (g : Generator) {c : Checker} (hc : c.enabled = false)
    (m₀ : PatternMode) (s₀ : Option LinkSample) (start : Nat) :
    let test : SelfTest := ⟨g, c.tick true m₀ s₀⟩
    let errors (generated checked : PatternMode) (n : Nat) : UInt32 :=
      (test.after generated checked (fun _ => 0) start n).checker.errors
    (∀ k, errors .prbs .count (k + 2) = errors .prbs .count (k + 1) + 1) ∧
    (∀ k, firstSlot (start + k) = true →
      errors .count .prbs (k + 2) = errors .count .prbs (k + 1) + 1) ∧
    ∀ n < 2 ^ 32, (errors .prbs .count n).toNat = n - 1 ∧
      (errors .count .prbs n).toNat = (n - start % 2) / 2 := by
  intro test errors
  have herrors : ∀ generated checked n, errors generated checked n =
      (Checker.watch { enabled := true } checked
        (slotted (g.words generated start) start) n).errors := by
    intro generated checked n
    have hintact : corruptedWords g generated (fun _ => 0) start = g.words generated start :=
      funext fun k => LinkWord.flipped_zero _
    have hafter := after_eq g hc m₀ s₀ generated checked (fun _ => 0) start n
    rw [hintact] at hafter
    exact congrArg (fun t : SelfTest => t.checker.errors) hafter
  simp only [herrors]
  have hprbs := g.complementary_words start
  have hcount := g.twin_words start
  refine ⟨fun k => ?_, fun k hk => ?_, fun n hn => ⟨?_, ?_⟩⟩
  · rw [Checker.errors_watch_succ, if_pos (faulty_of_complementary hprbs k)]
  · rw [Checker.errors_watch_succ, if_pos (faulty_of_twin hcount hk)]
  · rw [Checker.toNat_errors_watch hn]
    exact count_faulty_of_complementary hprbs n
  · rw [Checker.toNat_errors_watch hn]
    exact count_faulty_of_twin hcount n

/-- From a second slot on, with a counter about to wrap. -/
theorem wrong_pattern_counted_at_wrap :
    let g : Generator := { count := 4094, word := 0x1234 }
    let c : Checker := { errors := 5 }
    let test : SelfTest := ⟨g, c.tick true .prbs none⟩
    c.enabled = false ∧ (test.after .prbs .count (fun _ => 0) 1 9).checker.errors.toNat = 8 ∧
      (test.after .count .prbs (fun _ => 0) 1 9).checker.errors.toNat = 4 := by
  intro g c test
  obtain ⟨-, -, htotals⟩ := wrong_pattern_counted g (c := c) rfl .prbs none 1
  exact ⟨rfl, htotals 9 (by decide)⟩

end SelfTest
end LinkBridge
