import LinkBridge.Pattern.SelfTest
import LinkBridge.Proofs.Pattern.Lockstep
import LinkBridge.Proofs.Pattern.Mismatches
import Mathlib.Data.Nat.Count

/-!
Symbols of a pattern.

A symbol is what the checker judges at once: the fields of a sample in the counting pattern, those
of a first half and of the second half behind it in the pseudo-random one.  After a symbol the
checker accepts only one other, its successor.  In a stream whose slots take turns a sample is
faulty only at the end of a symbol (`exists_symbol_of_faulty`), and there just if the symbol is not
the successor of the one before (`faulty_next`) or, without one before, not fit to open a stream
(`faulty_first`).  The error count of a checker that watches the stream is the number of faulty
samples (`errors_watch`).
-/

namespace LinkBridge

namespace PatternMode

abbrev Symbol : PatternMode → Type
  | .count => UInt16 × UInt16
  | .prbs => PrbsFields

/-- The symbol that begins in a cycle, if one does. -/
def symbol : (m : PatternMode) → (Nat → LinkWord) → Nat → m.Symbol
  | .count, words, k => (words k).fields
  | .prbs, words, k => .ofHalves (words k) (words (k + 1))

/-- Every sample is a symbol of the counting pattern; one of the other begins in a first slot. -/
def symbolBegins : PatternMode → Nat → Bool
  | .count, _ => true
  | .prbs, slot => SelfTest.firstSlot slot

/-- The last cycle of the symbol that begins in a cycle. -/
def symbolEnd : PatternMode → Nat → Nat
  | .count, k => k
  | .prbs, k => k + 1

/-- The only symbol that the checker accepts after another. -/
def successor : (m : PatternMode) → m.Symbol → m.Symbol
  | .count, fields => (nextCount fields.1, nextCount fields.2)
  | .prbs, fields => .ofValue (Prbs.ofState fields.word).next.state

/-- Whether the checker accepts a symbol with none before it. -/
def opens : (m : PatternMode) → m.Symbol → Bool
  | .count, _ => true
  | .prbs, fields => .ofValue fields.word == fields

/-- The symbol before one, if it was all seen. -/
def Precedes (m : PatternMode) (start p k : Nat) : Prop :=
  m.symbolBegins (start + p) = true ∧ m.symbolEnd p + 1 = k

end PatternMode

/-! ### Fields and slots -/

theorem toNat_and_fieldMask (v : UInt16) : (v &&& fieldMask).toNat = v.toNat % 4096 := by
  rw [UInt16.toNat_and]
  exact Nat.and_two_pow_sub_one_eq_mod v.toNat 12

theorem toNat_shiftRight_four (v : UInt16) : (v >>> 4).toNat = v.toNat / 16 := by
  rw [UInt16.toNat_shiftRight]
  exact Nat.shiftRight_eq_div_pow v.toNat 4

theorem toNat_nextCount (c : UInt16) : (nextCount c).toNat = (c.toNat + 1) % 4096 := by
  rw [nextCount, toNat_and_fieldMask, UInt16.toNat_add]
  show (c.toNat + 1) % 65536 % 4096 = _
  omega

theorem nextCount_masked (c : UInt16) : nextCount (c &&& fieldMask) = nextCount c := by
  apply UInt16.toNat_inj.mp
  rw [toNat_nextCount, toNat_nextCount, toNat_and_fieldMask]
  omega

theorem PrbsFields.word_ofValue (v : UInt16) : (ofValue v).word = v := value_ofValue v

/-- Fields that fit each other and carry the next value are the fields of the next value. -/
theorem breaksOff_some_iff {before now : PrbsFields} :
    breaksOff (some before) now = true ↔
      now ≠ .ofValue (Prbs.ofState before.word).next.state := by
  unfold breaksOff
  rw [Option.any_some, Bool.or_eq_true, bne_iff_ne, bne_iff_ne]
  generalize (Prbs.ofState before.word).next.state = v
  refine ⟨fun hwrong hnow => ?_, fun hne => ?_⟩
  · rw [hnow, PrbsFields.word_ofValue] at hwrong
    exact hwrong.elim (fun h => h rfl) fun h => h rfl
  · by_contra hright
    obtain ⟨hfit, hvalue⟩ := not_or.mp hright
    rw [Decidable.not_not] at hfit hvalue
    rw [hvalue] at hne
    exact hne hfit.symm

theorem SelfTest.firstSlot_succ (slot : Nat) : firstSlot (slot + 1) = !firstSlot slot := by
  unfold firstSlot
  rcases Nat.mod_two_eq_zero_or_one slot with h | h
  · simp [h, Nat.add_mod]
  · simp [h, Nat.add_mod]

/-! ### Streams -/

section Streams

variable (words : Nat → LinkWord) (start : Nat)

/-- The sample of a cycle, if words are sent in slots that take turns from a slot on. -/
def slotted (k : Nat) : LinkSample := .framed (words k) (SelfTest.firstSlot (start + k))

/-- From its second sample on, a stream is one whose slots begin one later. -/
theorem slotted_succ (k : Nat) :
    slotted words start (k + 1) = slotted (fun i => words (i + 1)) (start + 1) k := by
  unfold slotted
  rw [Nat.add_right_comm, Nat.add_assoc]

def samplesBefore (n : Nat) : List LinkSample := (List.range n).map (slotted words start)

theorem samplesBefore_succ (n : Nat) :
    samplesBefore words start (n + 1) = samplesBefore words start n ++ [slotted words start n] := by
  unfold samplesBefore
  rw [List.range_succ, List.map_append]
  rfl

theorem getLast?_samplesBefore (n : Nat) :
    (samplesBefore words start (n + 1)).getLast? = some (slotted words start n) := by
  rw [samplesBefore_succ, List.getLast?_concat]

/-- Whether the sample of a cycle is a mismatch. -/
def faulty (m : PatternMode) (k : Nat) : Bool :=
  mismatched m (samplesBefore words start k) (slotted words start k)

theorem isFirst_slotted (k : Nat) :
    (slotted words start k).isFirst = SelfTest.firstSlot (start + k) := by
  show (SelfTest.firstSlot (start + k) == true) = _
  exact beq_true _

theorem completes_slotted (k : Nat) :
    completes (some (slotted words start k)) (slotted words start (k + 1)) =
      if SelfTest.firstSlot (start + k) then some (PatternMode.symbol .prbs words k) else none := by
  unfold completes
  rw [isFirst_slotted, ← Nat.add_assoc, SelfTest.firstSlot_succ, Option.filter_some,
    isFirst_slotted]
  cases SelfTest.firstSlot (start + k) <;> rfl

/-- The words that are complete, by the cycle that completes the last one. -/
theorem prbsWords_samplesBefore (k : Nat) :
    prbsWords (samplesBefore words start (k + 2)) =
      prbsWords (samplesBefore words start (k + 1)) ++
        if SelfTest.firstSlot (start + k) then [PatternMode.symbol .prbs words k] else [] := by
  rw [samplesBefore_succ, prbsWords_concat, getLast?_samplesBefore, completes_slotted]
  cases SelfTest.firstSlot (start + k) <;> rfl

theorem prbsWords_samplesBefore_one : prbsWords (samplesBefore words start 1) = [] := by
  show (completes none (slotted words start 0)).toList = []
  unfold completes
  split <;> rfl

theorem faulty_prbs_zero : faulty words start .prbs 0 = false := by
  show (completes none (slotted words start 0)).any _ = false
  unfold completes
  split <;> rfl

theorem faulty_prbs_succ (k : Nat) :
    faulty words start .prbs (k + 1) =
      (SelfTest.firstSlot (start + k) &&
        breaksOff (prbsWords (samplesBefore words start (k + 1))).getLast?
          (PatternMode.symbol .prbs words k)) := by
  show (completes (samplesBefore words start (k + 1)).getLast? _).any _ = _
  rw [getLast?_samplesBefore, completes_slotted]
  cases SelfTest.firstSlot (start + k) <;> rfl

variable {words start} {m : PatternMode}

theorem exists_symbol_of_faulty {i : Nat} (h : faulty words start m i = true) :
    ∃ k, m.symbolBegins (start + k) = true ∧ m.symbolEnd k = i := by
  cases m with
  | count => exact ⟨i, rfl, rfl⟩
  | prbs =>
    cases i with
    | zero => rw [faulty_prbs_zero] at h; exact nomatch h
    | succ k =>
      rw [faulty_prbs_succ, Bool.and_eq_true] at h
      exact ⟨k, h.1, rfl⟩

theorem symbolBegins_next {k : Nat} (h : m.symbolBegins (start + k) = true) :
    m.symbolBegins (start + (m.symbolEnd k + 1)) = true := by
  cases m with
  | count => rfl
  | prbs =>
    show SelfTest.firstSlot (start + k + 1 + 1) = true
    rw [SelfTest.firstSlot_succ, SelfTest.firstSlot_succ, Bool.not_not]
    exact h

/-- A symbol behind another is wrong unless it is the successor. -/
theorem faulty_next {k : Nat} (h : m.symbolBegins (start + k) = true) :
    faulty words start m (m.symbolEnd (m.symbolEnd k + 1)) = true ↔
      m.symbol words (m.symbolEnd k + 1) ≠ m.successor (m.symbol words k) := by
  cases m with
  | count =>
    show miscounts (samplesBefore words start (k + 1)).getLast? _ = true ↔ _
    rw [getLast?_samplesBefore]
    exact bne_iff_ne
  | prbs =>
    have hfirst : SelfTest.firstSlot (start + k) = true := h
    have hsecond : SelfTest.firstSlot (start + (k + 1)) = false := by
      rw [← Nat.add_assoc, SelfTest.firstSlot_succ, hfirst]
      rfl
    have hnext : SelfTest.firstSlot (start + (k + 2)) = true := symbolBegins_next h
    have hlast : (prbsWords (samplesBefore words start (k + 3))).getLast? =
        some (PatternMode.symbol .prbs words k) := by
      rw [prbsWords_samplesBefore, prbsWords_samplesBefore, hsecond, hfirst]
      simp
    show faulty words start .prbs (k + 2 + 1) = true ↔ _
    rw [faulty_prbs_succ, hnext, hlast, Bool.true_and]
    exact breaksOff_some_iff

/-- Before the first symbol there is at most the second half of another, and it leaves no trace. -/
theorem faulty_first {k : Nat} (h : m.symbolBegins (start + k) = true)
    (hnone : ∀ p, ¬m.Precedes start p k) :
    faulty words start m (m.symbolEnd k) = !m.opens (m.symbol words k) := by
  cases m with
  | count =>
    cases k with
    | zero => rfl
    | succ p => exact absurd ⟨rfl, rfl⟩ (hnone p)
  | prbs =>
    have hfirst : SelfTest.firstSlot (start + k) = true := h
    have hempty : prbsWords (samplesBefore words start (k + 1)) = [] := by
      match k with
      | 0 => exact prbsWords_samplesBefore_one words start
      | 1 =>
        have hsecond : SelfTest.firstSlot (start + 0) = false := by
          rw [← Bool.not_eq_true', ← SelfTest.firstSlot_succ]
          exact hfirst
        rw [prbsWords_samplesBefore, hsecond, prbsWords_samplesBefore_one]
        rfl
      | p + 2 =>
        refine absurd ⟨?_, rfl⟩ (hnone p)
        show SelfTest.firstSlot (start + p) = true
        rw [← Bool.not_not (SelfTest.firstSlot _), ← SelfTest.firstSlot_succ,
          ← SelfTest.firstSlot_succ]
        exact hfirst
    show faulty words start .prbs (k + 1) = _
    rw [faulty_prbs_succ, hempty, hfirst]
    exact Bool.or_false _

theorem mismatches_samplesBefore (m : PatternMode) (n : Nat) :
    mismatches m (samplesBefore words start n) =
      Nat.count (fun k => faulty words start m k = true) n := by
  induction n with
  | zero => cases m <;> rfl
  | succ n ih =>
    rw [samplesBefore_succ, mismatches_concat, ih, Nat.count_succ]
    show _ + (faulty words start m n).toNat = _
    cases faulty words start m n <;> rfl

end Streams

/-! ### A checker that watches -/

namespace Checker

theorem tick_of_starting {c : Checker} (h : c.enabled = false) (m : PatternMode)
    (sample : Option LinkSample) : c.tick true m sample = { enabled := true } := by
  unfold tick ready
  rw [h]
  rfl

theorem tick_of_running {c : Checker} (h : c.enabled = true) (m : PatternMode) (s : LinkSample) :
    c.tick true m (some s) =
      { enabled := true
        errors := if (c.memory.check m s).2 then c.errors + 1 else c.errors
        memory := (c.memory.check m s).1 } := by
  unfold tick ready
  rw [h]
  rfl

/-- A checker with its enable set that takes a sample in each cycle. -/
def watch (c : Checker) (m : PatternMode) (samples : Nat → LinkSample) : Nat → Checker
  | 0 => c
  | n + 1 => (c.watch m samples n).tick true m (some (samples n))

theorem counted_watch (m : PatternMode) (samples : Nat → LinkSample) (n : Nat) :
    Counted m ((List.range n).map samples) (watch { enabled := true } m samples n) ∧
      (watch { enabled := true } m samples n).enabled = true := by
  induction n with
  | zero => exact ⟨counted_nil m, rfl⟩
  | succ n ih =>
    obtain ⟨hcounted, henabled⟩ := ih
    rw [watch, tick_of_running henabled, List.range_succ, List.map_append]
    exact ⟨hcounted.check (samples n), rfl⟩

section Errors

variable {m : PatternMode} {words : Nat → LinkWord} {start n : Nat}

/-- The error count is the number of faulty samples. -/
theorem errors_watch :
    (watch { enabled := true } m (slotted words start) n).errors =
      UInt32.ofNat (Nat.count (fun k => faulty words start m k = true) n) := by
  rw [(counted_watch m _ n).1.errors_eq, ← mismatches_samplesBefore]
  rfl

theorem errors_watch_succ :
    (watch { enabled := true } m (slotted words start) (n + 1)).errors =
      (watch { enabled := true } m (slotted words start) n).errors +
        if faulty words start m n = true then 1 else 0 := by
  rw [errors_watch, errors_watch, Nat.count_succ, UInt32.ofNat_add]
  split <;> rfl

theorem toNat_errors_watch (hn : n < 2 ^ 32) :
    (watch { enabled := true } m (slotted words start) n).errors.toNat =
      Nat.count (fun k => faulty words start m k = true) n := by
  rw [errors_watch]
  exact UInt32.toNat_ofNat_of_lt' (Nat.lt_of_le_of_lt (Nat.count_le _) hn)

end Errors

end Checker
end LinkBridge
