import LinkBridge.Proofs.Pattern.Symbols

/-!
Where a self-test counts its errors.

The symbols that a generator makes are each the successor of the one before (`symbol_words_next`),
and bits flipped on the way change a symbol just if the checker looks at them
(`symbol_flipped_eq_iff`).  So a symbol between good ones is counted exactly if it is corrupted, and
one corrupted symbol costs two errors at most, its own and that of the symbol behind it
(`errors_localised`).
-/

namespace LinkBridge

/-! ### Flipped bits -/

namespace LinkWord

def flipped (w : LinkWord) (flips : UInt32) : LinkWord := .ofPacked (w.packed ^^^ flips)

theorem flipped_zero (w : LinkWord) : w.flipped 0 = w := by
  unfold flipped
  rw [UInt32.xor_zero, ofPacked_packed]

theorem fields_eq_iff {v w : LinkWord} :
    v.fields = w.fields ↔ v.packed &&& nativeMask = w.packed &&& nativeMask := by
  have hmasked : ∀ u : LinkWord, ofPacked (u.packed &&& nativeMask) = ⟨u.fields.1, u.fields.2⟩ :=
    masked_nativeMask
  constructor
  · intro h
    rw [← packed_ofPacked (v.packed &&& nativeMask), hmasked, h, ← hmasked, packed_ofPacked]
  · intro h
    have hwords : (⟨v.fields.1, v.fields.2⟩ : LinkWord) = ⟨w.fields.1, w.fields.2⟩ := by
      rw [← hmasked, h, hmasked]
    exact Prod.ext (congrArg phase0 hwords) (congrArg phase1 hwords)

/-- Flips change the fields of a word just if they touch the bits that the transceiver carries. -/
theorem fields_flipped_eq_iff {w : LinkWord} {flips : UInt32} :
    (w.flipped flips).fields = w.fields ↔ flips &&& nativeMask = 0 := by
  have hand : (w.packed ^^^ flips) &&& nativeMask =
      (w.packed &&& nativeMask) ^^^ (flips &&& nativeMask) := by
    apply UInt32.toBitVec_inj.mp
    ext i hi
    simp [Bool.and_xor_distrib_right]
  rw [fields_eq_iff, flipped, packed_ofPacked, hand]
  constructor
  · intro h
    exact (UInt32.xor_right_inj (w.packed &&& nativeMask)).mp (h.trans UInt32.xor_zero.symm)
  · intro h
    rw [h, UInt32.xor_zero]

end LinkWord

/-- Whether flips touch the fields of a symbol that begins in a cycle. -/
def PatternMode.corrupted : PatternMode → (Nat → UInt32) → Nat → Bool
  | .count, flips, k => flips k &&& nativeMask != 0
  | .prbs, flips, k => flips k &&& nativeMask != 0 || flips (k + 1) &&& nativeMask != 0

theorem PatternMode.le_symbolEnd (m : PatternMode) (k : Nat) : k ≤ m.symbolEnd k := by
  cases m with
  | count => exact Nat.le_refl k
  | prbs => exact Nat.le_succ k

/-- Some word of a corrupted symbol is hit. -/
theorem exists_flips {m : PatternMode} {flips : Nat → UInt32} {k : Nat}
    (h : m.corrupted flips k = true) : ∃ j, j ≤ m.symbolEnd k ∧ flips j &&& nativeMask ≠ 0 := by
  cases m with
  | count => exact ⟨k, Nat.le_refl k, bne_iff_ne.mp h⟩
  | prbs =>
    rcases Bool.or_eq_true_iff.mp h with hfirst | hsecond
    · exact ⟨k, Nat.le_succ k, bne_iff_ne.mp hfirst⟩
    · exact ⟨k + 1, Nat.le_refl _, bne_iff_ne.mp hsecond⟩

theorem symbol_flipped_eq_iff (m : PatternMode) {words : Nat → LinkWord} {flips : Nat → UInt32}
    {k : Nat} :
    m.symbol (fun i => (words i).flipped (flips i)) k = m.symbol words k ↔
      m.corrupted flips k = false := by
  cases m with
  | count => exact LinkWord.fields_flipped_eq_iff.trans bne_eq_false_iff_eq.symm
  | prbs =>
    have hhalves : ∀ a b c d : LinkWord, PrbsFields.ofHalves a b = PrbsFields.ofHalves c d ↔
        a.fields = c.fields ∧ b.fields = d.fields := by
      intro a b c d
      simp only [PrbsFields.ofHalves, PrbsFields.mk.injEq, Prod.ext_iff, and_assoc]
    show PrbsFields.ofHalves _ _ = PrbsFields.ofHalves _ _ ↔ (_ || _) = false
    rw [hhalves, Bool.or_eq_false_iff, bne_eq_false_iff_eq, bne_eq_false_iff_eq,
      LinkWord.fields_flipped_eq_iff, LinkWord.fields_flipped_eq_iff]

/-! ### The generator's symbols -/

namespace Generator

/-- An enabled generator after some cycles, whose slots take turns from a slot on. -/
def after (g : Generator) (m : PatternMode) (start : Nat) : Nat → Generator
  | 0 => g
  | n + 1 => ((g.after m start n).tick true m (SelfTest.firstSlot (start + n))).1

def words (g : Generator) (m : PatternMode) (start k : Nat) : LinkWord :=
  ((g.after m start k).tick true m (SelfTest.firstSlot (start + k))).2.getD default

variable (g : Generator) {m : PatternMode} {start k : Nat}

theorem words_of_first (h : SelfTest.firstSlot (start + k) = true) :
    let f := PrbsFields.ofValue (g.after .prbs start k).prbs.next.state
    g.words .prbs start k = ⟨f.ai, f.aq⟩ := by
  rw [words, h]
  rfl

theorem words_of_second (h : SelfTest.firstSlot (start + k) = false) :
    let f := PrbsFields.ofValue (g.after .prbs start k).word
    g.words .prbs start k = ⟨f.bi, f.bq⟩ := by
  rw [words, h]
  rfl

/-- A first slot draws a value, and the slot behind it sends the rest of it. -/
theorem symbol_words_prbs (h : SelfTest.firstSlot (start + k) = true) :
    PatternMode.symbol .prbs (g.words .prbs start) k =
        .ofValue (g.after .prbs start k).prbs.next.state ∧
      (g.after .prbs start (k + 2)).prbs = (g.after .prbs start k).prbs.next := by
  have hsecond : SelfTest.firstSlot (start + (k + 1)) = false := by
    rw [← Nat.add_assoc, SelfTest.firstSlot_succ, h]
    rfl
  have hnext : g.after .prbs start (k + 1) =
      { g.after .prbs start k with
        prbs := (g.after .prbs start k).prbs.next
        word := (g.after .prbs start k).prbs.next.state } := by
    rw [after, h]
    rfl
  have hafter : g.after .prbs start (k + 2) = g.after .prbs start (k + 1) := by
    rw [after, hsecond]
    rfl
  obtain ⟨hai, haq, hbi, hbq⟩ :=
    PrbsFields.masked_ofValue (g.after .prbs start k).prbs.next.state
  constructor
  · simp only [PatternMode.symbol, PrbsFields.ofHalves, LinkWord.fields, g.words_of_first h,
      g.words_of_second hsecond, hnext, hai, haq, hbi, hbq]
  · rw [hafter, hnext]

theorem symbol_words_next (h : m.symbolBegins (start + k) = true) :
    m.symbol (g.words m start) (m.symbolEnd k + 1) =
      m.successor (m.symbol (g.words m start) k) := by
  cases m with
  | count =>
    have hnext : ∀ c, nextCount c &&& fieldMask = nextCount (c &&& fieldMask) := fun c => by
      rw [nextCount_masked]
      exact and_fieldMask_idem _
    exact Prod.ext (hnext _) (hnext _)
  | prbs =>
    obtain ⟨hsymbol, hprbs⟩ := g.symbol_words_prbs h
    obtain ⟨hnext, -⟩ := g.symbol_words_prbs (k := k + 2) (symbolBegins_next h)
    show PatternMode.symbol .prbs _ (k + 2) = PrbsFields.ofValue _
    rw [hnext, hprbs, hsymbol]
    show _ = PrbsFields.ofValue (Prbs.ofState (PrbsFields.word (.ofValue _))).next.state
    rw [PrbsFields.word_ofValue, Prbs.ofState_next]

theorem opens_symbol_words (h : m.symbolBegins (start + k) = true) :
    m.opens (m.symbol (g.words m start) k) = true := by
  cases m with
  | count => rfl
  | prbs =>
    rw [(g.symbol_words_prbs h).1]
    show (PrbsFields.ofValue (PrbsFields.word _) == _) = true
    rw [PrbsFields.word_ofValue]
    exact beq_self_eq_true _

end Generator

/-! ### Faults behind the generator -/

section Corruption

variable (g : Generator) (m : PatternMode) (flips : Nat → UInt32) (start : Nat)

/-- The words of the generator, with flips on the way. -/
def corruptedWords (k : Nat) : LinkWord := (g.words m start k).flipped (flips k)

variable {g m flips start}

theorem corrupted_of_faulty {i : Nat}
    (h : faulty (corruptedWords g m flips start) start m i = true) :
    ∃ k, m.symbolBegins (start + k) = true ∧ m.symbolEnd k = i ∧
      (m.corrupted flips k = true ∨ ∃ p, m.Precedes start p k ∧ m.corrupted flips p = true) := by
  obtain ⟨k, hk, rfl⟩ := exists_symbol_of_faulty h
  refine ⟨k, hk, rfl, ?_⟩
  by_contra hclean
  obtain ⟨hnow, hbefore⟩ := not_or.mp hclean
  have hsymbol : m.symbol (corruptedWords g m flips start) k = m.symbol (g.words m start) k :=
    (symbol_flipped_eq_iff m).mpr (Bool.eq_false_iff.mpr hnow)
  by_cases hp : ∃ p, m.Precedes start p k
  · obtain ⟨p, hbegins, rfl⟩ := hp
    have hprevious : m.symbol (corruptedWords g m flips start) p = m.symbol (g.words m start) p :=
      (symbol_flipped_eq_iff m).mpr
        (Bool.eq_false_iff.mpr fun hp => hbefore ⟨p, ⟨hbegins, rfl⟩, hp⟩)
    refine (faulty_next hbegins).mp h ?_
    rw [hsymbol, hprevious, g.symbol_words_next hbegins]
  · rw [faulty_first hk (not_exists.mp hp), hsymbol,
      g.opens_symbol_words hk] at h
    exact nomatch h

theorem faulty_of_corrupted {p k : Nat} (hp : m.Precedes start p k)
    (hclean : m.corrupted flips p = false) (hk : m.corrupted flips k = true) :
    faulty (corruptedWords g m flips start) start m (m.symbolEnd k) = true := by
  obtain ⟨hbegins, rfl⟩ := hp
  have hprevious : m.symbol (corruptedWords g m flips start) p = m.symbol (g.words m start) p :=
    (symbol_flipped_eq_iff m).mpr hclean
  refine (faulty_next hbegins).mpr fun hsymbol => ?_
  rw [hprevious, ← g.symbol_words_next hbegins] at hsymbol
  have hintact := (symbol_flipped_eq_iff m).mp hsymbol
  rw [hk] at hintact
  exact nomatch hintact

/-- A faulty sample ends a corrupted symbol or the symbol behind one. -/
theorem count_faulty_le (n : Nat) :
    Nat.count (fun k => faulty (corruptedWords g m flips start) start m k = true) n ≤
      2 * Nat.count (fun k => m.symbolBegins (start + k) = true ∧ m.symbolEnd k < n ∧
        m.corrupted flips k = true) n := by
  rw [Nat.count_eq_card_filter_range, Nat.count_eq_card_filter_range]
  generalize hbad : (Finset.range n).filter (fun k => m.symbolBegins (start + k) = true ∧
    m.symbolEnd k < n ∧ m.corrupted flips k = true) = bad
  let ends := bad.image m.symbolEnd
  let nextEnds := bad.image fun p => m.symbolEnd (m.symbolEnd p + 1)
  have hsubset : ((Finset.range n).filter fun k =>
      faulty (corruptedWords g m flips start) start m k = true) ⊆ ends ∪ nextEnds := by
    intro i hi
    obtain ⟨hi, hfaulty⟩ := Finset.mem_filter.mp hi
    have hlt := Finset.mem_range.mp hi
    have hmem : ∀ k, m.symbolBegins (start + k) = true → m.symbolEnd k < n →
        m.corrupted flips k = true → k ∈ bad := by
      intro k hbegins hend hcorrupted
      rw [← hbad]
      have hin : k ∈ Finset.range n :=
        Finset.mem_range.mpr (Nat.lt_of_le_of_lt (m.le_symbolEnd k) hend)
      exact Finset.mem_filter.mpr ⟨hin, hbegins, hend, hcorrupted⟩
    obtain ⟨k, hbegins, rfl, hnow | ⟨p, ⟨hp, rfl⟩, hbefore⟩⟩ := corrupted_of_faulty hfaulty
    · exact Finset.mem_union_left _ (Finset.mem_image.mpr ⟨k, hmem k hbegins hlt hnow, rfl⟩)
    · have hend := m.le_symbolEnd (m.symbolEnd p + 1)
      exact Finset.mem_union_right _
        (Finset.mem_image.mpr ⟨p, hmem p hp (by omega) hbefore, rfl⟩)
  calc _ ≤ (ends ∪ nextEnds).card := Finset.card_le_card hsubset
    _ ≤ ends.card + nextEnds.card := Finset.card_union_le _ _
    _ ≤ bad.card + bad.card := Nat.add_le_add Finset.card_image_le Finset.card_image_le
    _ = 2 * bad.card := (Nat.two_mul _).symm

end Corruption

/-! ### The test -/

namespace SelfTest

/-- The test after some cycles, whose slots take turns from a slot on. -/
def after (t : SelfTest) (generated checked : PatternMode) (flips : Nat → UInt32) (start : Nat) :
    Nat → SelfTest
  | 0 => t
  | n + 1 => (t.after generated checked flips start n).cycle generated checked (start + n) (flips n)

/-- A checker with its enable set takes the generator's word with its flips. -/
theorem cycle_of_enabled {t : SelfTest} (h : t.checker.enabled = true)
    (generated checked : PatternMode) (slot : Nat) (flips : UInt32) :
    t.cycle generated checked slot flips =
      ⟨(t.generator.tick true generated (firstSlot slot)).1,
        t.checker.tick true checked (some (.framed
          (((t.generator.tick true generated (firstSlot slot)).2.getD default).flipped flips)
          (firstSlot slot)))⟩ := by
  have hready : t.checker.ready true = true := h
  unfold cycle
  rw [hready]
  cases generated with
  | count => rfl
  | prbs => cases firstSlot slot <;> rfl

/-- From when its enable is set, the checker watches the generator's words with their flips. -/
theorem after_eq (g : Generator) {c : Checker} (hc : c.enabled = false) (m₀ : PatternMode)
    (s₀ : Option LinkSample) (generated checked : PatternMode) (flips : Nat → UInt32)
    (start n : Nat) :
    after ⟨g, c.tick true m₀ s₀⟩ generated checked flips start n =
      ⟨g.after generated start n, Checker.watch { enabled := true } checked
        (slotted (corruptedWords g generated flips start) start) n⟩ := by
  rw [Checker.tick_of_starting hc]
  induction n with
  | zero => rfl
  | succ n ih => rw [after, ih, cycle_of_enabled (Checker.counted_watch checked _ n).2]; rfl

/-- Errors are counted only at the end of a corrupted symbol or of the symbol behind one.  Behind a
symbol that is not corrupted, a corrupted one is always counted.  So there are no errors without
corruption, and at most two for each corrupted symbol. -/
theorem errors_localised (g : Generator) {c : Checker} (hc : c.enabled = false)
    (m₀ : PatternMode) (s₀ : Option LinkSample) (m : PatternMode) (flips : Nat → UInt32)
    (start : Nat) :
    let test : SelfTest := ⟨g, c.tick true m₀ s₀⟩
    let errors (n : Nat) : UInt32 := (test.after m m flips start n).checker.errors
    let corrupted (k : Nat) : Prop := m.corrupted flips k = true
    (∀ i, errors (i + 1) = errors i ∨ errors (i + 1) = errors i + 1 ∧
      ∃ k, m.symbolBegins (start + k) = true ∧ m.symbolEnd k = i ∧
        (corrupted k ∨ ∃ p, m.Precedes start p k ∧ corrupted p)) ∧
    (∀ p k, m.Precedes start p k → ¬corrupted p → corrupted k →
      errors (m.symbolEnd k + 1) = errors (m.symbolEnd k) + 1) ∧
    (∀ n, (∀ i < n, flips i &&& nativeMask = 0) → errors n = 0) ∧
    ∀ n < 2 ^ 32, (errors n).toNat ≤ 2 * Nat.count (fun k =>
      m.symbolBegins (start + k) = true ∧ m.symbolEnd k < n ∧ m.corrupted flips k = true) n := by
  intro test errors corrupted
  have herrors : ∀ n, errors n = (Checker.watch { enabled := true } m
      (slotted (corruptedWords g m flips start) start) n).errors := fun n =>
    congrArg (fun t : SelfTest => t.checker.errors) (after_eq g hc m₀ s₀ m m flips start n)
  simp only [herrors]
  refine ⟨fun i => ?_, fun p k hp hclean hk => ?_, fun n hclean => ?_, fun n hn => ?_⟩
  · rw [Checker.errors_watch_succ]
    split
    · exact .inr ⟨rfl, corrupted_of_faulty ‹_›⟩
    · exact .inl (UInt32.add_zero _)
  · rw [Checker.errors_watch_succ,
      if_pos (faulty_of_corrupted hp (Bool.eq_false_iff.mpr hclean) hk)]
  · rw [Checker.errors_watch, Nat.count_of_forall_not fun i hi hfaulty => ?_]
    · rfl
    · obtain ⟨k, -, hend, hnow | ⟨p, ⟨-, hp⟩, hbefore⟩⟩ := corrupted_of_faulty hfaulty
      · obtain ⟨j, hj, hflips⟩ := exists_flips hnow
        exact hflips (hclean j (by omega))
      · obtain ⟨j, hj, hflips⟩ := exists_flips hbefore
        have hle := m.le_symbolEnd k
        exact hflips (hclean j (by omega))
  · rw [Checker.toNat_errors_watch hn]
    exact count_faulty_le n

/-- In the pseudo-random pattern, from a second slot on: one flip that counts, and one that the
transceiver does not carry. -/
theorem errors_localised_from_second_slot :
    let g : Generator := { word := 0x1234 }
    let c : Checker := { errors := 5, memory := { firstHalf := some ⟨1, 2⟩ } }
    let flips (k : Nat) : UInt32 := if k = 4 then 0x10000 else if k = 7 then 0x1000 else 0
    let test : SelfTest := ⟨g, c.tick true .count (some default)⟩
    let errors (n : Nat) : UInt32 := (test.after .prbs .prbs flips 1 n).checker.errors
    c.enabled = false ∧ PatternMode.Precedes .prbs 1 1 3 ∧
      PatternMode.corrupted .prbs flips 1 = false ∧ PatternMode.corrupted .prbs flips 3 = true ∧
      errors 5 = errors 4 + 1 ∧ (errors 9).toNat ≤ 2 := by
  intro g c flips test errors
  have hprecedes : PatternMode.Precedes .prbs 1 1 3 := ⟨by decide, rfl⟩
  have hclean : PatternMode.corrupted .prbs flips 1 = false := by decide
  have hcorrupted : PatternMode.corrupted .prbs flips 3 = true := by decide
  have hcount : Nat.count (fun k => PatternMode.prbs.symbolBegins (1 + k) = true ∧
      PatternMode.prbs.symbolEnd k < 9 ∧ PatternMode.prbs.corrupted flips k = true) 9 = 1 := by
    decide
  obtain ⟨-, hcounted, -, hbound⟩ :=
    errors_localised g (c := c) rfl .count (some default) .prbs flips 1
  refine ⟨rfl, hprecedes, hclean, hcorrupted, ?_, ?_⟩
  · exact hcounted 1 3 hprecedes (Bool.eq_false_iff.mp hclean) hcorrupted
  · have hnine := hbound 9 (by decide)
    rw [hcount] at hnine
    exact hnine

end SelfTest
end LinkBridge
