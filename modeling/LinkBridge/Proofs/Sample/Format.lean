import LinkBridge.Proofs.Sample.Width

/-!
Words as rows of fields.

As bits, a sample word is its four slices in a row and a link word its two fields, the highest
first (`SampleWord.toBitVec_ofSlices`, `LinkWord.toBitVec_packed`).  So a mask works on each slice
apart, and splitting and joining only move slices (`SampleWord.split_eq`).

Masking both halves of a sample word is therefore masking the word itself.  The mask lies on it as
`join` lays two halves: doubled, and rotated left by sixteen bits (`SampleWord.wideMask`).
-/

namespace LinkBridge

theorem toBitVec_rotateRight (x : UInt64) {count : UInt64} (hpos : 0 < count.toNat)
    (hlt : count.toNat < 64) :
    (rotateRight x count).toBitVec = x.toBitVec.rotateRight count.toNat := by
  rw [rotateRight, BitVec.rotateRight_def, UInt64.toBitVec_or, UInt64.toBitVec_shiftRight,
    UInt64.toBitVec_shiftLeft, BitVec.ushiftRight_eq', BitVec.shiftLeft_eq']
  congr 2
  simp [BitVec.toNat_umod]
  omega

namespace SampleWord

section Slices

variable (a b c d : UInt16)

theorem toBitVec_ofSlices :
    (ofSlices a b c d).bits.toBitVec = d.toBitVec ++ c.toBitVec ++ b.toBitVec ++ a.toBitVec := by
  apply BitVec.eq_of_getLsbD_eq
  intro i hi
  rw [BitVec.getLsbD_append, BitVec.getLsbD_append, BitVec.getLsbD_append]
  simp [ofSlices]
  grind

theorem getLsbD_ofSlices (i : Nat) :
    (ofSlices a b c d).bits.toBitVec.getLsbD i =
      if i < 16 then a.toBitVec.getLsbD i
      else if i - 16 < 16 then b.toBitVec.getLsbD (i - 16)
      else if i - 16 - 16 < 16 then c.toBitVec.getLsbD (i - 16 - 16)
      else d.toBitVec.getLsbD (i - 16 - 16 - 16) := by
  rw [toBitVec_ofSlices, BitVec.getLsbD_append, BitVec.getLsbD_append, BitVec.getLsbD_append]

theorem toBitVec_slice (w : SampleWord) (index : Nat) :
    (w.slice index).toBitVec = w.bits.toBitVec.extractLsb' (16 * (index % 4)) 16 := by
  ext i hi
  have hlt : index % 4 < 4 := Nat.mod_lt _ (by decide)
  simp [slice]
  grind

theorem slices_ofSlices : (ofSlices a b c d).slices = [a, b, c, d] := by
  simp only [slices, List.cons.injEq, and_true]
  refine ⟨?_, ?_, ?_, ?_⟩
  all_goals
    apply UInt16.toBitVec_inj.mp
    rw [toBitVec_slice]
    ext i hi
    rw [BitVec.getElem_extractLsb', getLsbD_ofSlices]
    grind

theorem ofSlices_slice (w : SampleWord) :
    ofSlices (w.slice 0) (w.slice 1) (w.slice 2) (w.slice 3) = w := by
  have hbits : (ofSlices (w.slice 0) (w.slice 1) (w.slice 2) (w.slice 3)).bits.toBitVec =
      w.bits.toBitVec := by
    apply BitVec.eq_of_getLsbD_eq
    intro i hi
    rw [getLsbD_ofSlices]
    simp [toBitVec_slice]
    grind
  exact congrArg SampleWord.mk (UInt64.toBitVec_inj.mp hbits)

theorem ofSlices_and (a' b' c' d' : UInt16) :
    ofSlices (a &&& a') (b &&& b') (c &&& c') (d &&& d') =
      ⟨(ofSlices a b c d).bits &&& (ofSlices a' b' c' d').bits⟩ := by
  refine congrArg SampleWord.mk (UInt64.toBitVec_inj.mp ?_)
  rw [UInt64.toBitVec_and, toBitVec_ofSlices, toBitVec_ofSlices, BitVec.and_append,
    BitVec.and_append, BitVec.and_append]
  exact toBitVec_ofSlices _ _ _ _

end Slices

/-- The first half carries slices 1 and 2, the second one slices 3 and 0. -/
theorem split_eq (w : SampleWord) :
    w.split = (⟨w.slice 1, w.slice 2⟩, ⟨w.slice 3, w.slice 0⟩) := by
  have hsplit := split_ofSlices (w.slice 0) (w.slice 1) (w.slice 2) (w.slice 3)
  rwa [ofSlices_slice] at hsplit

theorem join_split (w : SampleWord) : join w.split.1 w.split.2 = w := by
  rw [split_eq, join_halves, ofSlices_slice]

theorem split_join (first second : LinkWord) : (join first second).split = (first, second) := by
  obtain ⟨b, c⟩ := first
  obtain ⟨d, a⟩ := second
  rw [join_halves, split_ofSlices]

section Masks

variable (mask : UInt32)

/-- A mask of link words as it lies on the sample word that they carry: doubled, and rotated left
by sixteen bits. -/
def wideMask : UInt64 := .ofBitVec ((mask.toBitVec ++ mask.toBitVec).rotateLeft 16)

theorem bits_join_self : (join (.ofPacked mask) (.ofPacked mask)).bits = wideMask mask := by
  have hdoubled : (mask.toUInt64 ||| (mask.toUInt64 <<< 32)).toBitVec =
      mask.toBitVec ++ mask.toBitVec := by
    ext i hi
    simp
    grind
  apply UInt64.toBitVec_inj.mp
  unfold wideMask join
  rw [LinkWord.packed_ofPacked, toBitVec_rotateRight _ (by decide) (by decide), hdoubled,
    BitVec.rotateLeft_def, BitVec.rotateRight_def, BitVec.or_comm]
  rfl

/-- On the sample word the fields of a mask come in turn, phase 1 lowest. -/
theorem wideMask_eq :
    wideMask mask = (ofSlices (LinkWord.ofPacked mask).phase1 (LinkWord.ofPacked mask).phase0
      (LinkWord.ofPacked mask).phase1 (LinkWord.ofPacked mask).phase0).bits := by
  rw [← bits_join_self, ← join_halves]

example : wideMask 0x0000ffff = 0xffff0000ffff0000 := by decide

theorem join_masked (w : SampleWord) :
    join (w.split.1.masked mask) (w.split.2.masked mask) = ⟨w.bits &&& wideMask mask⟩ := by
  rw [split_eq, LinkWord.masked_eq, LinkWord.masked_eq, join_halves, ofSlices_and, ofSlices_slice,
    wideMask_eq]

end Masks

/-- Words change their format without loss.  Halves, slices and packed bits each say the whole
word; the halves have its slices, phase by phase, in the order 1, 2, 3, 0; and a mask on both
halves is one mask on the word. -/
theorem formats_lossless :
    (∀ w : SampleWord, join w.split.1 w.split.2 = w) ∧
    (∀ first second : LinkWord, (join first second).split = (first, second)) ∧
    (∀ w : SampleWord, ∃ a b c d, w.slices = [a, b, c, d] ∧ ofSlices a b c d = w) ∧
    (∀ a b c d, (ofSlices a b c d).slices = [a, b, c, d]) ∧
    (∀ bits, (LinkWord.ofPacked bits).packed = bits) ∧
    (∀ h : LinkWord, LinkWord.ofPacked h.packed = h) ∧
    (∀ w : SampleWord, w.split = (⟨w.slice 1, w.slice 2⟩, ⟨w.slice 3, w.slice 0⟩)) ∧
    ∀ (w : SampleWord) mask,
      join (w.split.1.masked mask) (w.split.2.masked mask) = ⟨w.bits &&& wideMask mask⟩ :=
  ⟨join_split, split_join, fun w => ⟨_, _, _, _, rfl, ofSlices_slice w⟩, slices_ofSlices,
    LinkWord.packed_ofPacked, LinkWord.ofPacked_packed, split_eq, fun w mask => join_masked mask w⟩

end SampleWord
end LinkBridge
