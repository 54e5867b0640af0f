import LinkBridge.Proofs.Sample.Word
import LinkBridge.Sample.Width

/-!
The halves of a word of slices.

The rotation puts slices 1 and 2 into the first half and slices 3 and 0 into the second one, each
whole.  A mask that leaves every slice alone therefore leaves the word alone.
-/

namespace LinkBridge

theorem LinkWord.toUInt64_packed (w : LinkWord) :
    w.packed.toUInt64 = w.phase0.toUInt64 ||| (w.phase1.toUInt64 <<< 16) := by
  apply UInt64.toBitVec_inj.mp
  ext i hi
  simp [packed, -UInt32.toUInt64_or, -UInt32.toUInt64_shiftLeft]
  grind

namespace SampleWord

variable (a b c d : UInt16)

theorem split_ofSlices : (ofSlices a b c d).split = (⟨b, c⟩, ⟨d, a⟩) := by
  have hbits : ∀ {x y : UInt16}, x.toBitVec = y.toBitVec → x = y := UInt16.toBitVec_inj.mp
  simp only [split, rotateRight, ofSlices, LinkWord.ofPacked, Prod.mk.injEq, LinkWord.mk.injEq]
  refine ⟨⟨hbits ?_, hbits ?_⟩, hbits ?_, hbits ?_⟩ <;> ext i hi <;> simp
  · grind
  · grind
  · grind
  · grind

theorem join_halves : join ⟨b, c⟩ ⟨d, a⟩ = ofSlices a b c d := by
  unfold join rotateRight ofSlices
  rw [LinkWord.toUInt64_packed, LinkWord.toUInt64_packed]
  congr 1
  apply UInt64.toBitVec_inj.mp
  ext i hi
  simp
  grind

end SampleWord
end LinkBridge
