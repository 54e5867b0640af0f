import LinkBridge.Pattern.Prbs
import Mathlib.Data.Nat.Basic

/-!
Link words and their masks.

The packed form of a link word is a number in base `2 ^ 16` with the fields as digits, so packing
and unpacking undo each other, and masks compose.  A native word has nothing outside the twelve bits
of each field; a mask that keeps those bits leaves it alone.
-/

namespace LinkBridge.LinkWord

theorem toNat_packed (w : LinkWord) :
    w.packed.toNat = w.phase0.toNat + 65536 * w.phase1.toNat := by
  obtain ⟨a, b⟩ := w
  have ha : a.toNat < 2 ^ 16 := a.toNat_lt
  have hb : b.toNat < 2 ^ 16 := b.toNat_lt
  have hshift : (b.toNat <<< 16) % 2 ^ 32 = b.toNat <<< 16 := by
    rw [Nat.shiftLeft_eq]
    omega
  simp only [packed, UInt32.toNat_or, UInt32.toNat_shiftLeft, UInt16.toNat_toUInt32,
    UInt32.reduceToNat, Nat.reduceMod, hshift]
  rw [Nat.or_comm, ← Nat.shiftLeft_add_eq_or_of_lt ha, Nat.shiftLeft_eq]
  omega

theorem packed_ofPacked (bits : UInt32) : (ofPacked bits).packed = bits := by
  have hbits : bits.toNat < 2 ^ 32 := bits.toNat_lt
  apply UInt32.toNat_inj.mp
  rw [toNat_packed]
  simp only [ofPacked, UInt32.toNat_toUInt16, UInt32.toNat_shiftRight, UInt32.reduceToNat,
    Nat.reduceMod, Nat.shiftRight_eq_div_pow]
  omega

theorem ofPacked_packed (w : LinkWord) : ofPacked w.packed = w := by
  obtain ⟨a, b⟩ := w
  have ha : a.toNat < 2 ^ 16 := a.toNat_lt
  have hb : b.toNat < 2 ^ 16 := b.toNat_lt
  have hpacked := toNat_packed ⟨a, b⟩
  simp only at hpacked
  unfold ofPacked
  congr 1
  · apply UInt16.toNat_inj.mp
    rw [UInt32.toNat_toUInt16, hpacked]
    omega
  · apply UInt16.toNat_inj.mp
    simp only [UInt32.toNat_toUInt16, UInt32.toNat_shiftRight, UInt32.reduceToNat, Nat.reduceMod,
      Nat.shiftRight_eq_div_pow, hpacked]
    omega

theorem masked_masked (w : LinkWord) (m n : UInt32) :
    (w.masked m).masked n = w.masked (m &&& n) := by
  unfold masked
  rw [packed_ofPacked, UInt32.and_assoc]

theorem toBitVec_packed (w : LinkWord) :
    w.packed.toBitVec = w.phase1.toBitVec ++ w.phase0.toBitVec := by
  ext i hi
  simp [packed]
  grind

/-- A mask works on each field apart. -/
theorem masked_eq (w : LinkWord) (mask : UInt32) :
    w.masked mask =
      ⟨w.phase0 &&& (ofPacked mask).phase0, w.phase1 &&& (ofPacked mask).phase1⟩ := by
  have hmask : mask.toBitVec =
      (ofPacked mask).phase1.toBitVec ++ (ofPacked mask).phase0.toBitVec := by
    rw [← toBitVec_packed, packed_ofPacked]
  have hpacked : w.packed &&& mask =
      packed ⟨w.phase0 &&& (ofPacked mask).phase0, w.phase1 &&& (ofPacked mask).phase1⟩ := by
    apply UInt32.toBitVec_inj.mp
    rw [UInt32.toBitVec_and, toBitVec_packed, toBitVec_packed, hmask, BitVec.and_append]
    rfl
  rw [masked, hpacked, ofPacked_packed]

theorem masked_nativeMask (w : LinkWord) :
    w.masked nativeMask = ⟨w.phase0 &&& fieldMask, w.phase1 &&& fieldMask⟩ :=
  masked_eq w nativeMask

/-- Nothing outside the bits that the transceiver carries. -/
def Native (w : LinkWord) : Prop := w.masked nativeMask = w

theorem native_of_fields {a b : UInt16} (ha : a &&& fieldMask = a) (hb : b &&& fieldMask = b) :
    Native ⟨a, b⟩ := by
  unfold Native
  rw [masked_nativeMask, ha, hb]

theorem Native.masked {w : LinkWord} (h : w.Native) {mask : UInt32}
    (hmask : mask &&& nativeMask = nativeMask) : w.masked mask = w := by
  unfold Native at h
  rw [← h, masked_masked, UInt32.and_comm, hmask]

end LinkBridge.LinkWord
