import LinkBridge.Register.Fields
import Mathlib.Data.Nat.Bitwise

/-!
Fields and the bits of a register.

A register decoded and encoded again keeps the bits of its fields and no others.  A field of one bit
keeps the bit at its index, a tap the five bits at its offset, and the masks of a register's fields
add up.  The other way round nothing is lost (`PatternControl.ofBits_bits`, `DelayReg.ofBits_bits`).
-/

namespace LinkBridge

theorem testBit_bitIf (b : Bool) {index : UInt32} (h : index < 32) (i : Nat) :
    (bitIf b index).toNat.testBit i = (b && decide (index.toNat = i)) := by
  have hlt : index.toNat < 32 := UInt32.lt_iff_toNat_lt.mp h
  have hpow : 2 ^ index.toNat < 2 ^ 32 := Nat.pow_lt_pow_right (by decide) hlt
  have hshift : (bitIf b index).toNat = b.toUInt32.toNat <<< index.toNat % 2 ^ 32 := by
    rw [bitIf, UInt32.toNat_shiftLeft, Nat.mod_eq_of_lt hlt]
  cases b with
  | false =>
    rw [hshift, Bool.false_and]
    show (0 <<< index.toNat % 2 ^ 32).testBit i = false
    rw [Nat.zero_shiftLeft, Nat.zero_mod, Nat.zero_testBit]
  | true =>
    rw [hshift, Bool.true_and]
    show (1 <<< index.toNat % 2 ^ 32).testBit i = decide (index.toNat = i)
    rw [Nat.one_shiftLeft, Nat.mod_eq_of_lt hpow, Nat.testBit_two_pow]

theorem bitAt_eq (bits : UInt32) {index : UInt32} (h : index < 32) :
    bitAt bits index = bits.toNat.testBit index.toNat := by
  have hlt : index.toNat < 32 := UInt32.lt_iff_toNat_lt.mp h
  have hzero : bitAt bits index = (((bits >>> index) &&& 1).toNat != 0) := by
    rw [bitAt, Bool.eq_iff_iff, bne_iff_ne, bne_iff_ne, ne_eq, ne_eq, ← UInt32.toNat_inj]
    rfl
  rw [hzero, UInt32.toNat_and, UInt32.toNat_shiftRight, Nat.mod_eq_of_lt hlt, Nat.and_comm]
  rfl

/-- A field of one bit keeps that bit. -/
theorem bitIf_bitAt (bits : UInt32) {index : UInt32} (h : index < 32) :
    bitIf (bitAt bits index) index = bits &&& bitIf true index := by
  apply UInt32.toNat_inj.mp
  apply Nat.eq_of_testBit_eq
  intro i
  rw [UInt32.toNat_and, Nat.testBit_and, testBit_bitIf _ h, testBit_bitIf _ h, bitAt_eq bits h,
    Bool.true_and]
  by_cases hi : index.toNat = i
  · rw [hi]
  · simp [hi]

theorem and_or_and (bits a b : UInt32) : bits &&& a ||| bits &&& b = bits &&& (a ||| b) := by
  apply UInt32.toBitVec_inj.mp
  ext i hi
  simp [Bool.and_or_distrib_left]

theorem ControlReg.bits_ofBits (bits : UInt32) :
    (ControlReg.ofBits bits).bits = bits &&& 0x00010303 := by
  simp only [ControlReg.bits, ControlReg.ofBits]
  rw [bitIf_bitAt bits (by decide), bitIf_bitAt bits (by decide), bitIf_bitAt bits (by decide),
    bitIf_bitAt bits (by decide), bitIf_bitAt bits (by decide), and_or_and, and_or_and, and_or_and,
    and_or_and]
  rfl

theorem PatternControl.bits_ofBits (bits : UInt32) :
    (PatternControl.ofBits bits).bits = bits &&& 0x3 := by
  have hmode : ((PatternControl.ofBits bits).mode == .prbs) = bitAt bits 1 := by
    show ((if bitAt bits 1 then PatternMode.prbs else .count) == .prbs) = _
    cases bitAt bits 1 <;> rfl
  rw [PatternControl.bits, hmode]
  show bitIf (bitAt bits 0) 0 ||| _ = _
  rw [bitIf_bitAt bits (by decide), bitIf_bitAt bits (by decide), and_or_and]
  rfl

theorem PatternControl.ofBits_bits (c : PatternControl) : PatternControl.ofBits c.bits = c := by
  obtain ⟨enable, mode⟩ := c
  cases enable <;> cases mode <;> decide

theorem DelayTap.toNat_bits (t : DelayTap) : t.bits.toNat = t.value := by
  have hlt : t.value < 32 := t.index.isLt
  rw [bits, UInt32.toNat_ofNat', Nat.mod_eq_of_lt (by omega)]

theorem DelayTap.bits_ofField (bits : UInt32) :
    (DelayTap.ofField bits).bits = bits &&& 0x1f := by
  apply UInt32.toNat_inj.mp
  rw [toNat_bits, UInt32.toNat_and]
  exact (Nat.and_two_pow_sub_one_eq_mod bits.toNat 5).symm

theorem DelayReg.bits_ofBits (bits : UInt32) :
    (DelayReg.ofBits bits).bits = bits &&& 0x00001f1f := by
  have hhigh : (bits >>> 8 &&& 0x1f) <<< 8 = bits &&& 0x1f00 := by
    have hmask : (0x1f : UInt32) <<< 8 = 0x1f00 := by decide
    have hlow : ∀ i : Fin 8, (0x1f00#32)[i.val] = false := by decide
    rw [UInt32.shiftLeft_and, hmask]
    apply UInt32.toBitVec_inj.mp
    ext i hi
    by_cases h : i < 8
    · simp [hlow ⟨i, h⟩]
    · have hindex : 8 + (i - 8) = i := by omega
      simp [h, hindex, hi]
  rw [DelayReg.bits, DelayReg.ofBits, DelayTap.bits_ofField, DelayTap.bits_ofField, hhigh,
    and_or_and]
  rfl

theorem DelayReg.ofBits_bits (r : DelayReg) : DelayReg.ofBits r.bits = r := by
  have hall : ∀ i j : Fin 32, DelayReg.ofBits (DelayReg.bits ⟨⟨i⟩, ⟨j⟩⟩) = ⟨⟨i⟩, ⟨j⟩⟩ := by
    decide +kernel
  exact hall r.tx.index r.rx.index

/-- The transmit tap stands in the five lowest bits, the receive tap eight bits further up. -/
theorem DelayReg.toNat_bits (r : DelayReg) :
    r.bits.toNat = r.tx.value + 2 ^ 8 * r.rx.value := by
  have htx : r.tx.value < 32 := r.tx.index.isLt
  have hrx : r.rx.value < 32 := r.rx.index.isLt
  rw [bits, UInt32.toNat_or, UInt32.toNat_shiftLeft, DelayTap.toNat_bits, DelayTap.toNat_bits]
  show r.tx.value ||| r.rx.value <<< 8 % 2 ^ 32 = _
  rw [Nat.shiftLeft_eq, Nat.mod_eq_of_lt (by omega), Nat.or_comm, Nat.mul_comm,
    ← Nat.two_pow_add_eq_or_of_lt (by omega), Nat.add_comm]

end LinkBridge
