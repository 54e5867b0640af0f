import LinkBridge.Proofs.Bridge.Session
import LinkBridge.Proofs.Register.Fields

/-!
The registers as software sees them.

An access is by address.  One without a register fails and changes nothing, and neither does a write
to a register that is only read.  A register that is written reads as the fields of what was written
and leaves what the others read alone; the latch changes what the cycle count reads.  In every state
that a bridge comes to, the delay register says which taps are applied.
-/

namespace LinkBridge

namespace Register

/-- The bits of a register that keep what is written to it. -/
def fieldBits : Register → UInt32
  | .control => 0x00010303
  | .delay => 0x00001f1f
  | .txPattern | .rxPattern => 0x3
  | .status | .rxErrors | .cyclesLatch | .cycles => 0

theorem ofAddress_of_unmapped {address : UInt32} (h : ∀ r : Register, r.address ≠ address) :
    ofAddress address = .error ⟨address⟩ := by
  have hnone : all.find? (fun r => r.address = address) = none := by
    rw [List.find?_eq_none]
    intro r _
    simpa using h r
  rw [ofAddress, hnone]

end Register

namespace Bridge

variable {b after : Bridge} (r : Register) (value : UInt32)

/-- What an address reads is what its register holds, if it has one. -/
theorem read_congr {address : UInt32}
    (h : ∀ r : Register, r.address = address → after.readRegister r = b.readRegister r) :
    after.read address = b.read address := by
  unfold read
  cases haddress : Register.ofAddress address with
  | error e => rfl
  | ok r => exact congrArg Except.ok (h r (Register.eq_address_of_ofAddress haddress).symm)

theorem writeRegister_of_readOnly (h : r.access = .readOnly) : b.writeRegister r value = b := by
  cases r with
  | status => rfl
  | rxErrors => rfl
  | cycles => rfl
  | _ => exact nomatch h

theorem readRegister_written (h : r.access = .readWrite) :
    (b.writeRegister r value).readRegister r = value &&& r.fieldBits := by
  cases r with
  | control => exact ControlReg.bits_ofBits value
  | delay => exact DelayReg.bits_ofBits value
  | txPattern => exact PatternControl.bits_ofBits value
  | rxPattern => exact PatternControl.bits_ofBits value
  | _ => exact nomatch h

/-- A write shows in its own register only, or in the cycle count if it is to the latch. -/
theorem readRegister_other {other : Register} (hother : other ≠ r)
    (hlatch : r = .cyclesLatch → other ≠ .cycles) :
    (b.writeRegister r value).readRegister other = b.readRegister other := by
  cases r with
  | control =>
    cases other with
    | control => exact absurd rfl hother
    | _ => rfl
  | delay =>
    cases other with
    | delay => exact absurd rfl hother
    | _ => rfl
  | txPattern =>
    cases other with
    | txPattern => exact absurd rfl hother
    | _ => rfl
  | rxPattern =>
    cases other with
    | rxPattern => exact absurd rfl hother
    | _ => rfl
  | cyclesLatch =>
    cases other with
    | cycles => exact absurd rfl (hlatch rfl)
    | _ => rfl
  | _ => rfl

/-- The delay register says what is applied. -/
def Applied (b : Bridge) : Prop := b.control.delay = ⟨b.taps.1, b.taps.2⟩

theorem Applied.writeRegister (h : b.Applied) : (b.writeRegister r value).Applied := by
  cases r with
  | delay => rfl
  | _ => exact h

theorem Applied.toNat_bits (h : b.Applied) :
    b.control.delay.bits.toNat = b.taps.1.value + 2 ^ 8 * b.taps.2.value := by
  rw [h]
  exact DelayReg.toNat_bits _

end Bridge

namespace Session

theorem applied_step {s : Session} (h : s.bridge.Applied) (o : Operation) :
    (s.step o).bridge.Applied := by
  cases o with
  | write address value =>
    rcases s.step_write address value with hstep | ⟨r, -, hstep⟩
    · rw [hstep]
      exact h
    · rw [hstep]
      exact h.writeRegister r value
  | _ => exact h

theorem applied_run {s : Session} (h : s.bridge.Applied) (ops : List Operation) :
    (s.run ops).bridge.Applied :=
  Trace.final_invariant (P := fun s : Session => s.bridge.Applied)
    (fun _ o hs _ => applied_step hs o) h (Trace.along_true s ops)

/-- What accesses to a bridge read and change. -/
structure RegisterLaws (s : Session) : Prop where
  unmapped : ∀ address value, (∀ r : Register, r.address ≠ address) →
    s.bridge.read address = .error ⟨address⟩ ∧ s.bridge.write address value = .error ⟨address⟩ ∧
      s.step (.read address) = s ∧ s.step (.write address value) = s
  readOnly : ∀ (r : Register) value, r.access = .readOnly →
    s.bridge.write r.address value = .ok s.bridge
  readWrite : ∀ (r : Register) value, r.access = .readWrite → ∃ after,
    s.bridge.write r.address value = .ok after ∧
      after.read r.address = .ok (value &&& r.fieldBits) ∧
      ∀ other, other ≠ r.address → after.read other = s.bridge.read other
  latch : ∀ value, ∃ after, s.bridge.write Register.cyclesLatch.address value = .ok after ∧
    ∀ other, other ≠ Register.cycles.address → after.read other = s.bridge.read other
  delay : ∃ bits, s.bridge.read Register.delay.address = .ok bits ∧
    bits.toNat = s.bridge.taps.1.value + 2 ^ 8 * s.bridge.taps.2.value

theorem unmapped_access (s : Session) {address : UInt32} (value : UInt32)
    (h : ∀ r : Register, r.address ≠ address) :
    s.bridge.read address = .error ⟨address⟩ ∧ s.bridge.write address value = .error ⟨address⟩ ∧
      s.step (.read address) = s ∧ s.step (.write address value) = s := by
  have hwrite : s.bridge.write address value = .error ⟨address⟩ := by
    rw [Bridge.write, Register.ofAddress_of_unmapped h]
    rfl
  refine ⟨?_, hwrite, rfl, ?_⟩
  · rw [Bridge.read, Register.ofAddress_of_unmapped h]
    rfl
  · rw [step, hwrite]

/-- The registers of a bridge obey their laws in every state that it comes to. -/
theorem registers_obey_laws {p : BridgeParams} {b : Bridge} (hb : Bridge.new p = .ok b)
    (t : Transport) (ops : List Operation) : (run ⟨b, t⟩ ops).RegisterLaws := by
  have happlied : (run ⟨b, t⟩ ops).bridge.Applied := by
    refine applied_run ?_ ops
    obtain rfl := Bridge.eq_ofParams hb
    rfl
  generalize run ⟨b, t⟩ ops = s at happlied ⊢
  constructor
  case unmapped => exact fun address value h => s.unmapped_access value h
  case readOnly =>
    intro r value hr
    rw [Bridge.write_address, Bridge.writeRegister_of_readOnly r value hr]
  case readWrite =>
    intro r value hr
    refine ⟨_, s.bridge.write_address r value, ?_, fun other hother => ?_⟩
    · rw [Bridge.read_address, Bridge.readRegister_written r value hr]
    · refine Bridge.read_congr fun u hu => Bridge.readRegister_other r value ?_ ?_
      · rintro rfl
        exact hother hu.symm
      · rintro rfl
        exact nomatch hr
  case latch =>
    intro value
    refine ⟨_, s.bridge.write_address .cyclesLatch value, fun other hother => ?_⟩
    refine Bridge.read_congr fun u hu => ?_
    by_cases hlatch : u = .cyclesLatch
    · rw [hlatch]
      rfl
    · refine Bridge.readRegister_other .cyclesLatch value hlatch fun _ => ?_
      rintro rfl
      exact hother hu.symm
  case delay => exact ⟨_, s.bridge.read_address .delay, happlied.toNat_bits⟩

/-- A write beyond the fields of the taps. -/
theorem registers_obey_laws_after_delay_write :
    let s := run ⟨Bridge.ofParams {}, {}⟩ [.write Register.delay.address 0xffff2a3f, .control]
    Bridge.new {} = .ok (Bridge.ofParams {}) ∧
      s.bridge.read Register.delay.address = .ok 0x0a1f ∧ s.RegisterLaws :=
  ⟨rfl, rfl, registers_obey_laws (p := {}) rfl {} _⟩

end Session
end LinkBridge
