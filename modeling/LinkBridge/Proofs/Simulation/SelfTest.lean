import LinkBridge.Proofs.Bridge.SelfTest
import LinkBridge.Proofs.Simulation.Session

/-!
The self-test in a simulation.

As long as no edge has run, all crossings hold their reset values, so it does not matter in which
order the loopback bit and the two pattern controls are written.  From there on neither the
transceiver nor the schedule can disturb the test: in every link cycle the bridge still waits with
the checker off, or it checks its own samples.
-/

namespace LinkBridge

namespace Simulation

variable {s : Simulation} {m : PatternMode} {a : Action}

/-- Whatever is written to the control register keeps the loopback bit, and whatever is written to
a pattern control asks for the same pattern. -/
def Action.KeepsSelfTest (m : PatternMode) : Action → Prop
  | .write address value =>
    (address = Register.control.address → (ControlReg.ofBits value).loopback = true) ∧
      (address = Register.txPattern.address → PatternControl.ofBits value = ⟨true, m⟩) ∧
      (address = Register.rxPattern.address → PatternControl.ofBits value = ⟨true, m⟩)
  | _ => True

instance (m : PatternMode) : DecidablePred (Action.KeepsSelfTest m)
  | .write _ _ => inferInstanceAs (Decidable (_ ∧ _ ∧ _))
  | .step | .run _ | .runCycles _ | .read _ | .send _ | .take | .halt _ | .attach | .finish =>
    inferInstanceAs (Decidable True)

theorem untouched_session {p : BridgeParams} (h : s.bridge.Untouched p) {setup : List Action}
    (hsetup : ∀ a ∈ setup, a.runs = false) : (s.session setup).bridge.Untouched p := by
  have hstep : ∀ (u : Simulation) (a : Action), u.bridge.Untouched p → a.runs = false →
      (u.act a).bridge.Untouched p := by
    intro u a hu ha
    rw [act_of_not_runs ha]
    rcases u.bridge_conclude u.now a with hsame | ⟨r, value, -, hwrite⟩
    · rw [hsame]
      exact hu
    · rw [hwrite]
      exact hu.writeRegister r value
  exact Trace.final_invariant hstep h (Trace.along_of_forall s fun a ha _ => hsetup a ha)

theorem inSelfTest_step (h : s.bridge.InSelfTest m) : s.step.bridge.InSelfTest m :=
  step_keeps (P := fun b _ _ => b.InSelfTest m) s h (h.tickControl s.transport)
    fun _ => h.tickLink s.exchange.2

theorem inSelfTest_conclude (start : Time) (h : s.bridge.InSelfTest m) (ha : a.KeepsSelfTest m) :
    (s.conclude start a).bridge.InSelfTest m := by
  rcases s.bridge_conclude start a with hsame | ⟨r, value, rfl, hwrite⟩
  · rw [hsame]
    exact h
  · obtain ⟨hcontrol, htx, hrx⟩ := ha
    rw [hwrite]
    refine h.writeRegister ?_ ?_ ?_
    · exact fun hr => hcontrol (congrArg _ hr)
    · exact fun hr => htx (congrArg _ hr)
    · exact fun hr => hrx (congrArg _ hr)

theorem inSelfTest_session (h : s.bridge.InSelfTest m) {actions : List Action}
    (hkeep : ∀ a ∈ actions, a.KeepsSelfTest m) : (s.session actions).bridge.InSelfTest m :=
  session_invariant (P := fun u => u.bridge.InSelfTest m) (A := fun _ => True)
    (fun _ hu _ => inSelfTest_step hu) (fun _ start _ hu ha => inSelfTest_conclude start hu ha) h
    (Trace.along_of_forall s fun a ha _ => ⟨hkeep a ha, fun _ _ => trivial⟩)

/-- Once loopback and both patterns are asked for before the first edge, the test finds no errors:
not by what the transceiver sends, which taps are chosen, when the link clock stops, or how the
clocks meet. -/
theorem self_test_clean {p : SimulationParams} {t : Transport}
    (hs : Simulation.new p t = .ok s)
    (hmask : p.bridge.loopbackMask &&& nativeMask = nativeMask) {setup actions : List Action}
    (hsetup : ∀ a ∈ setup, a.runs = false) (hrequested : (s.session setup).bridge.Requested m)
    (hkeep : ∀ a ∈ actions, a.KeepsSelfTest m) :
    let last := s.session (setup ++ actions)
    last.bridge.linkErrors = 0 ∧ last.bridge.read Register.rxErrors.address = .ok 0 := by
  intro last
  obtain ⟨controlPeriod, linkPeriod, -, -, -, hnew⟩ := eq_of_new hs
  have huntouched : (s.session setup).bridge.Untouched p.bridge := by
    refine untouched_session ?_ hsetup
    rw [hnew]
    exact ⟨rfl, rfl, rfl⟩
  have hlast : last.bridge.InSelfTest m := by
    have hsplit : last = (s.session setup).session actions := Trace.final_append s setup actions
    rw [hsplit]
    exact inSelfTest_session (.start hmask huntouched hrequested) hkeep
  refine ⟨hlast.errors_eq, ?_⟩
  show Except.ok last.bridge.control.errors = _
  rw [hlast.seen_eq]

/-- The taps move out of both eyes and the link clock stops for a while. -/
theorem self_test_clean_outside_eyes :
    let p : SimulationParams := { transceiver := { phaseInverted := true } }
    let start := onDefaultClocks p.bridge p.transceiver {}
    let setup : List Action :=
      [.write Register.rxPattern.address 3, .write Register.control.address 0x10300,
        .write Register.txPattern.address 3]
    let actions : List Action :=
      [.runCycles 40, .write Register.delay.address 0x1f00, .runCycles 40, .halt true, .step, .step,
        .halt false, .write Register.control.address 0x10000, .run (.upTo 1000000000)]
    Simulation.new p {} = .ok start ∧ p.bridge.loopbackMask &&& nativeMask = nativeMask ∧
      (∀ a ∈ setup, a.runs = false) ∧ (start.session setup).bridge.Requested .prbs ∧
      (∀ a ∈ actions, a.KeepsSelfTest .prbs) ∧
      let last := start.session (setup ++ actions)
      last.bridge.linkErrors = 0 ∧ last.bridge.read Register.rxErrors.address = .ok 0 := by
  intro p start setup actions
  have hnew : Simulation.new p {} = .ok start := new_onDefaultClocks rfl _ _
  have hmask : p.bridge.loopbackMask &&& nativeMask = nativeMask := by decide
  have hsetup : ∀ a ∈ setup, a.runs = false := by decide
  have hrequested : (start.session setup).bridge.Requested .prbs :=
    ⟨by decide +kernel, by decide +kernel, by decide +kernel⟩
  have hkeep : ∀ a ∈ actions, a.KeepsSelfTest .prbs := by decide
  exact ⟨hnew, hmask, hsetup, hrequested, hkeep,
    self_test_clean hnew hmask hsetup hrequested hkeep⟩

/-- A mask that drops a bit is found out. -/
example :
    let start := onDefaultClocks { loopbackMask := 0x0ffe0fff } {} {}
    let actions : List Action :=
      [.write Register.control.address 0x10300, .write Register.txPattern.address 3,
        .write Register.rxPattern.address 3, .runCycles 40]
    (start.session actions).bridge.linkErrors = 6 := by
  decide +kernel

end Simulation
end LinkBridge
