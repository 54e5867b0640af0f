import LinkBridge.Proofs.Simulation.ClosedLoop
import LinkBridge.Proofs.Simulation.Standing

/-!
A simulation that is scanned.

Before its first edge a scan asks for one pattern on both ways and then only moves the taps.  So once
the enables have crossed, each link cycle with both taps in their eyes is a cycle in closed loop
(`Scanning.closedLoop`).  `Sighted` follows such cycles one after the other: the checker locks, its
count stands still (`Sighted.linkErrors_passed`), and if the control cycles that go by leave the time
for all this and for a handshake, the register shows the count that stands (`errors_eq`).
-/

namespace LinkBridge.Simulation

open Crossing

variable {p : SimulationParams} {m : PatternMode} {s : Simulation} {base n : Nat}
  {controlPeriod linkPeriod phase : Time}

/-- The registers that the scan leaves alone have their values since before the first edge, with the
pattern asked for on both ways. -/
structure Scanning (p : SimulationParams) (m : PatternMode) (s : Simulation) : Prop where
  fits : Fits p.transceiver s.linkState
  halted_eq : s.halted = false
  control_eq : s.bridge.control.control = {}
  polarity_eq : s.bridge.control.polarity = p.bridge.polarity
  loopback : Setting.loopback.Stands p.bridge.syncStages false s
  txPattern : Setting.txPattern.Stands p.bridge.syncStages ⟨true, m⟩ s
  rxPattern : Setting.rxPattern.Stands p.bridge.syncStages ⟨true, m⟩ s
  shown : s.Shown p.bridge.syncStages

/-- What only the owner of a simulation changes. -/
theorem control_step (s : Simulation) :
    s.step.bridge.control.control = s.bridge.control.control ∧
      s.step.bridge.control.polarity = s.bridge.control.polarity ∧
      s.step.bridge.taps = s.bridge.taps ∧ s.step.halted = s.halted := by
  cases hdue : s.schedule.due with
  | control =>
    obtain ⟨r, hr⟩ := step_control hdue
    rw [hr]
    exact ⟨rfl, rfl, rfl, rfl⟩
  | link =>
    obtain ⟨r, hr⟩ := step_link hdue
    rw [hr]
    cases s.runsLink <;> exact ⟨rfl, rfl, rfl, rfl⟩

theorem fits_step_of_any {q : TransceiverParams} (h : Fits q s.linkState) :
    Fits q s.step.linkState := by
  cases hruns : s.runsLink with
  | true => exact fits_step hruns h
  | false =>
    rw [linkState_step_of_idle hruns]
    exact h

namespace Scanning

theorem step (h : Scanning p m s) : Scanning p m s.step := by
  obtain ⟨hcontrol, hpolarity, -, hhalted⟩ := s.control_step
  exact {
    fits := fits_step_of_any h.fits
    halted_eq := hhalted.trans h.halted_eq
    control_eq := hcontrol.trans h.control_eq
    polarity_eq := hpolarity.trans h.polarity_eq
    loopback := h.loopback.step
    txPattern := h.txPattern.step
    rxPattern := h.rxPattern.step
    shown := h.shown.step }

theorem writeDelay (h : Scanning p m s) (value : UInt32) :
    Scanning p m (s.writeRegister .delay value) where
  fits := h.fits
  halted_eq := h.halted_eq
  control_eq := h.control_eq
  polarity_eq := h.polarity_eq
  loopback := h.loopback.writeRegister (by decide) value
  txPattern := h.txPattern.writeRegister (by decide) value
  rxPattern := h.rxPattern.writeRegister (by decide) value
  shown := h.shown.writeRegister .delay value

theorem atTime (h : Scanning p m s) (now : Time) : Scanning p m { s with now } where
  fits := h.fits
  halted_eq := h.halted_eq
  control_eq := h.control_eq
  polarity_eq := h.polarity_eq
  loopback := h.loopback.atTime now
  txPattern := h.txPattern.atTime now
  rxPattern := h.rxPattern.atTime now
  shown := h.shown.atTime now

/-- With one polarity on both sides the transceiver sees what the control register says. -/
theorem clocked (h : Scanning p m s) (hpolarity : p.transceiver.polarity = p.bridge.polarity) :
    s.clocked = true := by
  have hparams : s.transceiver.params = p.transceiver := h.fits.params_eq
  unfold Simulation.clocked Transceiver.clockRunning Bridge.pins
  simp only [h.halted_eq, hparams, hpolarity, h.polarity_eq, h.control_eq,
    Polarity.asserted_level]
  rfl

theorem closedLoop (h : Scanning p m s)
    (hpolarity : p.transceiver.polarity = p.bridge.polarity)
    (htx : p.transceiver.txEye.contains s.bridge.taps.1 = true)
    (hrx : p.transceiver.rxEye.contains s.bridge.taps.2 = true) (hdue : s.schedule.due = .link)
    (hcycles : p.bridge.syncStages ≤ s.linkCycles + 1) : s.ClosedLoop m := by
  have hparams : s.transceiver.params = p.transceiver := h.fits.params_eq
  have hloopback : s.bridge.linkControls.loopback = false := h.loopback.inForce hdue hcycles
  have htxPattern : s.bridge.linkControls.tx = ⟨true, m⟩ := h.txPattern.inForce hdue hcycles
  have hrxPattern : s.bridge.linkControls.rx = ⟨true, m⟩ := h.rxPattern.inForce hdue hcycles
  refine ⟨?_, ?_, ?_, ?_, ?_⟩
  · show LinkControls.mk _ s.bridge.linkControls.tx s.bridge.linkControls.rx = _
    rw [htxPattern, hrxPattern]
    exact congrArg (LinkControls.mk · _ _) hloopback
  · unfold Bridge.pins
    simp only [hparams, hpolarity, h.polarity_eq, h.control_eq, Polarity.asserted_level]
  · unfold Bridge.pins
    simp only [hparams, hpolarity, h.polarity_eq, h.control_eq, Polarity.asserted_level]
  · rw [hparams]
    exact htx
  · rw [hparams]
    exact hrx

end Scanning

/-- Since a number of link cycles the enables have crossed and both taps lie in their eyes. -/
structure Sighted (p : SimulationParams) (m : PatternMode) (base : Nat) (s : Simulation) : Prop
    extends Scanning p m s where
  mode_eq : p.transceiver.mode = .loopback
  polarity_same : p.transceiver.polarity = p.bridge.polarity
  txEye : p.transceiver.txEye.contains s.bridge.taps.1 = true
  rxEye : p.transceiver.rxEye.contains s.bridge.taps.2 = true
  crossed : p.bridge.syncStages ≤ base + 1
  locking : base < s.linkCycles →
    Locking m p.transceiver (s.linkCycles - (base + 1)) s.linkState

namespace Sighted

theorem start (h : Scanning p m s) (hmode : p.transceiver.mode = .loopback)
    (hpolarity : p.transceiver.polarity = p.bridge.polarity)
    (htx : p.transceiver.txEye.contains s.bridge.taps.1 = true)
    (hrx : p.transceiver.rxEye.contains s.bridge.taps.2 = true) :
    Sighted p m (s.linkCycles + p.bridge.syncStages) s where
  toScanning := h
  mode_eq := hmode
  polarity_same := hpolarity
  txEye := htx
  rxEye := hrx
  crossed := by omega
  locking := fun hlt => by omega

theorem closedLoop (h : Sighted p m base s) (hdue : s.schedule.due = .link)
    (hbase : base ≤ s.linkCycles) : s.ClosedLoop m :=
  h.toScanning.closedLoop h.polarity_same h.txEye h.rxEye hdue
    (Nat.le_trans h.crossed (Nat.succ_le_succ hbase))

theorem step (h : Sighted p m base s) : Sighted p m base s.step := by
  obtain ⟨-, -, htaps, -⟩ := s.control_step
  refine ⟨h.toScanning.step, h.mode_eq, h.polarity_same, ?_, ?_, h.crossed, ?_⟩
  · rw [htaps]
    exact h.txEye
  · rw [htaps]
    exact h.rxEye
  · rw [linkCycles_step]
    cases hruns : s.runsLink with
    | false =>
      rw [linkState_step_of_idle hruns]
      exact h.locking
    | true =>
      rw [if_pos rfl]
      intro hlt
      have hloop := h.closedLoop (due_of_runsLink hruns) (Nat.le_of_lt_succ hlt)
      by_cases hfirst : base < s.linkCycles
      · obtain ⟨hnext, -⟩ := locking_step hloop hruns h.mode_eq (h.locking hfirst)
        rw [← Nat.sub_add_comm hfirst] at hnext
        exact hnext
      · have hzero : s.linkCycles + 1 - (base + 1) = 0 := by omega
        rw [hzero]
        exact locking_start hloop hruns h.toScanning.fits h.mode_eq

theorem steps (h : Sighted p m base s) (n : Nat) : Sighted p m base (s.steps n) :=
  (forall_passed (P := Sighted p m base) (fun _ hu => hu.step) h n).2

/-- After the cycles that the way through the transceiver takes, and a few more, the count of the
checker stands still. -/
theorem linkErrors_step (h : Sighted p m base s)
    (hlate : base + p.transceiver.latency + 5 ≤ s.linkCycles) :
    s.step.bridge.linkErrors = s.bridge.linkErrors := by
  cases hruns : s.runsLink with
  | true =>
    have hloop := h.closedLoop (due_of_runsLink hruns) (by omega)
    exact (locking_step hloop hruns h.mode_eq (h.locking (by omega))).2 (by omega)
  | false => exact congrArg (fun x => x.1.checker.errors) (linkState_step_of_idle hruns)

theorem linkErrors_passed (h : Sighted p m base s)
    (hlate : base + p.transceiver.latency + 5 ≤ s.linkCycles) (n : Nat) :
    ∀ u ∈ s.passed n, u.step.bridge.linkErrors = s.bridge.linkErrors := by
  have hall := (forall_passed (n := n)
    (P := fun u => Sighted p m base u ∧ base + p.transceiver.latency + 5 ≤ u.linkCycles ∧
      u.bridge.linkErrors = s.bridge.linkErrors)
    (fun u hu => by
      obtain ⟨hsighted, hmore, hsame⟩ := hu
      refine ⟨hsighted.step, ?_, (hsighted.linkErrors_step hmore).trans hsame⟩
      rw [linkCycles_step]
      split <;> omega) ⟨h, hlate, rfl⟩).1
  intro u hu
  obtain ⟨hsighted, hmore, hsame⟩ := hall u hu
  exact (hsighted.linkErrors_step hmore).trans hsame

end Sighted

/-! ### The time to lock -/

/-- The time in which the enables cross, the checker locks and the error count is handed over, at
most: link cycles on the way through the transceiver and the chains, and control cycles for the
handshake. -/
def lockTime (p : SimulationParams) (controlPeriod linkPeriod : Time) : Nat :=
  p.linkPhase.fs + (p.transceiver.latency + 2 * p.bridge.syncStages + 7) * linkPeriod.fs +
    (2 * p.bridge.syncStages + 2) * controlPeriod.fs

section Lock

variable (h : Sighted p m (s.linkCycles + p.bridge.syncStages) s)
  (hpaced : Paced controlPeriod linkPeriod p.linkPhase s)
  (hperiods : 0 < controlPeriod.fs ∧ 0 < linkPeriod.fs)
  (hlast : ∀ u ∈ s.passed n, u.schedule.dueTime.fs < Time.lastFs)
  (hroom : s.controlCycles * controlPeriod.fs + lockTime p controlPeriod linkPeriod ≤
    (s.steps n).controlCycles * controlPeriod.fs)

include h hpaced hperiods hlast hroom

/-- The checker locks before the time for a handshake begins. -/
theorem Sighted.locks :
    ∃ i ≤ n,
      (s.steps i).linkCycles = s.linkCycles + p.bridge.syncStages + p.transceiver.latency + 5 ∧
      (s.steps i).controlCycles * controlPeriod.fs +
          ((p.bridge.syncStages + 1) * linkPeriod.fs +
            (2 * p.bridge.syncStages + 1) * controlPeriod.fs) ≤
        (s.steps n).controlCycles * controlPeriod.fs := by
  have hclocked := h.toScanning.clocked h.polarity_same
  unfold lockTime at hroom
  simp only [Nat.add_mul, Nat.mul_assoc] at hroom
  have hlead : p.linkPhase.fs + s.linkCycles * linkPeriod.fs ≤
      s.controlCycles * controlPeriod.fs + (p.linkPhase.fs + linkPeriod.fs) := by
    by_cases hnone : s.linkCycles = 0
    · rw [hnone]
      omega
    · have hpace := hpaced.link_pace hnone
      omega
  obtain ⟨i, hi, hlinks, hcontrols⟩ := hpaced.exists_link hclocked hperiods.2 hlast
    (p.bridge.syncStages + p.transceiver.latency + 5) hlead (by
      simp only [Nat.add_mul]
      omega)
  simp only [Nat.add_mul] at hcontrols
  refine ⟨i, hi, by omega, ?_⟩
  simp only [Nat.add_mul, Nat.mul_assoc]
  omega

/-- Once the control cycles of that time have gone by, the register shows one count for good. -/
theorem Sighted.errors_eq :
    ∃ errors, ∀ k, (s.steps (n + k)).bridge.control.errors = errors := by
  have hclocked := h.toScanning.clocked h.polarity_same
  obtain ⟨i, hi, hlinks, hcontrols⟩ := h.locks hpaced hperiods hlast hroom
  obtain ⟨rest, rfl⟩ := Nat.exists_eq_add_of_le hi
  rw [passed_add] at hlast
  obtain ⟨hearlier, hlater⟩ := List.forall_mem_append.mp hlast
  have hsighted := h.steps i
  have hstill := hsighted.linkErrors_passed (Nat.le_of_eq hlinks.symm)
  rw [steps_add] at hcontrols
  refine ⟨(s.steps i).bridge.linkErrors, fun k => ?_⟩
  rw [Nat.add_assoc, steps_add]
  exact hsighted.toScanning.shown.errors_eq (hpaced.steps hclocked hearlier)
    ((s.clocked_steps i).trans hclocked) hperiods (by omega) hstill hlater hcontrols k

end Lock
end LinkBridge.Simulation
