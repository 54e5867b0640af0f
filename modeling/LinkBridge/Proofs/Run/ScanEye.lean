import LinkBridge.Proofs.Register.Fields
import LinkBridge.Proofs.Run.Scan
import LinkBridge.Proofs.Simulation.Scanning

/-!
The eye in a scan.

At every tap of a scan the simulation is `Prepared`: the pattern is asked for since before the first
edge, and the link clock has kept pace with the control clock.  So inside both eyes the checker locks
while the taps settle, if the settling cycles leave the time for it (`lockTime`), and the register
reads the same before and after the dwell time.  Then the whole eye is clean (`eye_clean`).

The settling cycles are a fixed number of control cycles, whatever the latency of the transceiver.
A latency that does not fit into them leaves old samples for the checker to count after the first
read, and an eye that begins with the first tap is not found whole (`eye_missed`).
-/

namespace LinkBridge

namespace Direction

/-- The eye of the line that is swept. -/
def sweptEye (d : Direction) (x : TransceiverParams) : TapWindow :=
  match d with
  | .tx => x.txEye
  | .rx => x.rxEye

/-- The eye of the line that is held. -/
def heldEye (d : Direction) (x : TransceiverParams) : TapWindow :=
  match d with
  | .tx => x.rxEye
  | .rx => x.txEye

theorem contains_taps {d : Direction} {x : TransceiverParams} {swept held : DelayTap}
    (hswept : (d.sweptEye x).contains swept = true) (hheld : (d.heldEye x).contains held = true) :
    x.txEye.contains (d.taps swept held).tx = true ∧
      x.rxEye.contains (d.taps swept held).rx = true := by
  cases d with
  | tx => exact ⟨hswept, hheld⟩
  | rx => exact ⟨hheld, hswept⟩

end Direction

/-- The transceiver's clock runs as long as the pins are as the bridge leaves reset with them. -/
def SimulationParams.clockRunning (p : SimulationParams) : Bool :=
  (Transceiver.new p.transceiver).clockRunning (Bridge.ofParams p.bridge).pins

theorem SimulationParams.clockRunning_of_polarity (p : SimulationParams)
    (h : p.transceiver.polarity = p.bridge.polarity) : p.clockRunning = true := by
  unfold clockRunning Transceiver.clockRunning Bridge.pins
  simp only [Transceiver.new, h, Bridge.ofParams, Polarity.asserted_level]
  rfl

namespace Scan

open Simulation

variable {p : SimulationParams} {d : Direction} {mode : PatternMode} {held tap : DelayTap}
  {dwell controlPeriod linkPeriod : Time} {s : Simulation} {report : ScanReport}

/-! ### A visit -/

/-- Between two visits. -/
structure Prepared (p : SimulationParams) (mode : PatternMode) (controlPeriod linkPeriod : Time)
    (s : Simulation) : Prop where
  scanning : Scanning p mode s
  paced : Paced controlPeriod linkPeriod p.linkPhase s
  clocked : s.clocked = true

/-- The write of the taps, from which the settling cycles run. -/
def written (s : Simulation) (d : Direction) (held tap : DelayTap) : Simulation :=
  s.writeRegister .delay (d.taps tap held).bits

theorem taps_written (s : Simulation) (d : Direction) (held tap : DelayTap) :
    (written s d held tap).bridge.taps = ((d.taps tap held).tx, (d.taps tap held).rx) := by
  show ((DelayReg.ofBits (d.taps tap held).bits).tx, (DelayReg.ofBits (d.taps tap held).bits).rx) = _
  rw [DelayReg.ofBits_bits]

namespace Prepared

theorem start (hnew : Simulation.new p {} = .ok s)
    (hcontrol : period .control p.controlClock = .ok controlPeriod)
    (hlink : period .link p.linkClock = .ok linkPeriod) (hclocked : p.clockRunning = true) :
    Prepared p mode controlPeriod linkPeriod (s.session (setup mode)) := by
  have hpaced := Paced.start hnew hcontrol hlink
  have hfits := fits_new hnew
  obtain ⟨controlPeriod, linkPeriod, -, -, hbridge, rfl⟩ := eq_of_new hnew
  have hstages := BridgeParams.minStages_le (Bridge.check_of_new hbridge)
  have htwo : Crossing.minStages = 2 := rfl
  have hdue : (Schedule.new controlPeriod linkPeriod p.linkPhase).due = .control := by
    unfold Schedule.new Schedule.due Time.zero
    simp
  have hchain : ∀ {α : Type} (v : α),
      (Crossing.Chain.new p.bridge.syncStages v).stages = p.bridge.syncStages := by
    intro α v
    rw [Crossing.Chain.stages_new]
    exact Nat.max_eq_left hstages
  have hstaged := Crossing.BusCrossing.Staged.new p.bridge.syncStages (0 : UInt32)
  rw [Nat.max_eq_left hstages] at hstaged
  have henabled := PatternControl.ofBits_bits ⟨true, mode⟩
  rw [session_setup]
  exact {
    scanning := {
      fits := hfits
      halted_eq := rfl
      control_eq := rfl
      polarity_eq := rfl
      loopback := .start rfl hdue rfl (by omega) (hchain _)
      txPattern := .start henabled hdue rfl (by omega) (hchain _)
      rxPattern := .start henabled hdue rfl (by omega) (hchain _)
      shown := ⟨hstaged, rfl⟩ }
    paced := hpaced.congr rfl rfl rfl rfl
    clocked := hclocked }

theorem written (h : Prepared p mode controlPeriod linkPeriod s) (d : Direction)
    (held tap : DelayTap) :
    Prepared p mode controlPeriod linkPeriod (Scan.written s d held tap) :=
  ⟨h.scanning.writeDelay _, h.paced.congr rfl rfl rfl rfl, h.clocked⟩

/-- The settling cycles run short of the last instant if the dwell time after them has an end. -/
theorem settled_visit (h : Prepared p mode controlPeriod linkPeriod s)
    (hperiods : 0 < controlPeriod.fs ∧ 0 < linkPeriod.fs)
    (hends : (visit s d held tap).Ends dwell) :
    ∃ n, (visit s d held tap).settled = (Scan.written s d held tap).steps n ∧
      (∀ u ∈ (Scan.written s d held tap).passed n, u.schedule.dueTime.fs < Time.lastFs) ∧
      ((Scan.written s d held tap).steps n).controlCycles = s.controlCycles + settleCycles := by
  have hwritten := h.written d held tap
  have hnow := isSome_run_iff.mp hends
  have hcount := controlCycles_runCycles (s := Scan.written s d held tap)
    (by rw [hwritten.paced.linkPeriod_eq]; exact hperiods.2) settleCycles
  have hsettled : (visit s d held tap).settled =
      (Scan.written s d held tap).runCycles settleCycles := Scan.settled_visit s d held tap
  generalize settleCycles = count at hsettled hcount ⊢
  rw [hsettled, runCycles_eq] at hnow
  rw [runCycles_eq] at hcount
  refine ⟨_, hsettled.trans (runCycles_eq _ _), fun u hu => ?_, hcount⟩
  have hle := dueTime_le_now_of_mem hu
  exact Nat.lt_of_le_of_lt hle (Nat.lt_of_le_of_lt (Nat.le_add_right _ _) hnow)

theorem steps (h : Prepared p mode controlPeriod linkPeriod s) {n : Nat}
    (hlast : ∀ u ∈ s.passed n, u.schedule.dueTime.fs < Time.lastFs) :
    Prepared p mode controlPeriod linkPeriod (s.steps n) :=
  ⟨(forall_passed (P := Scanning p mode) (fun _ hu => hu.step) h.scanning n).2,
    h.paced.steps h.clocked hlast, (s.clocked_steps n).trans h.clocked⟩

theorem settled (h : Prepared p mode controlPeriod linkPeriod s)
    (hperiods : 0 < controlPeriod.fs ∧ 0 < linkPeriod.fs)
    (hends : (visit s d held tap).Ends dwell) :
    Prepared p mode controlPeriod linkPeriod (visit s d held tap).settled := by
  obtain ⟨n, hsettled, hlast, -⟩ := h.settled_visit hperiods hends
  rw [hsettled]
  exact (h.written d held tap).steps hlast

theorem run (h : Prepared p mode controlPeriod linkPeriod s)
    (hperiods : 0 < controlPeriod.fs ∧ 0 < linkPeriod.fs) (hsome : (s.run dwell).isSome) :
    Prepared p mode controlPeriod linkPeriod (s.act (.run dwell)) := by
  have hpaced := (h.paced.run h.clocked hperiods hsome).1
  obtain ⟨n, hact, -, -⟩ := act_run (h.paced.periods hperiods) hsome
  rw [hact] at hpaced ⊢
  refine ⟨?_, hpaced, (s.clocked_steps n).trans h.clocked⟩
  exact ((forall_passed (P := Scanning p mode) (fun _ hu => hu.step) h.scanning n).2).atTime _

theorem last (h : Prepared p mode controlPeriod linkPeriod s)
    (hperiods : 0 < controlPeriod.fs ∧ 0 < linkPeriod.fs)
    (hends : (visit s d held tap).Ends dwell) :
    Prepared p mode controlPeriod linkPeriod ((visit s d held tap).last dwell) :=
  (h.settled hperiods hends).run hperiods hends

end Prepared

/-! ### A tap inside the eye -/

theorem sighted_written (h : Prepared p mode controlPeriod linkPeriod s)
    (hmode : p.transceiver.mode = .loopback)
    (hpolarity : p.transceiver.polarity = p.bridge.polarity)
    (hheld : (d.heldEye p.transceiver).contains held = true)
    (hswept : (d.sweptEye p.transceiver).contains tap = true) :
    Sighted p mode (s.linkCycles + p.bridge.syncStages) (written s d held tap) := by
  obtain ⟨htx, hrx⟩ := Direction.contains_taps hswept hheld
  have htaps := taps_written s d held tap
  refine Sighted.start (h.written d held tap).scanning hmode hpolarity ?_ ?_
  · rw [htaps]
    exact htx
  · rw [htaps]
    exact hrx

/-- Both reads of a tap inside the eye show the same count. -/
theorem errors_visit (h : Prepared p mode controlPeriod linkPeriod s)
    (hperiods : 0 < controlPeriod.fs ∧ 0 < linkPeriod.fs)
    (hends : (visit s d held tap).Ends dwell) (hmode : p.transceiver.mode = .loopback)
    (hpolarity : p.transceiver.polarity = p.bridge.polarity)
    (hheld : (d.heldEye p.transceiver).contains held = true)
    (hswept : (d.sweptEye p.transceiver).contains tap = true)
    (hroom : lockTime p controlPeriod linkPeriod ≤ settleCycles * controlPeriod.fs) :
    ((visit s d held tap).result dwell).errors = 0 := by
  obtain ⟨n, hsettled, hlast, hcount⟩ := h.settled_visit hperiods hends
  obtain ⟨more, hact, -, -⟩ :=
    act_run ((h.settled hperiods hends).paced.periods hperiods) hends
  have hsighted := sighted_written h hmode hpolarity hheld hswept
  obtain ⟨errors, herrors⟩ := hsighted.errors_eq (h.written d held tap).paced hperiods hlast
    (by
      rw [hcount, Nat.add_mul]
      exact Nat.add_le_add_left hroom _)
  have hbefore : (visit s d held tap).settled.readRegister .rxErrors = errors := by
    rw [hsettled]
    exact herrors 0
  have hafter : ((visit s d held tap).last dwell).readRegister .rxErrors = errors := by
    unfold Visit.last
    rw [hact, hsettled, ← steps_add]
    exact herrors more
  show ((visit s d held tap).last dwell).readRegister .rxErrors - _ = 0
  rw [hafter, hbefore]
  exact UInt32.sub_self errors

/-- With both polarities alike and the other tap inside its eye, a scan through a transceiver in
loopback finds every tap of the eye clean, if its settling cycles leave the time to lock. -/
theorem eye_clean (hrun : run p d mode held dwell = .ok report)
    (hmode : p.transceiver.mode = .loopback)
    (hpolarity : p.transceiver.polarity = p.bridge.polarity)
    (hheld : (d.heldEye p.transceiver).contains held = true)
    (hcontrol : period .control p.controlClock = .ok controlPeriod)
    (hlink : period .link p.linkClock = .ok linkPeriod)
    (hroom : lockTime p controlPeriod linkPeriod ≤ settleCycles * controlPeriod.fs) :
    let eye := d.sweptEye p.transceiver
    (∀ r ∈ report.results, eye.low.value ≤ r.tap → r.tap ≤ eye.high.value → r.errors = 0) ∧
      (eye.low.value ≤ eye.high.value →
        ∃ w ∈ cleanRuns none report.results,
          w.first ≤ eye.low.value ∧ eye.high.value ≤ w.last) := by
  intro eye
  obtain ⟨s, hnew⟩ := new_of_run hrun
  obtain ⟨hends, rfl⟩ := eq_of_run hnew hrun
  have hperiods := And.intro (period_pos hcontrol) (period_pos hlink)
  have hstart : Prepared p mode controlPeriod linkPeriod (s.session (setup mode)) :=
    .start hnew hcontrol hlink (p.clockRunning_of_polarity hpolarity)
  have hall : ∀ v ∈ allVisits s d mode held dwell,
      eye.contains v.tap = true → (v.result dwell).errors = 0 :=
    forall_visits (fun u tap hu hend =>
      ⟨fun hswept => errors_visit hu hperiods hend hmode hpolarity hheld hswept hroom,
        hu.last hperiods hend⟩) hstart hends
  have hclean : ∀ r ∈ (allVisits s d mode held dwell).map (·.result dwell),
      eye.low.value ≤ r.tap → r.tap ≤ eye.high.value → r.errors = 0 := by
    intro r hr hlow hhigh
    obtain ⟨v, hv, rfl⟩ := List.mem_map.mp hr
    refine hall v hv ?_
    unfold TapWindow.contains
    rw [Bool.and_eq_true]
    exact ⟨decide_eq_true hlow, decide_eq_true hhigh⟩
  exact ⟨hclean, fun hle => exists_window hle hclean⟩

/-- A long line and the other way round: the receive eye of a late stream, with a latency for which
the settling cycles are just enough. -/
theorem eye_clean_through_long_line :
    let p : SimulationParams := { transceiver := { latency := 80, phaseInverted := true } }
    let held : DelayTap := ⟨14⟩
    ∃ report, run p .rx .prbs held (.upTo 50000000000) = .ok report ∧
      p.transceiver.mode = .loopback ∧ p.transceiver.polarity = p.bridge.polarity ∧
      (Direction.rx.heldEye p.transceiver).contains held = true ∧
      lockTime p (.upTo 8000000) (.upTo 16276042) ≤ settleCycles * (Time.upTo 8000000).fs ∧
      (∀ r ∈ report.results, 9 ≤ r.tap → r.tap ≤ 25 → r.errors = 0) ∧
      ∃ w ∈ cleanRuns none report.results, w.first ≤ 9 ∧ 25 ≤ w.last := by
  intro p held
  have hnew : Simulation.new p {} = .ok (onDefaultClocks p.bridge p.transceiver {}) :=
    new_onDefaultClocks rfl _ _
  have hrun := run_of_room hnew period_controlClock period_linkClock .rx .prbs held
    (.upTo 50000000000) (by decide)
  have hroom : lockTime p (.upTo 8000000) (.upTo 16276042) ≤
      settleCycles * (Time.upTo 8000000).fs := by decide
  obtain ⟨hclean, hwindow⟩ := eye_clean hrun rfl rfl rfl period_controlClock period_linkClock hroom
  exact ⟨_, hrun, rfl, rfl, rfl, hroom, hclean, hwindow (by decide)⟩

/-- A latency longer than the settling cycles: at the first tap, inside the eye, the checker still
counts what was on the line before. -/
theorem eye_missed :
    let p : SimulationParams := { transceiver := { txEye := ⟨⟨0⟩, ⟨22⟩⟩, latency := 150 } }
    let held : DelayTap := ⟨17⟩
    ∃ report, run p .tx .count held (.upTo 1000000000) = .ok report ∧
      p.transceiver.mode = .loopback ∧ p.transceiver.polarity = p.bridge.polarity ∧
      (Direction.tx.heldEye p.transceiver).contains held = true ∧
      (Direction.tx.sweptEye p.transceiver).contains ⟨0⟩ = true ∧
      ⟨0, 57⟩ ∈ report.results := by
  intro p held
  have hnew : Simulation.new p {} = .ok (onDefaultClocks p.bridge p.transceiver {}) :=
    new_onDefaultClocks rfl _ _
  have hrun := run_of_room hnew period_controlClock period_linkClock .tx .count held
    (.upTo 1000000000) (by decide)
  refine ⟨_, hrun, rfl, rfl, rfl, rfl, ?_⟩
  have hfirst : (visit ((onDefaultClocks p.bridge p.transceiver {}).session (setup .count)) .tx held
      default).result (.upTo 1000000000) = ⟨0, 57⟩ := by decide +kernel
  rw [← hfirst]
  exact List.mem_map_of_mem (first_mem_allVisits _ _ _ _ _)

end Scan
end LinkBridge
