import LinkBridge.Proofs.Run.ScanEye
import LinkBridge.Proofs.Simulation.Comparing

/-!
What a scan has tested.

A scan scores a tap by the difference of two reads, and takes a tap without a difference for a clean
one.  Where the link clock runs and the dwell time holds some of its cycles, the checker has compared
samples in between (`taps_tested`): at every tap with the counting pattern, and inside the eye with
the pseudo-random one.

Where the link clock stands still there is no difference either, at any tap, and the scan finds one
window over all of them (`found_clean_of_stopped`).  A transceiver that takes the power-down pin the
other way is enough for that (`stopped_link_found_clean`).
-/

namespace LinkBridge.Scan

open Simulation

variable {p : SimulationParams} {d : Direction} {mode : PatternMode} {held tap : DelayTap}
  {dwell controlPeriod linkPeriod : Time} {s : Simulation} {report : ScanReport}

/-! ### Where the link clock runs -/

/-- What makes sure of a comparison at a tap: with the counting pattern, settling cycles in which the
enable crosses and a dwell time of a link cycle; with the pseudo-random one, the time to lock, both
taps in their eyes and a dwell time of two link cycles. -/
inductive Testable (p : SimulationParams) (d : Direction) (held : DelayTap)
    (dwell controlPeriod linkPeriod : Time) : PatternMode → DelayTap → Prop where
  | count {tap : DelayTap}
      (hsettle : p.linkPhase.fs + (p.bridge.syncStages + 1) * linkPeriod.fs + controlPeriod.fs ≤
        settleCycles * controlPeriod.fs)
      (hdwell : linkPeriod.fs ≤ dwell.fs) :
      Testable p d held dwell controlPeriod linkPeriod .count tap
  | prbs {tap : DelayTap} (hmode : p.transceiver.mode = .loopback)
      (hpolarity : p.transceiver.polarity = p.bridge.polarity)
      (hheld : (d.heldEye p.transceiver).contains held = true)
      (hswept : (d.sweptEye p.transceiver).contains tap = true)
      (hsettle : lockTime p controlPeriod linkPeriod ≤ settleCycles * controlPeriod.fs)
      (hdwell : 2 * linkPeriod.fs ≤ dwell.fs) :
      Testable p d held dwell controlPeriod linkPeriod .prbs tap

section Dwell

variable (h : Prepared p mode controlPeriod linkPeriod s)
  (hperiods : 0 < controlPeriod.fs ∧ 0 < linkPeriod.fs)

include h hperiods

/-- A dwell time has the link cycles that fit into it. -/
theorem linkCycles_dwell (hsome : (s.run dwell).isSome) (hbegun : s.linkCycles ≠ 0) {count : Nat}
    (hdwell : count * linkPeriod.fs ≤ dwell.fs) :
    s.linkCycles + count ≤ (s.steps (s.edges (.run dwell))).linkCycles := by
  have hpace := (h.paced.run h.clocked hperiods hsome).2 hbegun
  rw [linkCycles_act] at hpace
  have hlt : (s.linkCycles + count) * linkPeriod.fs <
      ((s.steps (s.edges (.run dwell))).linkCycles + 1) * linkPeriod.fs := by
    rw [Nat.add_mul]
    omega
  exact Nat.le_of_lt_succ (Nat.lt_of_mul_lt_mul_right hlt)

theorem linkCycles_settled (hends : (visit s d held tap).Ends dwell) {count : Nat}
    (hsettle : p.linkPhase.fs + count * linkPeriod.fs + controlPeriod.fs ≤
      settleCycles * controlPeriod.fs) : count ≤ (visit s d held tap).settled.linkCycles := by
  have hpace := (h.settled hperiods hends).paced.control_pace
  obtain ⟨n, hsettled, -, hcount⟩ := h.settled_visit hperiods hends
  rw [hsettled] at hpace ⊢
  rw [hcount, Nat.add_mul] at hpace
  have hle : count * linkPeriod.fs ≤
      ((written s d held tap).steps n).linkCycles * linkPeriod.fs := by omega
  exact Nat.le_of_mul_le_mul_right hle hperiods.2

theorem tested_of_count (hcounting : s.Counting p.bridge.syncStages)
    (hends : (visit s d held tap).Ends dwell)
    (hsettle : p.linkPhase.fs + (p.bridge.syncStages + 1) * linkPeriod.fs + controlPeriod.fs ≤
      settleCycles * controlPeriod.fs)
    (hdwell : linkPeriod.fs ≤ dwell.fs) :
    ∃ u ∈ (visit s d held tap).settled.executed (.run dwell), u.compares = true := by
  have hsettled := h.settled hperiods hends
  have hlate := linkCycles_settled h hperiods hends hsettle
  obtain ⟨n, hsteps, -, -⟩ := h.settled_visit hperiods hends
  have hkept : (visit s d held tap).settled.Counting p.bridge.syncStages := by
    rw [hsteps]
    exact (hcounting.writeRegister (by decide) _).steps n
  refine hkept.exists_compares hlate ?_
  exact linkCycles_dwell hsettled hperiods hends (by omega) (by omega)

end Dwell

theorem tested_of_prbs (h : Prepared p .prbs controlPeriod linkPeriod s)
    (hperiods : 0 < controlPeriod.fs ∧ 0 < linkPeriod.fs)
    (hends : (visit s d held tap).Ends dwell) (hmode : p.transceiver.mode = .loopback)
    (hpolarity : p.transceiver.polarity = p.bridge.polarity)
    (hheld : (d.heldEye p.transceiver).contains held = true)
    (hswept : (d.sweptEye p.transceiver).contains tap = true)
    (hsettle : lockTime p controlPeriod linkPeriod ≤ settleCycles * controlPeriod.fs)
    (hdwell : 2 * linkPeriod.fs ≤ dwell.fs) :
    ∃ u ∈ (visit s d held tap).settled.executed (.run dwell), u.compares = true := by
  have hsettled := h.settled hperiods hends
  obtain ⟨n, hsteps, hlast, hcount⟩ := h.settled_visit hperiods hends
  have hwritten := sighted_written h hmode hpolarity hheld hswept
  obtain ⟨i, hi, hlinks, -⟩ := hwritten.locks (h.written d held tap).paced hperiods hlast (by
    rw [hcount, Nat.add_mul]
    exact Nat.add_le_add_left hsettle _)
  obtain ⟨more, rfl⟩ := Nat.exists_eq_add_of_le hi
  have hlater := linkCycles_le_steps ((written s d held tap).steps i) more
  rw [← steps_add, ← hsteps] at hlater
  have hsighted := hwritten.steps (i + more)
  rw [← hsteps] at hsighted
  have hsame : (written s d held tap).linkCycles = s.linkCycles := rfl
  refine hsighted.exists_compares (by omega) ?_
  exact linkCycles_dwell hsettled hperiods hends (by omega) hdwell

theorem tested_visit (h : Prepared p mode controlPeriod linkPeriod s)
    (hperiods : 0 < controlPeriod.fs ∧ 0 < linkPeriod.fs)
    (hcounting : mode = .count → s.Counting p.bridge.syncStages)
    (hends : (visit s d held tap).Ends dwell)
    (htestable : Testable p d held dwell controlPeriod linkPeriod mode tap) :
    ∃ u ∈ (visit s d held tap).settled.executed (.run dwell), u.compares = true := by
  cases htestable with
  | count hsettle hdwell => exact tested_of_count h hperiods (hcounting rfl) hends hsettle hdwell
  | prbs hmode hpolarity hheld hswept hsettle hdwell =>
    exact tested_of_prbs h hperiods hends hmode hpolarity hheld hswept hsettle hdwell

theorem counting_last (h : Prepared p mode controlPeriod linkPeriod s)
    (hperiods : 0 < controlPeriod.fs ∧ 0 < linkPeriod.fs) {stages : Nat}
    (hcounting : s.Counting stages) (hends : (visit s d held tap).Ends dwell) :
    ((visit s d held tap).last dwell).Counting stages := by
  obtain ⟨n, hsteps, -, -⟩ := h.settled_visit hperiods hends
  obtain ⟨more, hact, -, -⟩ :=
    act_run ((h.settled hperiods hends).paced.periods hperiods) hends
  unfold Visit.last
  rw [hact, hsteps, ← steps_add]
  exact ((hcounting.writeRegister (by decide) _).steps _).atTime _

/-- Where the link clock runs, the checker compares samples between the two reads of a tap, whatever
the scan says of it. -/
theorem taps_tested (hnew : Simulation.new p {} = .ok s)
    (hrun : run p d mode held dwell = .ok report) (hclocked : p.clockRunning = true)
    (hcontrol : period .control p.controlClock = .ok controlPeriod)
    (hlink : period .link p.linkClock = .ok linkPeriod) :
    report.results = (allVisits s d mode held dwell).map (·.result dwell) ∧
      ∀ v ∈ allVisits s d mode held dwell,
        Testable p d held dwell controlPeriod linkPeriod mode v.tap →
          ∃ u ∈ v.settled.executed (.run dwell), u.compares = true := by
  obtain ⟨hends, rfl⟩ := eq_of_run hnew hrun
  have hperiods := And.intro (period_pos hcontrol) (period_pos hlink)
  have hstart : Prepared p mode controlPeriod linkPeriod (s.session (setup mode)) :=
    .start hnew hcontrol hlink hclocked
  have hcounting : mode = .count →
      (s.session (setup mode)).Counting p.bridge.syncStages := by
    rintro rfl
    have hnone : (s.session (setup .count)).linkCycles = 0 := by
      obtain ⟨_, _, -, -, -, rfl⟩ := eq_of_new hnew
      rw [session_setup]
      rfl
    exact ⟨hstart.scanning.rxPattern, fun hsome => by omega,
      fun hlate => absurd hstart.scanning.rxPattern.stages_pos (by omega), fun hlate => by omega⟩
  refine ⟨rfl, forall_visits
    (P := fun u => Prepared p mode controlPeriod linkPeriod u ∧
      (mode = .count → u.Counting p.bridge.syncStages))
    (fun u tap hu hend => ?_) ⟨hstart, hcounting⟩ hends⟩
  obtain ⟨hprepared, hcount⟩ := hu
  exact ⟨tested_visit hprepared hperiods hcount hend, hprepared.last hperiods hend,
    fun hm => counting_last hprepared hperiods (hcount hm) hend⟩

/-- The pseudo-random pattern at the last tap of the eye, with a dwell time of little more than two
link cycles. -/
theorem taps_tested_in_short_dwell :
    let p : SimulationParams := {}
    let s := onDefaultClocks p.bridge p.transceiver {}
    let held : DelayTap := ⟨9⟩
    let tested : DelayTap := ⟨22⟩
    ∃ report, Simulation.new p {} = .ok s ∧
      run p .tx .prbs held (.upTo 40000000) = .ok report ∧ p.clockRunning = true ∧
      Testable p .tx held (.upTo 40000000) (.upTo 8000000) (.upTo 16276042) .prbs tested ∧
      ∃ v ∈ allVisits s .tx .prbs held (.upTo 40000000), v.tap = tested ∧
        ∃ u ∈ v.settled.executed (.run (.upTo 40000000)), u.compares = true := by
  intro p s held tested
  have hnew : Simulation.new p {} = .ok s := new_onDefaultClocks rfl _ _
  have hrun := run_of_room hnew period_controlClock period_linkClock .tx .prbs held
    (.upTo 40000000) (by decide)
  have htestable :
      Testable p .tx held (.upTo 40000000) (.upTo 8000000) (.upTo 16276042) .prbs tested :=
    .prbs rfl rfl rfl rfl (by decide) (by decide)
  have hclocked : p.clockRunning = true := by decide
  obtain ⟨-, hall⟩ := taps_tested hnew hrun hclocked period_controlClock period_linkClock
  obtain ⟨v, hv, htap⟩ := exists_visit s .tx .prbs held (.upTo 40000000) tested
  refine ⟨_, hnew, hrun, hclocked, htestable, v, hv, htap, hall v hv ?_⟩
  rw [htap]
  exact htestable

/-! ### Where it stands still -/

/-- No link cycle has run or will run, and no error has been counted. -/
structure Stopped (s : Simulation) : Prop where
  unclocked : s.clocked = false
  none_run : s.linkCycles = 0
  crossing : s.bridge.crossings.errors.Holds (· = 0)
  seen_eq : s.bridge.control.errors = 0

namespace Stopped

theorem step (h : Stopped s) : Stopped s.step := by
  obtain ⟨hnone, hcrossing, hseen⟩ := step_keeps
    (P := fun b _ cycles =>
      cycles = 0 ∧ b.crossings.errors.Holds (· = 0) ∧ b.control.errors = 0) s
    ⟨h.none_run, h.crossing, h.seen_eq⟩
    ⟨h.none_run, h.crossing.destinationTick, h.crossing.destinationTick.value⟩
    (fun hruns => by
      rw [runsLink_of_unclocked h.unclocked] at hruns
      exact nomatch hruns)
  exact ⟨(clocked_step s).trans h.unclocked, hnone, hcrossing, hseen⟩

theorem settled (h : Stopped s) : Stopped (visit s d held tap).settled := by
  have hwritten : Stopped (written s d held tap) :=
    ⟨h.unclocked, h.none_run, h.crossing, h.seen_eq⟩
  rw [settled_visit, ← written, runCycles_eq]
  exact (forall_passed (P := Stopped) (fun _ hu => hu.step) hwritten _).2

theorem executed_eq (h : Stopped s) (a : Action) : s.executed a = [] := by
  refine List.filter_eq_nil_iff.mpr fun u hu => ?_
  have hstopped := (forall_passed (P := Stopped) (fun _ hu => hu.step) h _).1 u hu
  rw [runsLink_of_unclocked hstopped.unclocked]
  exact Bool.false_ne_true

theorem run (h : Stopped s) : Stopped (s.act (.run dwell)) := by
  have hsteps := (forall_passed (P := Stopped) (fun _ hu => hu.step) h (s.edges (.run dwell))).2
  rw [act_eq]
  simp only [conclude]
  split
  · exact hsteps
  · exact ⟨hsteps.unclocked, hsteps.none_run, hsteps.crossing, hsteps.seen_eq⟩

end Stopped

theorem stopped_setup (hnew : Simulation.new p {} = .ok s) (hstopped : p.clockRunning = false)
    (mode : PatternMode) : Stopped (s.session (setup mode)) := by
  obtain ⟨_, _, -, -, -, rfl⟩ := eq_of_new hnew
  rw [session_setup]
  exact ⟨hstopped, rfl, Crossing.BusCrossing.Holds.new (P := (· = 0)) rfl _, rfl⟩

/-- Without a link clock the scan tests nothing, and finds all taps clean. -/
theorem found_clean_of_stopped (hnew : Simulation.new p {} = .ok s)
    (hrun : run p d mode held dwell = .ok report) (hstopped : p.clockRunning = false) :
    report.window = some ⟨0, 31⟩ ∧
      ∀ v ∈ allVisits s d mode held dwell,
        v.settled.executed (.run dwell) = [] ∧ (v.last dwell).linkCycles = 0 ∧
          v.result dwell ∈ report.results ∧ (v.result dwell).errors = 0 := by
  obtain ⟨hends, rfl⟩ := eq_of_run hnew hrun
  have hall : ∀ v ∈ allVisits s d mode held dwell, Stopped v.settled :=
    forall_visits (P := Stopped) (fun u tap hu _ => ⟨hu.settled, hu.settled.run⟩)
      (stopped_setup hnew hstopped mode) hends
  have hzero : ∀ v ∈ allVisits s d mode held dwell, (v.result dwell).errors = 0 := by
    intro v hv
    show (v.last dwell).bridge.control.errors - v.settled.bridge.control.errors = 0
    rw [(hall v hv).seen_eq, show (v.last dwell).bridge.control.errors = 0 from
      (hall v hv).run.seen_eq]
    rfl
  have hresults : (allVisits s d mode held dwell).map (·.result dwell) =
      DelayTap.all.map fun t => ⟨t.value, 0⟩ := by
    have htaps : (allVisits s d mode held dwell).map (·.tap) = DelayTap.all := tap_visits _ _ _ _ _
    rw [← htaps, List.map_map]
    exact List.map_congr_left fun v hv => congrArg (TapResult.mk v.tap.value) (hzero v hv)
  refine ⟨?_, fun v hv => ⟨(hall v hv).executed_eq _, (hall v hv).run.none_run,
    List.mem_map_of_mem hv, hzero v hv⟩⟩
  show widestWindow ((allVisits s d mode held dwell).map (·.result dwell)) = _
  rw [hresults]
  decide

/-- A transceiver that is powered down at the level at which the bridge has it running: its clock
stands still, and the scan recommends the tap in the middle of all. -/
theorem stopped_link_found_clean :
    let p : SimulationParams := { bridge := { polarity := { powerDown := .activeHigh } } }
    let s := onDefaultClocks p.bridge p.transceiver {}
    let held : DelayTap := ⟨17⟩
    ∃ report, Simulation.new p {} = .ok s ∧
      run p .tx .count held (.upTo 50000000000) = .ok report ∧
      report.window = some ⟨0, 31⟩ ∧
      ∀ v ∈ allVisits s .tx .count held (.upTo 50000000000),
        v.settled.executed (.run (.upTo 50000000000)) = [] ∧
          (v.last (.upTo 50000000000)).linkCycles = 0 ∧
          v.result (.upTo 50000000000) ∈ report.results ∧
          (v.result (.upTo 50000000000)).errors = 0 := by
  intro p s held
  have hnew : Simulation.new p {} = .ok s := new_onDefaultClocks rfl _ _
  have hrun := run_of_room hnew period_controlClock period_linkClock .tx .count held
    (.upTo 50000000000) (by decide)
  have hstopped : p.clockRunning = false := by decide
  exact ⟨_, hnew, hrun, found_clean_of_stopped hnew hrun hstopped⟩

end LinkBridge.Scan
