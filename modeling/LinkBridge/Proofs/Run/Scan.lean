import LinkBridge.Proofs.Run.Trial
import LinkBridge.Proofs.Run.Window
import LinkBridge.Proofs.Simulation.Pace

/-!
Delay scans.

A scan visits the taps one after the other in one simulation, and each visit is a session of its
own: the write of the taps and the settling cycles, then the dwell time.  So a scan comes back if
every dwell time has an end (`run_eq`), which a bound on the whole time of the scan gives
(`isSome_of_room`), and what one visit establishes and keeps is established at all of them
(`forall_visits`).

The results are in the order of the taps, so a stretch without errors lies in one run of theirs
(`exists_window`).
-/

namespace LinkBridge.Scan

open Simulation

variable {p : SimulationParams} {d : Direction} {mode : PatternMode} {held : DelayTap}
  {dwell : Time} {s : Simulation} {taps : List DelayTap} {report : ScanReport}

/-! ### A scan as a session -/

/-- What a scan does before its first tap. -/
def setup (mode : PatternMode) : List Action :=
  let bits := ({ enable := true, mode } : PatternControl).bits
  [.write Register.txPattern.address bits, .write Register.rxPattern.address bits]

/-- What a scan does at a tap before it reads the errors. -/
def settling (d : Direction) (held tap : DelayTap) : List Action :=
  [.write Register.delay.address (d.taps tap held).bits, .runCycles settleCycles]

/-- A tap, and the simulation when its errors are read first. -/
structure Visit where
  tap : DelayTap
  settled : Simulation

namespace Visit

/-- The simulation when the errors of the tap are read again. -/
def last (v : Visit) (dwell : Time) : Simulation := v.settled.act (.run dwell)

def result (v : Visit) (dwell : Time) : TapResult :=
  { tap := v.tap.value
    errors := (v.last dwell).readRegister .rxErrors - v.settled.readRegister .rxErrors }

/-- The dwell time has an end. -/
def Ends (dwell : Time) (v : Visit) : Prop := (v.settled.run dwell).isSome

instance (dwell : Time) : DecidablePred (Ends dwell) := fun v =>
  inferInstanceAs (Decidable ((v.settled.run dwell).isSome = true))

end Visit

def visit (s : Simulation) (d : Direction) (held tap : DelayTap) : Visit :=
  { tap, settled := s.session (settling d held tap) }

def visits (s : Simulation) (d : Direction) (held : DelayTap) (dwell : Time) :
    List DelayTap → List Visit
  | [] => []
  | tap :: rest =>
    let v := visit s d held tap
    v :: visits (v.last dwell) d held dwell rest

/-- All visits of a scan of a new simulation. -/
def allVisits (s : Simulation) (d : Direction) (mode : PatternMode) (held : DelayTap)
    (dwell : Time) : List Visit :=
  visits (s.session (setup mode)) d held dwell DelayTap.all

def reportOf (d : Direction) (mode : PatternMode) (held : DelayTap) (results : List TapResult) :
    ScanReport :=
  { direction := d, pattern := mode, other := held, results, window := widestWindow results }

theorem session_then_runCycles (s : Simulation) (a : Action) (count : Nat) :
    s.session [a, .runCycles count] = (s.act a).runCycles count := rfl

theorem settled_visit (s : Simulation) (d : Direction) (held tap : DelayTap) :
    (visit s d held tap).settled =
      (s.writeRegister .delay (d.taps tap held).bits).runCycles settleCycles := by
  simp only [visit, settling, session_then_runCycles, Trial.act_write]

theorem session_setup (s : Simulation) (mode : PatternMode) :
    s.session (setup mode) = (s.writeRegister .txPattern
      ({ enable := true, mode } : PatternControl).bits).writeRegister .rxPattern
        ({ enable := true, mode } : PatternControl).bits := by
  unfold setup
  simp only [session, Trace.final, Trial.act_write]

theorem score_eq (s : Simulation) (d : Direction) (held : DelayTap) (dwell : Time)
    (tap : DelayTap) :
    score s d held dwell tap =
      let v := visit s d held tap
      if v.Ends dwell then .ok (v.last dwell, v.result dwell) else .error .endless := by
  unfold score
  simp only [← settled_visit, Trial.runTo_eq]
  by_cases hends : (visit s d held tap).Ends dwell
  · simp only [if_pos hends, if_pos (show ((visit s d held tap).settled.run dwell).isSome from hends)]
    rfl
  · simp only [if_neg hends,
      if_neg (show ¬((visit s d held tap).settled.run dwell).isSome from hends)]
    rfl

theorem scoreAll_eq (s : Simulation) (d : Direction) (held : DelayTap) (dwell : Time)
    (taps : List DelayTap) :
    scoreAll s d held dwell taps =
      if ∀ v ∈ visits s d held dwell taps, v.Ends dwell then
        .ok ((visits s d held dwell taps).map (·.result dwell))
      else .error .endless := by
  induction taps generalizing s with
  | nil => rfl
  | cons tap rest ih =>
    unfold scoreAll visits
    simp only [score_eq, List.forall_mem_cons]
    by_cases hnow : (visit s d held tap).Ends dwell
    · simp only [hnow, if_true, true_and, bind, Except.bind, ih]
      by_cases hlater :
          ∀ v ∈ visits ((visit s d held tap).last dwell) d held dwell rest, v.Ends dwell
      · simp only [if_pos hlater]
        rfl
      · simp only [if_neg hlater]
    · simp only [hnow, if_false, false_and]
      rfl

theorem run_eq (hnew : Simulation.new p {} = .ok s) (d : Direction) (mode : PatternMode)
    (held : DelayTap) (dwell : Time) :
    run p d mode held dwell =
      if ∀ v ∈ allVisits s d mode held dwell, v.Ends dwell then
        .ok (reportOf d mode held ((allVisits s d mode held dwell).map (·.result dwell)))
      else .error .endless := by
  unfold run allVisits
  simp only [hnew, Except.mapError, bind, Except.bind, ← session_setup, scoreAll_eq]
  by_cases hends : ∀ v ∈ visits (s.session (setup mode)) d held dwell DelayTap.all, v.Ends dwell
  · simp only [if_pos hends]
    rfl
  · simp only [if_neg hends]

theorem eq_of_run (hnew : Simulation.new p {} = .ok s)
    (hrun : run p d mode held dwell = .ok report) :
    (∀ v ∈ allVisits s d mode held dwell, v.Ends dwell) ∧
      report = reportOf d mode held ((allVisits s d mode held dwell).map (·.result dwell)) := by
  rw [run_eq hnew] at hrun
  split at hrun
  · next hends => exact ⟨hends, (Except.ok.inj hrun).symm⟩
  · exact nomatch hrun

theorem new_of_run (hrun : run p d mode held dwell = .ok report) :
    ∃ s, Simulation.new p {} = .ok s := by
  obtain ⟨s, hs, -⟩ := bind_eq_ok.mp hrun
  exact ⟨s, mapError_eq_ok.mp hs⟩

/-! ### All visits -/

theorem tap_visits (s : Simulation) (d : Direction) (held : DelayTap) (dwell : Time)
    (taps : List DelayTap) : (visits s d held dwell taps).map (·.tap) = taps := by
  induction taps generalizing s with
  | nil => rfl
  | cons tap rest ih => exact congrArg (tap :: ·) (ih _)

theorem exists_visit (s : Simulation) (d : Direction) (mode : PatternMode) (held : DelayTap)
    (dwell : Time) (tap : DelayTap) : ∃ v ∈ allVisits s d mode held dwell, v.tap = tap := by
  refine List.mem_map.mp ?_
  rw [allVisits, tap_visits]
  exact List.mem_map_of_mem (List.mem_finRange tap.index)

theorem first_mem_allVisits (s : Simulation) (d : Direction) (mode : PatternMode)
    (held : DelayTap) (dwell : Time) :
    visit (s.session (setup mode)) d held default ∈ allVisits s d mode held dwell := by
  have hall : DelayTap.all = default :: DelayTap.all.tail := by decide
  unfold allVisits
  rw [hall]
  exact List.mem_cons_self

/-- What one visit establishes and keeps is established at all of them. -/
theorem forall_visits {P : Simulation → Prop} {Q : Visit → Prop}
    (hvisit : ∀ u tap, P u → (visit u d held tap).Ends dwell →
      Q (visit u d held tap) ∧ P ((visit u d held tap).last dwell))
    (hs : P s) (hends : ∀ v ∈ visits s d held dwell taps, v.Ends dwell) :
    ∀ v ∈ visits s d held dwell taps, Q v := by
  induction taps generalizing s with
  | nil => exact fun _ hv => nomatch hv
  | cons tap rest ih =>
    obtain ⟨hnow, hlater⟩ := List.forall_mem_cons.mp hends
    obtain ⟨hq, hp⟩ := hvisit s tap hs hnow
    exact List.forall_mem_cons.mpr ⟨hq, ih hp hlater⟩

section Time

variable {controlPeriod linkPeriod : Time}

/-- A visit takes its settling cycles and its dwell time. -/
theorem timely_visit (h : Timely controlPeriod linkPeriod s)
    (hperiods : 0 < controlPeriod.fs ∧ 0 < linkPeriod.fs) (tap : DelayTap)
    (hroom : s.now.fs + (settleCycles * controlPeriod.fs + dwell.fs) < Time.lastFs) :
    (visit s d held tap).Ends dwell ∧
      Timely controlPeriod linkPeriod ((visit s d held tap).last dwell) ∧
      ((visit s d held tap).last dwell).now.fs ≤
        s.now.fs + (settleCycles * controlPeriod.fs + dwell.fs) := by
  have hwritten : Timely controlPeriod linkPeriod
      (s.writeRegister .delay (d.taps tap held).bits) := h.congr rfl rfl
  obtain ⟨hsettled, hle⟩ := hwritten.runCycles hperiods.2 settleCycles
  have hle : _ ≤ s.now.fs + _ := hle
  rw [← settled_visit] at hsettled hle
  have hdwell : (visit s d held tap).settled.now.fs + dwell.fs < Time.lastFs := by omega
  obtain ⟨hends, hlast, hfs⟩ := hsettled.run hperiods hdwell
  refine ⟨hends, hlast, ?_⟩
  show ((visit s d held tap).settled.act (.run dwell)).now.fs ≤ _
  omega

/-- With time for all its visits a scan comes to its end. -/
theorem ends_of_room (h : Timely controlPeriod linkPeriod s)
    (hperiods : 0 < controlPeriod.fs ∧ 0 < linkPeriod.fs)
    (hroom : s.now.fs + taps.length * (settleCycles * controlPeriod.fs + dwell.fs) <
      Time.lastFs) :
    ∀ v ∈ visits s d held dwell taps, v.Ends dwell := by
  induction taps generalizing s with
  | nil => exact fun _ hv => nomatch hv
  | cons tap rest ih =>
    rw [List.length_cons, Nat.succ_mul] at hroom
    have hfirst : s.now.fs + (settleCycles * controlPeriod.fs + dwell.fs) < Time.lastFs := by
      omega
    obtain ⟨hends, hlast, hle⟩ := timely_visit h hperiods tap hfirst
    exact List.forall_mem_cons.mpr ⟨hends, ih hlast (by omega)⟩

theorem run_of_room (hnew : Simulation.new p {} = .ok s)
    (hcontrol : period .control p.controlClock = .ok controlPeriod)
    (hlink : period .link p.linkClock = .ok linkPeriod) (d : Direction) (mode : PatternMode)
    (held : DelayTap) (dwell : Time)
    (hroom : 32 * (settleCycles * controlPeriod.fs + dwell.fs) < Time.lastFs) :
    run p d mode held dwell =
      .ok (reportOf d mode held ((allVisits s d mode held dwell).map (·.result dwell))) := by
  have hstart := (Paced.start hnew hcontrol hlink).toTimely
  have hnow : s.now = .zero := by
    obtain ⟨_, _, -, -, -, rfl⟩ := eq_of_new hnew
    rfl
  have hsetup : Timely controlPeriod linkPeriod (s.session (setup mode)) ∧
      (s.session (setup mode)).now = s.now := by
    rw [session_setup]
    exact ⟨hstart.congr rfl rfl, rfl⟩
  rw [run_eq hnew, if_pos]
  refine ends_of_room hsetup.1 ⟨period_pos hcontrol, period_pos hlink⟩ ?_
  have hlength : DelayTap.all.length = 32 := by
    rw [DelayTap.all, List.length_map, List.length_finRange]
  rw [hsetup.2, hnow, hlength]
  show 0 + _ < _
  omega

end Time

/-! ### Windows -/

theorem map_value_all : DelayTap.all.map DelayTap.value = List.range 32 := by decide

theorem tap_results (s : Simulation) (d : Direction) (mode : PatternMode) (held : DelayTap)
    (dwell : Time) :
    ((allVisits s d mode held dwell).map (·.result dwell)).map (·.tap) = List.range 32 := by
  have htaps := congrArg (List.map DelayTap.value)
    (tap_visits (s.session (setup mode)) d held dwell DelayTap.all)
  rw [map_value_all, List.map_map] at htaps
  rw [List.map_map]
  exact htaps

theorem sorted_results (s : Simulation) (d : Direction) (mode : PatternMode) (held : DelayTap)
    (dwell : Time) : Sorted ((allVisits s d mode held dwell).map (·.result dwell)) := by
  have hrange : (List.range 32).Pairwise (· < ·) := List.pairwise_lt_range
  rw [← tap_results s d mode held dwell, List.pairwise_map] at hrange
  exact hrange

/-- A range of taps without errors lies in one run of a scan. -/
theorem exists_window {low high : DelayTap} (hle : low.value ≤ high.value)
    (hclean : ∀ r ∈ (allVisits s d mode held dwell).map (·.result dwell),
      low.value ≤ r.tap → r.tap ≤ high.value → r.errors = 0) :
    ∃ w ∈ cleanRuns none ((allVisits s d mode held dwell).map (·.result dwell)),
      w.first ≤ low.value ∧ high.value ≤ w.last := by
  have hfound : ∀ t : DelayTap,
      ∃ r ∈ (allVisits s d mode held dwell).map (·.result dwell), r.tap = t.value := by
    intro t
    refine List.mem_map.mp ?_
    rw [tap_results]
    exact List.mem_range.mpr t.index.isLt
  obtain ⟨first, hfirst, hlow⟩ := hfound low
  obtain ⟨last, hlast, hhigh⟩ := hfound high
  rw [← hlow, ← hhigh] at hle hclean ⊢
  exact exists_cleanRun_of_range (sorted_results s d mode held dwell) hfirst hlast hle hclean

end LinkBridge.Scan
