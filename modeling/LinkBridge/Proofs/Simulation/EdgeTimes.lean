import LinkBridge.Proofs.Simulation.Loops

/-!
The times of clock edges.

The edges of a clock fall on fixed instants, one period apart.  A simulation always runs the earlier
of the two pending edges, so at any point the edges of each clock that have run are its first ones,
and the pending one is the next of them (`OnTime`).  How many have run follows from the instant that
the simulation has come to: none of them is later, and the pending one is (`Regular.length_eq`).
-/

namespace LinkBridge

/-! ### The instants of one clock -/

/-- Edges up to an instant of a clock that has its first one at `start`. -/
def edgesBy (start period instant : Nat) : Nat :=
  if instant < start then 0 else (instant - start) / period + 1

/-- The first instants of a clock, and the next one, which is held back at the last instant. -/
structure Regular (start period : Nat) (times : List Nat) (next : Time) : Prop where
  times_eq : times = (List.range times.length).map (start + · * period)
  next_eq : next.fs = min (start + times.length * period) Time.lastFs

namespace Regular

variable {start : Nat} {times : List Nat} {next : Time}

theorem first (next : Time) (period : Nat) : Regular next.fs period [] next where
  times_eq := rfl
  next_eq := by
    have := next.le_last
    rw [List.length_nil, Nat.zero_mul]
    omega

theorem tick {period : Time} (h : Regular start period.fs times next)
    (hlast : next.fs < Time.lastFs) :
    Regular start period.fs (times ++ [next.fs]) (next.after period) := by
  have hnext : next.fs = start + times.length * period.fs := by
    have := h.next_eq
    omega
  constructor
  · rw [List.length_append, List.length_singleton, List.range_succ, List.map_append, ← h.times_eq,
      List.map_singleton, hnext]
  · rw [List.length_append, List.length_singleton, Nat.succ_mul, Time.after_fs, hnext,
      Nat.add_assoc]

/-- How many instants of a clock have passed when the next is still to come. -/
theorem length_eq {period instant : Nat} (h : Regular start period times next)
    (hpast : ∀ t ∈ times, t ≤ instant) (hnext : instant < next.fs) :
    times.length = edgesBy start period instant := by
  have hbound : instant < start + times.length * period := by
    have := h.next_eq
    omega
  unfold edgesBy
  cases hlength : times.length with
  | zero =>
    rw [hlength, Nat.zero_mul] at hbound
    rw [if_pos (by omega)]
  | succ n =>
    have hmem : start + n * period ∈ times := by
      rw [h.times_eq, hlength]
      exact List.mem_map.mpr ⟨n, List.mem_range.mpr (Nat.lt_succ_self n), rfl⟩
    have hle := hpast _ hmem
    rw [hlength] at hbound
    have hdiv : (instant - start) / period = n :=
      Nat.div_eq_of_lt_le (by omega) (by omega)
    rw [if_neg (by omega), hdiv]

end Regular

namespace Simulation

variable {s u : Simulation} {seen : List Simulation} {start : Domain → Nat}
  {period : Domain → Time}

/-- The instants at which edges of a domain run in the listed states. -/
def edgeTimes (states : List Simulation) (d : Domain) : List Nat :=
  (states.filter (·.schedule.due = d)).map (·.schedule.dueTime.fs)

/-- All edges that have run, by the states that they ran in, and what they leave pending. -/
structure OnTime (start : Domain → Nat) (period : Domain → Time) (seen : List Simulation)
    (s : Simulation) : Prop where
  periods : ∀ d, s.schedule.period d = period d
  regular : ∀ d, Regular (start d) (period d).fs (edgeTimes seen d) (s.schedule.pending d)
  rising : (seen.map (·.schedule.dueTime.fs)).Pairwise (· ≤ ·)
  past : ∀ u ∈ seen, u.schedule.dueTime.fs ≤ s.schedule.dueTime.fs
  controlCycles_eq : s.controlCycles = (edgeTimes seen .control).length
  linkCycles_eq : s.linkCycles = (seen.filter (·.runsLink)).length

theorem edgeTimes_concat (d : Domain) :
    edgeTimes (seen ++ [s]) d =
      edgeTimes seen d ++ if s.schedule.due = d then [s.schedule.dueTime.fs] else [] := by
  unfold edgeTimes
  rw [List.filter_append, List.map_append]
  by_cases h : s.schedule.due = d
  · rw [if_pos h, List.filter_cons_of_pos (by simpa using h)]
    rfl
  · rw [if_neg h, List.filter_cons_of_neg (by simpa using h)]
    rfl

theorem controlCycles_step (s : Simulation) :
    s.step.controlCycles = s.controlCycles + if s.schedule.due = .control then 1 else 0 := by
  cases hdue : s.schedule.due with
  | control =>
    obtain ⟨r, hr⟩ := step_control hdue
    rw [hr]
    rfl
  | link =>
    obtain ⟨r, hr⟩ := step_link hdue
    rw [hr]
    rfl

theorem linkCycles_step (s : Simulation) :
    s.step.linkCycles = s.linkCycles + if s.runsLink then 1 else 0 := by
  cases hdue : s.schedule.due with
  | control =>
    obtain ⟨r, hr⟩ := step_control hdue
    have hidle : s.runsLink = false := by
      rw [runsLink, hdue]
      rfl
    rw [hr, hidle]
    rfl
  | link =>
    obtain ⟨r, hr⟩ := step_link hdue
    rw [hr]
    cases s.runsLink <;> rfl

namespace OnTime

theorem congr (h : OnTime start period seen s) (hschedule : u.schedule = s.schedule)
    (hcontrol : u.controlCycles = s.controlCycles) (hlink : u.linkCycles = s.linkCycles) :
    OnTime start period seen u where
  periods := hschedule ▸ h.periods
  regular := hschedule ▸ h.regular
  rising := h.rising
  past := hschedule ▸ h.past
  controlCycles_eq := hcontrol.trans h.controlCycles_eq
  linkCycles_eq := hlink.trans h.linkCycles_eq

theorem step (h : OnTime start period seen s) (hlast : s.schedule.dueTime.fs < Time.lastFs) :
    OnTime start period (seen ++ [s]) s.step where
  periods d := by
    rw [schedule_step, Schedule.period_advance, h.periods]
  regular d := by
    rw [schedule_step, Schedule.pending_advance, edgeTimes_concat]
    by_cases hd : s.schedule.due = d
    · subst hd
      rw [if_pos rfl, if_pos rfl, h.periods]
      exact (h.regular s.schedule.due).tick hlast
    · rw [if_neg hd, if_neg (Ne.symm hd), List.append_nil]
      exact h.regular d
  rising := by
    rw [List.map_append, List.pairwise_append]
    refine ⟨h.rising, List.pairwise_singleton _ _, fun t ht t' ht' => ?_⟩
    obtain ⟨u, hu, rfl⟩ := List.mem_map.mp ht
    obtain rfl := List.mem_singleton.mp ht'
    exact h.past u hu
  past u hu := by
    have hadvance := s.schedule.dueTime_le_advance
    rw [schedule_step]
    rcases List.mem_append.mp hu with hold | hnew
    · exact Nat.le_trans (h.past u hold) hadvance
    · obtain rfl := List.mem_singleton.mp hnew
      exact hadvance
  controlCycles_eq := by
    rw [controlCycles_step, edgeTimes_concat, List.length_append, h.controlCycles_eq]
    split <;> rfl
  linkCycles_eq := by
    rw [linkCycles_step, List.filter_append, List.length_append, h.linkCycles_eq]
    cases hruns : s.runsLink <;> simp [hruns]

theorem steps (h : OnTime start period seen s) {n : Nat}
    (hlast : ∀ u ∈ s.passed n, u.schedule.dueTime.fs < Time.lastFs) :
    OnTime start period (seen ++ s.passed n) (s.steps n) :=
  passed_invariant (fun _ _ hu hdue => hu.step hdue) h hlast

end OnTime

/-! ### Sessions of runs -/

/-- The span of a run. -/
def Action.span? : Action → Option Time
  | .run span => some span
  | _ => none

theorem Action.eq_run_of_span? {a : Action} (h : a.span?.isSome) : ∃ span, a = .run span := by
  cases a with
  | run span => exact ⟨span, rfl⟩
  | _ => cases h

theorem Action.span?_of_not_runs {a : Action} (h : a.runs = false) : a.span? = none := by
  cases a with
  | run span => cases h
  | _ => rfl

def Action.spans (actions : List Action) : List Time := actions.filterMap Action.span?

/-- How long some spans last together, in femtoseconds. -/
def total : List Time → Nat
  | [] => 0
  | span :: rest => span.fs + total rest

/-- The states in which a session runs an edge. -/
def timeline (s : Simulation) (actions : List Action) : List Simulation :=
  Trace.gather act (fun u a => u.passed (u.edges a)) s actions

/-- A simulation that has made some runs, and each of them to its end. -/
structure Elapsed (start : Domain → Nat) (period : Domain → Time) (spans : List Time)
    (seen : List Simulation) (s : Simulation) : Prop where
  onTime : OnTime start period seen s
  now_eq : s.now.fs = total spans
  past : ∀ u ∈ seen, u.schedule.dueTime.fs ≤ s.now.fs
  waiting : spans ≠ [] → s.now.fs < s.schedule.dueTime.fs

theorem total_append (a b : List Time) : total (a ++ b) = total a + total b := by
  induction a with
  | nil => exact (Nat.zero_add _).symm
  | cons span rest ih => rw [List.cons_append, total, total, ih, Nat.add_assoc]

/-- Actions without edges change neither the time nor what counts it. -/
theorem act_keeps_time {a : Action} (h : a.runs = false) :
    (s.act a).now = s.now ∧ (s.act a).schedule = s.schedule ∧
      (s.act a).controlCycles = s.controlCycles ∧ (s.act a).linkCycles = s.linkCycles := by
  cases a with
  | step | run span | runCycles count => exact nomatch h
  | write address value =>
    simp only [act]
    split <;> exact ⟨rfl, rfl, rfl, rfl⟩
  | _ => exact ⟨rfl, rfl, rfl, rfl⟩

theorem passed_of_not_runs {a : Action} (h : a.runs = false) : s.passed (s.edges a) = [] := by
  cases a with
  | step | run span | runCycles count => exact nomatch h
  | _ => rfl

namespace Elapsed

variable {spans : List Time}

theorem of_not_runs (h : Elapsed start period spans seen s) {a : Action} (ha : a.runs = false) :
    Elapsed start period spans seen (s.act a) := by
  obtain ⟨hnow, hschedule, hcontrol, hlink⟩ := s.act_keeps_time ha
  exact {
    onTime := h.onTime.congr hschedule hcontrol hlink
    now_eq := by rw [hnow]; exact h.now_eq
    past := by rw [hnow]; exact h.past
    waiting := by rw [hnow, hschedule]; exact h.waiting }

theorem run (h : Elapsed start period spans seen s) (hperiods : ∀ d, 0 < (period d).fs)
    {span : Time} (hlast : total (spans ++ [span]) < Time.lastFs) :
    (s.run span).isSome ∧
      Elapsed start period (spans ++ [span]) (seen ++ s.passed (s.edges (.run span)))
        (s.act (.run span)) := by
  have htotal : total (spans ++ [span]) = s.now.fs + span.fs := by
    rw [total_append, h.now_eq]
    rfl
  have hspan : s.now.fs + span.fs < Time.lastFs := htotal ▸ hlast
  have hfs : (s.now.after span).fs = total (spans ++ [span]) := by
    rw [htotal]
    exact Time.after_fs_of_le (by omega)
  have hends := endsAfter_run (fun d => by rw [h.onTime.periods]; exact hperiods d) hspan
  refine ⟨isSome_run_iff.mpr hspan, ?_⟩
  rw [act_run_eq hspan]
  refine ⟨?_, hfs, ?_, fun _ => Nat.lt_of_not_le hends.stops⟩
  · have hsteps := h.onTime.steps fun u hu => by
      have hdue : u.schedule.dueTime.fs ≤ (s.now.after span).fs := hends.goes_of_mem hu
      omega
    exact hsteps.congr rfl rfl rfl
  · intro u hu
    rcases List.mem_append.mp hu with hold | hnew
    · exact Nat.le_trans (h.past u hold) (Time.le_after _ _)
    · exact hends.goes_of_mem hnew

/-- Every run of a session comes back, and all that it was to do is done. -/
theorem session (h : Elapsed start period spans seen s) (hperiods : ∀ d, 0 < (period d).fs)
    {actions : List Action} (hkinds : ∀ a ∈ actions, a.runs → a.span?.isSome)
    (hlast : total (spans ++ Action.spans actions) < Time.lastFs) :
    Trace.Along act (fun u a => ∀ span, a = .run span → (u.run span).isSome) s actions ∧
      Elapsed start period (spans ++ Action.spans actions) (seen ++ s.timeline actions)
        (s.session actions) := by
  induction actions generalizing spans seen s with
  | nil =>
    refine ⟨trivial, ?_⟩
    rw [Action.spans, List.filterMap_nil, timeline, Trace.gather, List.append_nil, List.append_nil]
    exact h
  | cons a rest ih =>
    have hrest := fun b hb => hkinds b (List.mem_cons_of_mem a hb)
    cases hruns : a.runs with
    | true =>
      obtain ⟨span, rfl⟩ := Action.eq_run_of_span? (hkinds a List.mem_cons_self hruns)
      have hspans : Action.spans (.run span :: rest) = [span] ++ Action.spans rest := rfl
      rw [hspans, ← List.append_assoc] at hlast ⊢
      have hnow : total (spans ++ [span]) < Time.lastFs := by
        rw [total_append] at hlast
        omega
      obtain ⟨hsome, hrun⟩ := h.run hperiods hnow
      obtain ⟨hreturns, hlater⟩ := ih hrun hrest hlast
      rw [List.append_assoc seen] at hlater
      refine ⟨⟨fun other hother => ?_, hreturns⟩, hlater⟩
      obtain rfl := Action.run.inj hother
      exact hsome
    | false =>
      have hspans : Action.spans (a :: rest) = Action.spans rest :=
        List.filterMap_cons_none (Action.span?_of_not_runs hruns)
      rw [hspans] at hlast ⊢
      obtain ⟨hreturns, hlater⟩ := ih (h.of_not_runs hruns) hrest hlast
      have htimeline : s.timeline (a :: rest) = (s.act a).timeline rest := by
        rw [timeline, Trace.gather, passed_of_not_runs hruns]
        rfl
      rw [htimeline]
      refine ⟨⟨fun span hspan => ?_, hreturns⟩, hlater⟩
      subst hspan
      cases hruns

end Elapsed

/-! ### From the start -/

/-- Periods are positive, or a run would not end. -/
theorem period_pos {d : Domain} {f : Frequency} {t : Time} (h : Simulation.period d f = .ok t) :
    0 < t.fs := by
  unfold Simulation.period Frequency.period? at h
  split at h
  · next found =>
    obtain rfl := Except.ok.inj h
    split at found
    · dsimp only at found
      split at found
      · exact nomatch found
      · next hzero =>
        obtain rfl := Option.some.inj found
        exact Nat.pos_of_ne_zero fun hfs => hzero (Time.ext hfs)
    · exact nomatch found
  · exact nomatch h

/-- What is to have happened when a simulation has run for a time: each clock has had its edges up
to then, and no other.  Of each domain the schedule holds one pending edge. -/
structure OnSchedule (controlPeriod linkPeriod phase duration : Nat) (ran : List Simulation)
    (s : Simulation) : Prop where
  control_times : edgeTimes ran .control =
    (List.range (duration / controlPeriod + 1)).map (· * controlPeriod)
  link_times : edgeTimes ran .link =
    (List.range (edgesBy phase linkPeriod duration)).map (phase + · * linkPeriod)
  rising : (ran.map (·.schedule.dueTime.fs)).Pairwise (· ≤ ·)
  now_eq : s.now.fs = duration
  controlCycles_eq : s.controlCycles = duration / controlPeriod + 1
  linkCycles_eq : s.linkCycles = (ran.filter (·.runsLink)).length
  linkCycles_eq_of_running : (∀ u ∈ ran, u.schedule.due = .link → u.runsLink = true) →
    s.linkCycles = edgesBy phase linkPeriod duration
  pending : ∀ d, duration < (s.schedule.pending d).fs

/-- When each clock has its first edge. -/
def firstEdge (phase : Time) : Domain → Nat
  | .control => 0
  | .link => phase.fs

def clocks (controlPeriod linkPeriod : Time) : Domain → Time
  | .control => controlPeriod
  | .link => linkPeriod

theorem elapsed_of_new {p : SimulationParams} {t : Transport} {controlPeriod linkPeriod : Time}
    (hnew : Simulation.new p t = .ok s)
    (hcontrol : Simulation.period .control p.controlClock = .ok controlPeriod)
    (hlink : Simulation.period .link p.linkClock = .ok linkPeriod) :
    Elapsed (firstEdge p.linkPhase) (clocks controlPeriod linkPeriod) [] [] s := by
  obtain ⟨cp, lp, hcp, hlp, -, rfl⟩ := eq_of_new hnew
  obtain rfl := Except.ok.inj (hcontrol.symm.trans hcp)
  obtain rfl := Except.ok.inj (hlink.symm.trans hlp)
  refine ⟨⟨?_, ?_, List.Pairwise.nil, fun _ hu => (nomatch hu), rfl, rfl⟩, rfl,
    fun _ hu => (nomatch hu), fun h => absurd rfl h⟩
  · rintro (_ | _) <;> rfl
  · rintro (_ | _)
    · exact Regular.first .zero _
    · exact Regular.first p.linkPhase _

/-- After a run both domains wait for an edge that is still to come. -/
theorem Elapsed.lt_pending {spans : List Time} (h : Elapsed start period spans seen s)
    (hspans : spans ≠ []) (d : Domain) : total spans < (s.schedule.pending d).fs :=
  h.now_eq ▸ Nat.lt_of_lt_of_le (h.waiting hspans) (s.schedule.dueTime_le_pending d)

theorem Elapsed.length_edgeTimes {spans : List Time} (h : Elapsed start period spans seen s)
    (hspans : spans ≠ []) (d : Domain) :
    (edgeTimes seen d).length = edgesBy (start d) (period d).fs (total spans) := by
  refine (h.onTime.regular d).length_eq (fun t ht => ?_) (h.lt_pending hspans d)
  obtain ⟨u, hu, rfl⟩ := List.mem_map.mp ht
  exact h.now_eq ▸ h.past u (List.mem_of_mem_filter hu)

theorem Elapsed.onSchedule {spans : List Time} {phase controlPeriod linkPeriod : Time}
    (h : Elapsed (firstEdge phase) (clocks controlPeriod linkPeriod) spans seen s)
    (hspans : spans ≠ []) :
    OnSchedule controlPeriod.fs linkPeriod.fs phase.fs (total spans) seen s := by
  have hlengths := h.length_edgeTimes hspans
  have hcontrol : (edgeTimes seen .control).length = total spans / controlPeriod.fs + 1 := by
    rw [hlengths]
    exact if_neg (Nat.not_lt_zero _)
  have hlink : (edgeTimes seen .link).length = edgesBy phase.fs linkPeriod.fs (total spans) :=
    hlengths .link
  refine ⟨?_, ?_, h.onTime.rising, h.now_eq, ?_, h.onTime.linkCycles_eq, fun hrunning => ?_,
    h.lt_pending hspans⟩
  · have htimes := (h.onTime.regular .control).times_eq
    rw [hcontrol] at htimes
    simpa only [firstEdge, clocks, Nat.zero_add] using htimes
  · have htimes := (h.onTime.regular .link).times_eq
    rw [hlink] at htimes
    exact htimes
  · rw [h.onTime.controlCycles_eq, hcontrol]
  · have hfilter : seen.filter (·.runsLink) = seen.filter (·.schedule.due = .link) := by
      refine List.filter_congr fun u hu => Bool.eq_iff_iff.mpr ?_
      rw [decide_eq_true_iff]
      exact ⟨due_of_runsLink, hrunning u hu⟩
    rw [h.onTime.linkCycles_eq, hfilter, ← hlink, edgeTimes, List.length_map]

/-- However runs cut up the time, each of them comes back, and together they run every edge up to
where they end, once and in order, and none beyond. -/
theorem runs_on_schedule {p : SimulationParams} {t : Transport} {controlPeriod linkPeriod : Time}
    (hnew : Simulation.new p t = .ok s)
    (hcontrol : Simulation.period .control p.controlClock = .ok controlPeriod)
    (hlink : Simulation.period .link p.linkClock = .ok linkPeriod) {actions : List Action}
    (hkinds : ∀ a ∈ actions, a.runs → a.span?.isSome) (hruns : Action.spans actions ≠ [])
    (hlast : total (Action.spans actions) < Time.lastFs) :
    Trace.Along act (fun u a => ∀ span, a = .run span → (u.run span).isSome) s actions ∧
      OnSchedule controlPeriod.fs linkPeriod.fs p.linkPhase.fs (total (Action.spans actions))
        (s.timeline actions) (s.session actions) := by
  have hperiods : ∀ d, 0 < (clocks controlPeriod linkPeriod d).fs := by
    rintro (_ | _)
    · exact period_pos hcontrol
    · exact period_pos hlink
  obtain ⟨hreturns, helapsed⟩ :=
    (elapsed_of_new hnew hcontrol hlink).session hperiods hkinds hlast
  exact ⟨hreturns, helapsed.onSchedule hruns⟩

/-- A run of no time, one that ends on a control edge while the link clock is halted, and one that
ends between two edges. -/
theorem runs_on_schedule_around_halt :
    let p : SimulationParams := {}
    let start := onDefaultClocks p.bridge p.transceiver {}
    let actions : List Action :=
      [.run .zero, .halt true, .run (.upTo 24000000), .halt false, .run (.upTo 10000000)]
    Simulation.new p {} = .ok start ∧
      Simulation.period .control p.controlClock = .ok (.upTo 8000000) ∧
      Simulation.period .link p.linkClock = .ok (.upTo 16276042) ∧
      (∀ a ∈ actions, a.runs → a.span?.isSome) ∧ Action.spans actions ≠ [] ∧
      total (Action.spans actions) < Time.lastFs ∧
      Trace.Along act (fun u a => ∀ span, a = .run span → (u.run span).isSome) start actions ∧
      OnSchedule 8000000 16276042 0 34000000 (start.timeline actions) (start.session actions) := by
  intro p start actions
  have hnew : Simulation.new p {} = .ok start := new_onDefaultClocks rfl _ _
  have hkinds : ∀ a ∈ actions, a.runs → a.span?.isSome := by decide
  have hruns : Action.spans actions ≠ [] := by decide
  have hlast : total (Action.spans actions) < Time.lastFs := by decide
  exact ⟨hnew, period_controlClock, period_linkClock, hkinds, hruns, hlast,
    runs_on_schedule hnew period_controlClock period_linkClock hkinds hruns hlast⟩

/-- Before the first run no edge has run, not even the control edge at the start. -/
theorem off_schedule_before_first_run :
    ¬∀ (p : SimulationParams) (t : Transport) (s : Simulation) (controlPeriod linkPeriod : Time)
      (spans : List Time), Simulation.new p t = .ok s →
      Simulation.period .control p.controlClock = .ok controlPeriod →
      Simulation.period .link p.linkClock = .ok linkPeriod → total spans < Time.lastFs →
      OnSchedule controlPeriod.fs linkPeriod.fs p.linkPhase.fs (total spans)
        (s.timeline (spans.map .run)) (s.session (spans.map .run)) := by
  intro h
  have hnew : Simulation.new {} {} = .ok (onDefaultClocks {} {} {}) := new_onDefaultClocks rfl _ _
  have hempty := h {} {} _ _ _ [] hnew period_controlClock period_linkClock (by decide)
  exact nomatch (hempty.controlCycles_eq : 0 = _ + 1)

end Simulation
end LinkBridge
