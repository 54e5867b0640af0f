import LinkBridge.Proofs.Simulation.Pace
import LinkBridge.Proofs.Simulation.Queue

/-!
Runs and their ends.

Both ways to run a simulation are loops of steps: one as long as an edge is due up to a horizon, the
other as long as control cycles are missing up to a count.  The second ends from every state that a
session comes to, since one pending edge is always the control clock's and the link edges before it
are few (`cycles_run_exactly`).  The first ends exactly if its horizon is short of the last instant
(`run_ends_iff`).  Where runs end they compose: a step takes its instant from the schedule, so where
one run has left off is forgotten by the next (`runs_compose`).
-/

namespace LinkBridge.Simulation

variable {s start : Simulation} {p : SimulationParams} {t : Transport}
  {controlPeriod linkPeriod : Time} {n count : Nat}

/-! ### States that sessions come to -/

theorem Timely.act (h : Timely controlPeriod linkPeriod s)
    (hperiods : 0 < controlPeriod.fs ∧ 0 < linkPeriod.fs) (a : Action) :
    Timely controlPeriod linkPeriod (s.act a) := by
  cases hruns : a.runs with
  | false =>
    obtain ⟨hnow, hschedule, -, -⟩ := s.act_keeps_time hruns
    exact h.congr hnow hschedule
  | true =>
    cases a with
    | step => exact h.step
    | runCycles count => exact (h.runCycles hperiods.2 count).1
    | run span =>
      cases hrun : s.run span with
      | none =>
        rw [Simulation.act, hrun]
        exact h
      | some u =>
        have hspan := isSome_run_iff.mp (Option.isSome_of_mem hrun)
        exact (h.run hperiods hspan).2.1
    | _ => exact absurd hruns Bool.false_ne_true

theorem timely_session (hnew : Simulation.new p t = .ok start)
    (hcontrol : Simulation.period .control p.controlClock = .ok controlPeriod)
    (hlink : Simulation.period .link p.linkClock = .ok linkPeriod) (actions : List Action) :
    Timely controlPeriod linkPeriod (start.session actions) ∧
      ∀ d, 0 < ((start.session actions).schedule.period d).fs := by
  have hperiods := And.intro (period_pos hcontrol) (period_pos hlink)
  have htimely : Timely controlPeriod linkPeriod (start.session actions) :=
    Trace.final_invariant (A := fun _ _ => True) (fun _ a h _ => h.act hperiods a)
      (Paced.start hnew hcontrol hlink).toTimely (Trace.along_true start actions)
  exact ⟨htimely, htimely.periods hperiods⟩

/-! ### Runs for a span -/

/-- A run ends, and gives a simulation back, exactly if the horizon is short of the last instant.
Then every pending edge is later than the time that the run has come to. -/
theorem run_ends_iff (hnew : Simulation.new p t = .ok start)
    (hcontrol : Simulation.period .control p.controlClock = .ok controlPeriod)
    (hlink : Simulation.period .link p.linkClock = .ok linkPeriod) (actions : List Action)
    (span : Time) :
    let s := start.session actions
    let horizon := s.now.after span
    ((∃ n, EndsAfter (DueBy horizon) s n) ↔ s.now.fs + span.fs < Time.lastFs) ∧
      ((s.run span).isSome ↔ ∃ n, EndsAfter (DueBy horizon) s n) ∧
      ∀ n, EndsAfter (DueBy horizon) s n →
        s.run span = some { s.steps n with now := horizon } ∧
          ∀ d, horizon.fs < ((s.steps n).schedule.pending d).fs := by
  intro s horizon
  obtain ⟨-, hperiods⟩ := timely_session hnew hcontrol hlink actions
  have hiff : (∃ n, EndsAfter (DueBy horizon) s n) ↔ s.now.fs + span.fs < Time.lastFs := by
    constructor
    · rintro ⟨n, hends⟩
      by_contra hspan
      have hlast : horizon = .last := Time.after_eq_last_iff.mpr (Nat.le_of_not_lt hspan)
      rw [hlast] at hends
      exact s.not_endsAfter_last n hends
    · exact fun hspan => ⟨_, endsAfter_run hperiods hspan⟩
  refine ⟨hiff, isSome_run_iff.trans hiff.symm, fun n hends => ?_⟩
  have hspan := hiff.mp ⟨n, hends⟩
  obtain rfl := hends.unique (endsAfter_run hperiods hspan)
  refine ⟨run_eq hspan, fun d => ?_⟩
  exact Nat.lt_of_lt_of_le (Nat.lt_of_not_le hends.stops) (Schedule.dueTime_le_pending _ d)

/-- A link clock that is halted still has its edges, so they are waited for like the others. -/
theorem run_ends_with_link_halted :
    let p : SimulationParams := {}
    let start := onDefaultClocks p.bridge p.transceiver {}
    let s := start.session [.halt true, .runCycles 3]
    let horizon := s.now.after (.upTo 20000000)
    Simulation.new p {} = .ok start ∧
      Simulation.period .control p.controlClock = .ok (.upTo 8000000) ∧
      Simulation.period .link p.linkClock = .ok (.upTo 16276042) ∧
      s.now = .upTo 16000000 ∧
      ∃ n, EndsAfter (DueBy horizon) s n ∧
        s.run (.upTo 20000000) = some { s.steps n with now := horizon } ∧
        ∀ d, horizon.fs < ((s.steps n).schedule.pending d).fs := by
  intro p start s horizon
  have hnew : Simulation.new p {} = .ok start := new_onDefaultClocks rfl _ _
  have hnow : s.now = .upTo 16000000 := by decide +kernel
  obtain ⟨hiff, -, hends⟩ := run_ends_iff hnew period_controlClock period_linkClock
    [.halt true, .runCycles 3] (.upTo 20000000)
  obtain ⟨n, hn⟩ := hiff.mpr (by decide +kernel)
  exact ⟨hnew, period_controlClock, period_linkClock, hnow, n, hn, hends n hn⟩

/-- The frequency of a clock with a period of 8192 seconds.  Three edges fill the time line. -/
def slowClock : Frequency := ⟨0.0001220703125⟩

theorem period_slowClock (d : Domain) :
    Simulation.period d slowClock = .ok (.upTo 8192000000000000000) := by
  have h : slowClock.period? = some (.upTo 8192000000000000000) := by decide +kernel
  unfold Simulation.period
  rw [h]

/-- The simulation of a bridge and a transceiver on two slow clocks. -/
def onSlowClocks (b : BridgeParams) (x : TransceiverParams) (t : Transport) : Simulation :=
  { schedule := .new (.upTo 8192000000000000000) (.upTo 8192000000000000000) .zero
    bridge := .ofParams b, transceiver := .new x, transport := t }

theorem new_onSlowClocks {b : BridgeParams} (hb : Bridge.new b = .ok (.ofParams b))
    (x : TransceiverParams) (t : Transport) :
    Simulation.new { controlClock := slowClock, linkClock := slowClock, bridge := b,
                     transceiver := x } t = .ok (onSlowClocks b x t) :=
  new_eq (period_slowClock .control) (period_slowClock .link) hb t

/-- A run of slow clocks up to the last instant is through with all their edges after six steps,
and never stops making more. -/
theorem run_to_last_never_ends :
    let p : SimulationParams := { controlClock := slowClock, linkClock := slowClock }
    let start := onSlowClocks p.bridge p.transceiver {}
    Simulation.new p {} = .ok start ∧ (start.steps 6).schedule.dueTime = .last ∧
      start.run .last = none ∧ ∀ n, ¬EndsAfter (DueBy (start.now.after .last)) start n := by
  intro p start
  have hpast : Time.lastFs ≤ start.now.fs + Time.last.fs := Nat.le_add_left Time.lastFs _
  have hnone : start.run .last = none := by
    rw [← Option.not_isSome_iff_eq_none, isSome_run_iff]
    exact Nat.not_lt_of_le hpast
  rw [Time.after_eq_last_iff.mpr hpast]
  exact ⟨new_onSlowClocks rfl _ _, by decide +kernel, hnone, start.not_endsAfter_last⟩

/-! ### Runs of control cycles -/

theorem controlCycles_steps (s : Simulation) (n : Nat) :
    (s.steps n).controlCycles =
      s.controlCycles + (s.passed n).countP (·.schedule.due = .control) := by
  induction n with
  | zero => rfl
  | succ n ih =>
    rw [steps_succ, controlCycles_step, ih, passed_succ, List.countP_append, List.countP_singleton,
      Nat.add_assoc]
    simp only [decide_eq_true_eq]

/-- A run of control cycles ends exactly, from every state that a session comes to: so many control
edges, one of them at the end, no step back in time, and never a queue without an edge. -/
theorem cycles_run_exactly (hnew : Simulation.new p t = .ok start)
    (hcontrol : Simulation.period .control p.controlClock = .ok controlPeriod)
    (hlink : Simulation.period .link p.linkClock = .ok linkPeriod) (actions : List Action)
    (count : Nat) :
    let s := start.session actions
    let n := s.edges (.runCycles count)
    let ran := s.passed n
    EndsAfter (ShortOf (s.controlCycles + count)) s n ∧ s.runCycles count = s.steps n ∧
      ran.countP (·.schedule.due = .control) = count ∧
      (count ≠ 0 → ∃ u, ran.getLast? = some u ∧ u.schedule.due = .control) ∧
      (∀ u ∈ ran, u.now.fs ≤ u.step.now.fs) ∧
      ∃ edges left,
        start.served p.linkPhase (clocks controlPeriod linkPeriod) (actions ++ [.runCycles count]) =
          some (edges, left) ∧
        edges.map Edge.event = edgesOf (start.timeline actions ++ ran) := by
  intro s n ran
  obtain ⟨htimely, hperiods⟩ := timely_session hnew hcontrol hlink actions
  have hends : EndsAfter (ShortOf (s.controlCycles + count)) s n :=
    endsAfter_cycles (hperiods .link) count
  obtain ⟨hcount, hlast⟩ := hends.controlCycles_eq
  refine ⟨hends, runCycles_eq s count, ?_, fun hsome => ?_, fun u hu => ?_, ?_⟩
  · rw [controlCycles_steps] at hcount
    exact Nat.add_left_cancel hcount
  · obtain ⟨m, hm, hdue⟩ := hlast hsome
    refine ⟨s.steps m, ?_, hdue⟩
    show (s.passed n).getLast? = _
    rw [hm, passed_succ, List.getLast?_concat]
  · obtain ⟨m, -, rfl⟩ := mem_passed hu
    rw [now_step]
    exact (htimely.steps m).now_le
  · obtain ⟨edges, left, hserved, hevents, -⟩ :=
      served_timeline hnew hcontrol hlink (actions ++ [.runCycles count])
    refine ⟨edges, left, hserved, hevents.trans ?_⟩
    rw [timeline, Trace.gather_append]
    show edgesOf (_ ++ (ran ++ [])) = _
    rw [List.append_nil]
    rfl

/-- Slow clocks with all their edges held back at the last instant, and the link clock halted. -/
theorem cycles_run_exactly_at_last :
    let p : SimulationParams := { controlClock := slowClock, linkClock := slowClock }
    let start := onSlowClocks p.bridge p.transceiver {}
    let s := start.session [.runCycles 4, .halt true]
    let n := s.edges (.runCycles 2)
    let ran := s.passed n
    Simulation.new p {} = .ok start ∧
      Simulation.period .control p.controlClock = .ok (.upTo 8192000000000000000) ∧
      Simulation.period .link p.linkClock = .ok (.upTo 8192000000000000000) ∧
      s.now = .last ∧ n = 4 ∧
      EndsAfter (ShortOf (s.controlCycles + 2)) s n ∧ s.runCycles 2 = s.steps n ∧
      ran.countP (·.schedule.due = .control) = 2 ∧
      (2 ≠ 0 → ∃ u, ran.getLast? = some u ∧ u.schedule.due = .control) ∧
      (∀ u ∈ ran, u.now.fs ≤ u.step.now.fs) ∧
      ∃ edges left,
        start.served .zero (clocks (.upTo 8192000000000000000) (.upTo 8192000000000000000))
          [.runCycles 4, .halt true, .runCycles 2] = some (edges, left) ∧
        edges.map Edge.event = edgesOf (start.timeline [.runCycles 4, .halt true] ++ ran) := by
  intro p start s n ran
  have hnew : Simulation.new p {} = .ok start := new_onSlowClocks rfl _ _
  have hnow : s.now = .last := by decide +kernel
  have hn : n = 4 := by decide +kernel
  exact ⟨hnew, period_slowClock .control, period_slowClock .link, hnow, hn,
    cycles_run_exactly hnew (period_slowClock .control) (period_slowClock .link)
      [.runCycles 4, .halt true] 2⟩

/-! ### Two runs -/

/-- The time that steps find does not matter to them. -/
theorem steps_atTime (s : Simulation) (now later : Time) (n : Nat) :
    { { s with now }.steps n with now := later } = { s.steps n with now := later } := by
  cases n with
  | zero => rfl
  | succ n => rfl

theorem endsAfter_atTime {horizon : Time} (now : Time) :
    EndsAfter (DueBy horizon) { s with now } n ↔ EndsAfter (DueBy horizon) s n := by
  have hdue : ∀ m, DueBy horizon ({ s with now }.steps m) ↔ DueBy horizon (s.steps m) := by
    intro m
    unfold DueBy
    rw [schedule_steps, schedule_steps]
  constructor
  · exact fun h => ⟨fun m hm => (hdue m).mp (h.goes m hm), fun hgo => h.stops ((hdue n).mpr hgo)⟩
  · exact fun h => ⟨fun m hm => (hdue m).mpr (h.goes m hm), fun hgo => h.stops ((hdue n).mp hgo)⟩

section Two

variable {a b : Time}

theorem spans_of_sum (hspan : s.now.fs + a.fs + b.fs < Time.lastFs) :
    s.now.fs + a.fs < Time.lastFs ∧ s.now.fs + (a.after b).fs < Time.lastFs ∧
      (s.act (.run a)).now.fs + b.fs < Time.lastFs := by
  have hfirst : s.now.fs + a.fs < Time.lastFs := by omega
  have hboth : (a.after b).fs = a.fs + b.fs := Time.after_fs_of_le (by omega)
  have hmiddle : (s.now.after a).fs = s.now.fs + a.fs := Time.after_fs_of_le (by omega)
  rw [now_act_run hfirst, hmiddle, hboth, ← Nat.add_assoc]
  exact ⟨hfirst, hspan, hspan⟩

/-- The loop of one run goes on as the loop of the run after it. -/
theorem edges_run_run (hperiods : ∀ d, 0 < (s.schedule.period d).fs)
    (hspan : s.now.fs + a.fs + b.fs < Time.lastFs) :
    s.edges (.run (a.after b)) = s.edges (.run a) + (s.act (.run a)).edges (.run b) := by
  obtain ⟨hfirst, hboth, hsecond⟩ := spans_of_sum hspan
  have hlater : EndsAfter (DueBy ((s.now.after a).after b)) (s.act (.run a))
      ((s.act (.run a)).edges (.run b)) := by
    rw [← now_act_run hfirst]
    refine endsAfter_run (fun d => ?_) hsecond
    rw [schedule_act, Schedule.period_after]
    exact hperiods d
  -- the second run begins at the first one's horizon, not at its last edge, but its loop looks at
  -- the schedule alone
  generalize (s.act (.run a)).edges (.run b) = n at hlater ⊢
  rw [act_run_eq hfirst, endsAfter_atTime] at hlater
  have hwhole := endsAfter_run hperiods hboth
  rw [← Time.after_after] at hwhole
  have hweaker : ∀ u, DueBy (s.now.after a) u → DueBy ((s.now.after a).after b) u :=
    fun _ hu => Nat.le_trans hu (Time.le_after _ _)
  exact hwhole.unique ((endsAfter_run hperiods hfirst).trans hweaker hlater)

/-- Two runs leave what one run leaves. -/
theorem run_run (hperiods : ∀ d, 0 < (s.schedule.period d).fs)
    (hspan : s.now.fs + a.fs + b.fs < Time.lastFs) :
    ∃ u, s.run (a.after b) = some u ∧ (s.run a).bind (·.run b) = some u := by
  obtain ⟨hfirst, hboth, hsecond⟩ := spans_of_sum hspan
  have hmiddle : s.run a = some (s.act (.run a)) := by
    rw [act_run_eq hfirst]
    exact run_eq hfirst
  refine ⟨_, run_eq hboth, ?_⟩
  rw [hmiddle, Option.bind_some, run_eq hsecond, edges_run_run hperiods hspan, now_act_run hfirst,
    Time.after_after, steps_add]
  generalize (s.act (.run a)).edges (.run b) = n
  rw [act_run_eq hfirst, steps_atTime]

end Two

theorem edges_runCycles_runCycles (s : Simulation) (m n : Nat) :
    s.edges (.runCycles (m + n)) =
      s.edges (.runCycles m) + (s.runCycles m).edges (.runCycles n) := by
  rw [edges, Schedule.edgesOfCycles_add, edges, edges, runCycles_eq, schedule_steps]

theorem runCycles_runCycles (s : Simulation) (m n : Nat) :
    (s.runCycles m).runCycles n = s.runCycles (m + n) := by
  rw [runCycles_eq, runCycles_eq, runCycles_eq, ← steps_add, schedule_steps,
    Schedule.edgesOfCycles_add]

/-- Two runs in a row, for spans or for counts of control cycles, are one run: they leave the same
state with the same recording in it, and the same edges have been served from the queue and wait in
it. -/
theorem runs_compose (hnew : Simulation.new p t = .ok start)
    (hcontrol : Simulation.period .control p.controlClock = .ok controlPeriod)
    (hlink : Simulation.period .link p.linkClock = .ok linkPeriod) (actions : List Action) :
    let s := start.session actions
    let queue (rest : List Action) :=
      start.served p.linkPhase (clocks controlPeriod linkPeriod) (actions ++ rest)
    (∀ a b : Time, s.now.fs + a.fs + b.fs < Time.lastFs →
        (∃ u, s.run (a.after b) = some u ∧ (s.run a).bind (·.run b) = some u) ∧
          queue [.run a, .run b] = queue [.run (a.after b)]) ∧
      ∀ m n, (s.runCycles m).runCycles n = s.runCycles (m + n) ∧
        queue [.runCycles m, .runCycles n] = queue [.runCycles (m + n)] := by
  intro s queue
  obtain ⟨-, hperiods⟩ := timely_session hnew hcontrol hlink actions
  constructor
  · intro a b hspan
    exact ⟨run_run hperiods hspan, served_pair (edges_run_run hperiods hspan)⟩
  · intro m n
    exact ⟨s.runCycles_runCycles m n, served_pair (s.edges_runCycles_runCycles m n)⟩

/-- Two runs with a recording, the first of which stops right on a control edge. -/
theorem runs_compose_on_edge :
    let p : SimulationParams := {}
    let start := onDefaultClocks p.bridge p.transceiver {}
    let s := start.session [.attach, .step]
    let queue (rest : List Action) :=
      start.served p.linkPhase (clocks (.upTo 8000000) (.upTo 16276042)) ([.attach, .step] ++ rest)
    let a := Time.upTo 8000000
    let b := Time.upTo 10000000
    Simulation.new p {} = .ok start ∧
      Simulation.period .control p.controlClock = .ok (.upTo 8000000) ∧
      Simulation.period .link p.linkClock = .ok (.upTo 16276042) ∧
      s.now.fs + a.fs + b.fs < Time.lastFs ∧
      (∃ u, s.run (a.after b) = some u ∧ (s.run a).bind (·.run b) = some u) ∧
      queue [.run a, .run b] = queue [.run (a.after b)] ∧
      (s.runCycles 2).runCycles 3 = s.runCycles (2 + 3) ∧
      queue [.runCycles 2, .runCycles 3] = queue [.runCycles (2 + 3)] := by
  intro p start s queue a b
  have hnew : Simulation.new p {} = .ok start := new_onDefaultClocks rfl _ _
  have hspan : s.now.fs + a.fs + b.fs < Time.lastFs := by decide +kernel
  obtain ⟨hspans, hcounts⟩ :=
    runs_compose hnew period_controlClock period_linkClock [.attach, .step]
  obtain ⟨hrun, hqueue⟩ := hspans a b hspan
  exact ⟨hnew, period_controlClock, period_linkClock, hspan, hrun, hqueue, hcounts 2 3⟩

end LinkBridge.Simulation
