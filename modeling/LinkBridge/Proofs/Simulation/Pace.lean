import LinkBridge.Proofs.Simulation.EdgeTimes
import LinkBridge.Proofs.Transceiver

/-!
The pace of the two clocks.

The simulation always runs the earlier of two pending edges, so neither clock gets ahead of the
other by more than one of its own periods (`Paced.control_pace`, `Paced.link_pace`).  What is asked
for as a number of cycles of one domain can therefore be counted in cycles of the other: a count of
control cycles brings as many link cycles as fit into its time, but one.  `runCycles` runs as many
control edges as it is asked for, since its bound on the link edges before each is never reached.
-/

namespace LinkBridge

namespace Schedule

variable {s : Schedule}

theorem dueTime_of_control (h : s.due = .control) : s.dueTime = s.controlNext := by
  unfold dueTime
  rw [h]
  rfl

theorem dueTime_of_link (h : s.due = .link) : s.dueTime = s.linkNext := by
  unfold dueTime
  rw [h]
  rfl

theorem linkNext_le_of_due (h : s.due = .link) : s.linkNext.fs ≤ s.controlNext.fs := by
  rw [← dueTime_of_link h]
  exact s.dueTime_le_pending .control

theorem due_of_lt (h : s.controlNext.fs < s.linkNext.fs) : s.due = .control := if_pos h

theorem advance_of_control (h : s.due = .control) :
    s.advance = { s with controlNext := s.controlNext.after s.controlPeriod, turn := .link } := by
  unfold advance
  rw [h]

theorem advance_of_link (h : s.due = .link) :
    s.advance = { s with linkNext := s.linkNext.after s.linkPeriod, turn := .control } := by
  unfold advance
  rw [h]

/-- After a link edge the control edge is due, unless the next link edge is earlier. -/
theorem due_or_lt_of_link (h : s.due = .link) :
    s.advance.due = .control ∨ (s.linkNext.after s.linkPeriod).fs < s.controlNext.fs := by
  rw [advance_of_link h]
  by_cases hlt : (s.linkNext.after s.linkPeriod).fs < s.controlNext.fs
  · exact .inr hlt
  · left
    unfold due
    dsimp only
    rw [if_neg hlt]
    exact ite_self _

theorem edgesToControl_of_control (h : s.due = .control) (n : Nat) : s.edgesToControl n = 1 := by
  cases n with
  | zero => rfl
  | succ n =>
    unfold edgesToControl
    rw [h]

/-- The edges up to the next control edge are link edges and then this one. -/
theorem edgesToControl_spec (hperiod : 0 < s.linkPeriod.fs) {n : Nat}
    (hn : edgesUpTo s.linkNext s.linkPeriod s.controlNext ≤ n) :
    ∃ links, s.edgesToControl n = links + 1 ∧ (∀ j < links, (s.after j).due = .link) ∧
      (s.after links).due = .control := by
  induction n generalizing s with
  | zero =>
    have hlt := edgesUpTo_eq_zero (Nat.le_zero.mp hn)
    exact ⟨0, rfl, fun j hj => absurd hj (Nat.not_lt_zero j), due_of_lt hlt⟩
  | succ n ih =>
    cases hdue : s.due with
    | control =>
      exact ⟨0, edgesToControl_of_control hdue _, fun j hj => absurd hj (Nat.not_lt_zero j), hdue⟩
    | link =>
      have hunfold : s.edgesToControl (n + 1) = s.advance.edgesToControl n + 1 := by
        rw [edgesToControl, hdue]
      have hcons : ∀ links, (∀ j < links, (s.advance.after j).due = .link) →
          ∀ j < links + 1, (s.after j).due = .link := by
        intro links hlinks j hj
        cases j with
        | zero => exact hdue
        | succ j => exact hlinks j (Nat.lt_of_succ_lt_succ hj)
      rcases due_or_lt_of_link hdue with hcontrol | hlt
      · refine ⟨1, ?_, hcons 0 fun j hj => absurd hj (Nat.not_lt_zero j), hcontrol⟩
        rw [hunfold, edgesToControl_of_control hcontrol]
      · have hadvance := advance_of_link hdue
        have hsaturated : s.controlNext.fs ≤ Time.lastFs := s.controlNext.le_last
        have hafter := Time.after_fs s.linkNext s.linkPeriod
        have hedges : edgesUpTo s.advance.linkNext s.advance.linkPeriod s.advance.controlNext ≤ n := by
          rw [hadvance]
          show edgesUpTo (s.linkNext.after s.linkPeriod) s.linkPeriod s.controlNext ≤ n
          unfold edgesUpTo at hn ⊢
          rw [if_pos (linkNext_le_of_due hdue)] at hn
          rw [if_pos (Nat.le_of_lt hlt)]
          have hdiv := Nat.div_eq_sub_div hperiod
            (show s.linkPeriod.fs ≤ s.controlNext.fs - s.linkNext.fs by omega)
          have hnext : (s.linkNext.after s.linkPeriod).fs = s.linkNext.fs + s.linkPeriod.fs := by
            omega
          rw [hnext, ← Nat.sub_sub]
          omega
        obtain ⟨links, hedge, hlinks, hlast⟩ := ih (s := s.advance) (by rw [hadvance]; exact hperiod)
          hedges
        refine ⟨links + 1, ?_, hcons links hlinks, hlast⟩
        rw [hunfold, hedge]

end Schedule

namespace Simulation

variable {s : Simulation} {controlPeriod linkPeriod phase : Time} {n : Nat}

/-- A count that grows by no more than one in a step comes to each number on its way. -/
theorem exists_steps {f : Simulation → Nat} (hf : ∀ u, f u.step ≤ f u + 1) {count : Nat}
    (h : f s + count ≤ f (s.steps n)) : ∃ m ≤ n, f (s.steps m) = f s + count := by
  induction n with
  | zero => exact ⟨0, Nat.le_refl 0, Nat.le_antisymm (Nat.le_add_right _ _) h⟩
  | succ n ih =>
    by_cases hle : f s + count ≤ f (s.steps n)
    · obtain ⟨m, hm, heq⟩ := ih hle
      exact ⟨m, Nat.le_succ_of_le hm, heq⟩
    · have hone := hf (s.steps n)
      rw [steps_succ] at h
      refine ⟨n + 1, Nat.le_refl _, ?_⟩
      rw [steps_succ]
      omega

/-! ### The time of the last edge -/

theorem dueTime_le_now (s : Simulation) (n : Nat) :
    s.schedule.dueTime.fs ≤ (s.steps (n + 1)).now.fs := by
  induction n generalizing s with
  | zero =>
    show _ ≤ s.step.now.fs
    rw [now_step]
  | succ n ih =>
    have hnext := ih s.step
    rw [schedule_step] at hnext
    exact Nat.le_trans s.schedule.dueTime_le_advance hnext

theorem dueTime_le_now_of_mem {u : Simulation} (h : u ∈ s.passed n) :
    u.schedule.dueTime.fs ≤ (s.steps n).now.fs := by
  obtain ⟨m, hm, rfl⟩ := mem_passed h
  obtain ⟨k, rfl⟩ : ∃ k, n = m + (k + 1) := ⟨n - m - 1, by omega⟩
  rw [steps_add]
  exact dueTime_le_now _ k

theorem now_steps_le {instant : Nat} (hs : s.now.fs ≤ instant)
    (h : ∀ u ∈ s.passed n, u.schedule.dueTime.fs ≤ instant) : (s.steps n).now.fs ≤ instant := by
  cases n with
  | zero => exact hs
  | succ n =>
    rw [steps_succ, now_step]
    exact h _ (s.steps_mem_passed (Nat.lt_succ_self n))

/-! ### A link clock that runs -/

/-- Whether link edges are link cycles. -/
def clocked (s : Simulation) : Bool := !s.halted && s.transceiver.clockRunning s.bridge.pins

theorem runsLink_of_clocked (h : s.clocked = true) (hdue : s.schedule.due = .link) :
    s.runsLink = true := by
  unfold runsLink
  rw [hdue]
  exact h

theorem runsLink_of_unclocked (h : s.clocked = false) : s.runsLink = false := by
  unfold runsLink
  rw [show (!s.halted && s.transceiver.clockRunning s.bridge.pins) = false from h, Bool.and_false]

theorem clocked_step (s : Simulation) : s.step.clocked = s.clocked := by
  have hparams : s.exchange.1.params = s.transceiver.params :=
    (s.transceiver.tick_keeps _ _ _ _).1
  cases hdue : s.schedule.due with
  | control =>
    obtain ⟨r, hr⟩ := step_control hdue
    rw [hr]
    rfl
  | link =>
    obtain ⟨r, hr⟩ := step_link hdue
    rw [hr]
    cases s.runsLink with
    | false => rfl
    | true =>
      unfold clocked Transceiver.clockRunning
      simp only [if_true, hparams]
      rfl

theorem clocked_steps (s : Simulation) (n : Nat) : (s.steps n).clocked = s.clocked := by
  induction n with
  | zero => rfl
  | succ n ih => rw [steps_succ, clocked_step, ih]

/-! ### Both clocks -/

/-- Both clocks wait for edges to come, the control clock no longer than its period. -/
structure Timely (controlPeriod linkPeriod : Time) (s : Simulation) : Prop where
  controlPeriod_eq : s.schedule.controlPeriod = controlPeriod
  linkPeriod_eq : s.schedule.linkPeriod = linkPeriod
  now_le : s.now.fs ≤ s.schedule.dueTime.fs
  controlNext_le : s.schedule.controlNext.fs ≤ s.now.fs + controlPeriod.fs

/-- All link edges are link cycles, and the counts of cycles say which edges the clocks wait for. -/
structure Paced (controlPeriod linkPeriod phase : Time) (s : Simulation) : Prop
    extends Timely controlPeriod linkPeriod s where
  controlNext_eq : s.schedule.controlNext.fs =
    min (s.controlCycles * controlPeriod.fs) Time.lastFs
  linkNext_eq : s.schedule.linkNext.fs =
    min (phase.fs + s.linkCycles * linkPeriod.fs) Time.lastFs
  control_le : s.controlCycles * controlPeriod.fs ≤ s.now.fs + controlPeriod.fs
  link_le : s.linkCycles ≠ 0 → phase.fs + s.linkCycles * linkPeriod.fs ≤ s.now.fs + linkPeriod.fs

namespace Timely

theorem congr (h : Timely controlPeriod linkPeriod s) {u : Simulation} (hnow : u.now = s.now)
    (hschedule : u.schedule = s.schedule) : Timely controlPeriod linkPeriod u := by
  constructor
  · exact hschedule ▸ h.controlPeriod_eq
  · exact hschedule ▸ h.linkPeriod_eq
  · rw [hnow, hschedule]
    exact h.now_le
  · rw [hnow, hschedule]
    exact h.controlNext_le

theorem now_le_control (h : Timely controlPeriod linkPeriod s) :
    s.now.fs ≤ s.schedule.controlNext.fs :=
  Nat.le_trans h.now_le (s.schedule.dueTime_le_pending .control)

theorem now_le_link (h : Timely controlPeriod linkPeriod s) :
    s.now.fs ≤ s.schedule.linkNext.fs :=
  Nat.le_trans h.now_le (s.schedule.dueTime_le_pending .link)

theorem step (h : Timely controlPeriod linkPeriod s) : Timely controlPeriod linkPeriod s.step := by
  have hnow := h.now_le
  have hperiods : ∀ d, s.step.schedule.period d = s.schedule.period d := fun d => by
    rw [schedule_step, Schedule.period_advance]
  refine ⟨(hperiods .control).trans h.controlPeriod_eq, (hperiods .link).trans h.linkPeriod_eq,
    ?_, ?_⟩
  · rw [now_step, schedule_step]
    exact s.schedule.dueTime_le_advance
  · rw [now_step, schedule_step]
    cases hdue : s.schedule.due with
    | control =>
      rw [Schedule.advance_of_control hdue, Schedule.dueTime_of_control hdue, ← h.controlPeriod_eq]
      exact Nat.min_le_left _ _
    | link =>
      rw [Schedule.advance_of_link hdue]
      exact Nat.le_trans h.controlNext_le (Nat.add_le_add_right hnow _)

theorem steps (h : Timely controlPeriod linkPeriod s) (n : Nat) :
    Timely controlPeriod linkPeriod (s.steps n) := by
  induction n with
  | zero => exact h
  | succ n ih =>
    rw [steps_succ]
    exact ih.step

end Timely

namespace Paced

theorem start {p : SimulationParams} {t : Transport} (hnew : Simulation.new p t = .ok s)
    (hcontrol : Simulation.period .control p.controlClock = .ok controlPeriod)
    (hlink : Simulation.period .link p.linkClock = .ok linkPeriod) :
    Paced controlPeriod linkPeriod p.linkPhase s := by
  obtain ⟨cp, lp, hcp, hlp, -, rfl⟩ := eq_of_new hnew
  obtain rfl := Except.ok.inj (hcontrol.symm.trans hcp)
  obtain rfl := Except.ok.inj (hlink.symm.trans hlp)
  have hlast := p.linkPhase.le_last
  refine ⟨⟨rfl, rfl, Nat.zero_le _, Nat.zero_le _⟩, ?_, ?_, ?_, fun h => absurd rfl h⟩
  · show 0 = min (0 * controlPeriod.fs) Time.lastFs
    omega
  · show p.linkPhase.fs = min (p.linkPhase.fs + 0 * linkPeriod.fs) Time.lastFs
    omega
  · show 0 * controlPeriod.fs ≤ 0 + controlPeriod.fs
    omega

theorem congr (h : Paced controlPeriod linkPeriod phase s) {u : Simulation}
    (hnow : u.now = s.now) (hschedule : u.schedule = s.schedule)
    (hcontrol : u.controlCycles = s.controlCycles) (hlink : u.linkCycles = s.linkCycles) :
    Paced controlPeriod linkPeriod phase u := by
  refine ⟨h.toTimely.congr hnow hschedule, ?_, ?_, ?_, ?_⟩
  · rw [hschedule, hcontrol]
    exact h.controlNext_eq
  · rw [hschedule, hlink]
    exact h.linkNext_eq
  · rw [hnow, hcontrol]
    exact h.control_le
  · rw [hnow, hlink]
    exact h.link_le

/-- The control clock is not ahead of the link clock by more than its period. -/
theorem control_pace (h : Paced controlPeriod linkPeriod phase s) :
    s.controlCycles * controlPeriod.fs ≤
      phase.fs + s.linkCycles * linkPeriod.fs + controlPeriod.fs := by
  have hcontrol := h.control_le
  have hnow := h.now_le_link
  have hlink := h.linkNext_eq
  omega

/-- The link clock is not ahead of the control clock by more than its period. -/
theorem link_pace (h : Paced controlPeriod linkPeriod phase s) (hsome : s.linkCycles ≠ 0) :
    phase.fs + s.linkCycles * linkPeriod.fs ≤
      s.controlCycles * controlPeriod.fs + linkPeriod.fs := by
  have hlink := h.link_le hsome
  have hnow := h.now_le_control
  have hcontrol := h.controlNext_eq
  omega

theorem step (h : Paced controlPeriod linkPeriod phase s) (hclocked : s.clocked = true)
    (hlast : s.schedule.dueTime.fs < Time.lastFs) :
    Paced controlPeriod linkPeriod phase s.step := by
  have hnow := h.now_le
  have hnext := h.toTimely.step
  have hcontrolNext := h.controlNext_eq
  have hlinkNext := h.linkNext_eq
  cases hdue : s.schedule.due with
  | control =>
    obtain ⟨r, hr⟩ := step_control hdue
    have hdueTime := Schedule.dueTime_of_control hdue
    rw [hr, hdueTime, Schedule.advance_of_control hdue] at hnext ⊢
    rw [hdueTime] at hlast hnow
    have hafter := Time.after_fs s.schedule.controlNext s.schedule.controlPeriod
    have hperiod := congrArg Time.fs h.controlPeriod_eq
    have hlink := h.link_le
    refine ⟨hnext, ?_, hlinkNext, ?_, fun hsome => ?_⟩
    · show (s.schedule.controlNext.after s.schedule.controlPeriod).fs =
        min ((s.controlCycles + 1) * controlPeriod.fs) Time.lastFs
      rw [Nat.succ_mul]
      omega
    · show (s.controlCycles + 1) * controlPeriod.fs ≤
        s.schedule.controlNext.fs + controlPeriod.fs
      rw [Nat.succ_mul]
      omega
    · have hsome := hlink hsome
      show _ ≤ s.schedule.controlNext.fs + linkPeriod.fs
      show phase.fs + s.linkCycles * linkPeriod.fs ≤ _
      omega
  | link =>
    obtain ⟨r, hr⟩ := step_link hdue
    have hruns := runsLink_of_clocked hclocked hdue
    have hdueTime := Schedule.dueTime_of_link hdue
    rw [hr, hdueTime, hruns, Schedule.advance_of_link hdue] at hnext ⊢
    rw [hdueTime] at hlast hnow
    have hafter := Time.after_fs s.schedule.linkNext s.schedule.linkPeriod
    have hperiod := congrArg Time.fs h.linkPeriod_eq
    have hcontrol := h.control_le
    refine ⟨hnext, hcontrolNext, ?_, ?_, fun _ => ?_⟩
    · show (s.schedule.linkNext.after s.schedule.linkPeriod).fs =
        min (phase.fs + (s.linkCycles + 1) * linkPeriod.fs) Time.lastFs
      rw [Nat.succ_mul]
      omega
    · show s.controlCycles * controlPeriod.fs ≤ s.schedule.linkNext.fs + controlPeriod.fs
      omega
    · show phase.fs + (s.linkCycles + 1) * linkPeriod.fs ≤
        s.schedule.linkNext.fs + linkPeriod.fs
      rw [Nat.succ_mul]
      omega

theorem steps (h : Paced controlPeriod linkPeriod phase s) (hclocked : s.clocked = true)
    (hlast : ∀ u ∈ s.passed n, u.schedule.dueTime.fs < Time.lastFs) :
    Paced controlPeriod linkPeriod phase (s.steps n) := by
  induction n with
  | zero => exact h
  | succ n ih =>
    rw [passed_succ] at hlast
    obtain ⟨hearlier, hnow⟩ := List.forall_mem_append.mp hlast
    rw [steps_succ]
    exact (ih hearlier).step ((s.clocked_steps n).trans hclocked)
      (hnow _ (List.mem_singleton_self _))

/-- How many control cycles it takes at most until so many link cycles have gone by, if the link
clock is behind by no more than a lead. -/
theorem exists_link (h : Paced controlPeriod linkPeriod phase s) (hclocked : s.clocked = true)
    (hperiod : 0 < linkPeriod.fs) (hlast : ∀ u ∈ s.passed n, u.schedule.dueTime.fs < Time.lastFs)
    {lead : Nat} (count : Nat)
    (hlead : phase.fs + s.linkCycles * linkPeriod.fs ≤ s.controlCycles * controlPeriod.fs + lead)
    (hroom : s.controlCycles * controlPeriod.fs + lead + count * linkPeriod.fs + controlPeriod.fs ≤
      (s.steps n).controlCycles * controlPeriod.fs) :
    ∃ j ≤ n, (s.steps j).linkCycles = s.linkCycles + count ∧
      (s.steps j).controlCycles * controlPeriod.fs ≤
        s.controlCycles * controlPeriod.fs + lead + count * linkPeriod.fs + controlPeriod.fs := by
  have hreached : s.linkCycles + count ≤ (s.steps n).linkCycles := by
    by_contra hfew
    have hpace := (h.steps hclocked hlast).control_pace
    have hless := Nat.mul_le_mul_right linkPeriod.fs
      (show (s.steps n).linkCycles + 1 ≤ s.linkCycles + count by omega)
    rw [Nat.succ_mul, Nat.add_mul] at hless
    omega
  obtain ⟨j, hj, hcount⟩ := exists_steps
    (f := (·.linkCycles)) (fun u => by rw [linkCycles_step]; split <;> omega) hreached
  have hearlier : ∀ u ∈ s.passed j, u.schedule.dueTime.fs < Time.lastFs := by
    intro u hu
    obtain ⟨i, hi, rfl⟩ := mem_passed hu
    exact hlast _ (s.steps_mem_passed (Nat.lt_of_lt_of_le hi hj))
  have hpace := (h.steps hclocked hearlier).control_pace
  rw [hcount, Nat.add_mul] at hpace
  exact ⟨j, hj, hcount, by omega⟩

end Paced

/-! ### Counts of control cycles -/

/-- The edges up to the next control cycle are link edges and then this one. -/
theorem stepControl_spec (hperiod : 0 < s.schedule.linkPeriod.fs) :
    ∃ links, s.schedule.edgesToControl s.schedule.linkEdgesBefore = links + 1 ∧
      (∀ j < links, (s.steps j).schedule.due = .link) ∧
      (s.steps links).schedule.due = .control := by
  obtain ⟨links, hedges, hlinks, hcontrol⟩ :=
    s.schedule.edgesToControl_spec (n := s.schedule.linkEdgesBefore) hperiod (Nat.le_succ _)
  refine ⟨links, hedges, fun j hj => ?_, ?_⟩
  · rw [schedule_steps]
    exact hlinks j hj
  · rw [schedule_steps]
    exact hcontrol

/-- Link edges leave the pending control edge and the count of control cycles alone. -/
theorem control_steps {links : Nat} (h : ∀ j < links, (s.steps j).schedule.due = .link) :
    (s.steps links).controlCycles = s.controlCycles ∧
      (s.steps links).schedule.controlNext = s.schedule.controlNext := by
  induction links with
  | zero => exact ⟨rfl, rfl⟩
  | succ links ih =>
    obtain ⟨hcycles, hnext⟩ := ih fun j hj => h j (Nat.lt_succ_of_lt hj)
    have hdue := h links (Nat.lt_succ_self links)
    rw [steps_succ]
    constructor
    · rw [controlCycles_step, hdue, hcycles]
      rfl
    · rw [schedule_step, Schedule.advance_of_link hdue]
      exact hnext

theorem linkPeriod_steps (s : Simulation) (n : Nat) :
    (s.steps n).schedule.linkPeriod = s.schedule.linkPeriod := by
  rw [schedule_steps]
  exact s.schedule.period_after n .link

/-- Control cycles are missing up to a count. -/
def ShortOf (count : Nat) (s : Simulation) : Prop := s.controlCycles < count

/-- A loop up to a count of control cycles overshoots it by none, and a control cycle is the last
thing that it runs. -/
theorem EndsAfter.controlCycles_eq {count : Nat}
    (h : EndsAfter (ShortOf (s.controlCycles + count)) s n) :
    (s.steps n).controlCycles = s.controlCycles + count ∧
      (count ≠ 0 → ∃ m, n = m + 1 ∧ (s.steps m).schedule.due = .control) := by
  have hstops : s.controlCycles + count ≤ (s.steps n).controlCycles := Nat.le_of_not_lt h.stops
  cases n with
  | zero =>
    have hcount : count = 0 := Nat.le_zero.mp (Nat.le_of_add_le_add_left hstops)
    exact ⟨by rw [hcount]; rfl, fun hsome => absurd hcount hsome⟩
  | succ n =>
    have hgoes : (s.steps n).controlCycles < s.controlCycles + count :=
      h.goes n (Nat.lt_succ_self n)
    have hlast := (s.steps n).controlCycles_step
    rw [steps_succ] at hstops ⊢
    cases hdue : (s.steps n).schedule.due with
    | control =>
      rw [hdue, if_pos rfl] at hlast
      exact ⟨by omega, fun _ => ⟨n, rfl, hdue⟩⟩
    | link =>
      rw [hdue, if_neg (by decide)] at hlast
      omega

theorem endsAfter_control (hperiod : 0 < s.schedule.linkPeriod.fs) :
    EndsAfter (ShortOf (s.controlCycles + 1)) s
      (s.schedule.edgesToControl s.schedule.linkEdgesBefore) := by
  obtain ⟨links, hedges, hlinks, hcontrol⟩ := stepControl_spec hperiod
  rw [hedges]
  constructor
  · intro m hm
    have hsame : (s.steps m).controlCycles = s.controlCycles :=
      (control_steps fun j hj => hlinks j (by omega)).1
    rw [ShortOf, hsame]
    exact Nat.lt_succ_self _
  · rw [ShortOf, steps_succ, controlCycles_step, hcontrol, (control_steps hlinks).1]
    exact Nat.lt_irrefl _

/-- The loop of a run of control cycles ends after the edges that were counted. -/
theorem endsAfter_cycles (hperiod : 0 < s.schedule.linkPeriod.fs) (count : Nat) :
    EndsAfter (ShortOf (s.controlCycles + count)) s (s.edges (.runCycles count)) := by
  induction count generalizing s with
  | zero => exact ⟨fun m hm => absurd hm (Nat.not_lt_zero m), Nat.lt_irrefl _⟩
  | succ count ih =>
    have hfirst := endsAfter_control hperiod
    have hlater := ih (s := s.steps (s.schedule.edgesToControl s.schedule.linkEdgesBefore))
      (by rw [linkPeriod_steps]; exact hperiod)
    rw [hfirst.controlCycles_eq.1] at hlater
    have hcount : s.controlCycles + 1 + count = s.controlCycles + (count + 1) := by omega
    rw [hcount] at hlater
    have hweaker : ∀ u, ShortOf (s.controlCycles + 1) u →
        ShortOf (s.controlCycles + (count + 1)) u :=
      fun _ hu => Nat.lt_of_lt_of_le hu (by omega)
    have hboth := hfirst.trans hweaker hlater
    rw [edges, schedule_steps] at hboth
    exact hboth

/-- A run of control cycles runs exactly so many. -/
theorem controlCycles_runCycles (hperiod : 0 < s.schedule.linkPeriod.fs) (count : Nat) :
    (s.runCycles count).controlCycles = s.controlCycles + count := by
  rw [runCycles_eq]
  exact (endsAfter_cycles hperiod count).controlCycles_eq.1

/-! ### Runs of paced simulations -/

theorem linkCycles_act (s : Simulation) (a : Action) :
    (s.act a).linkCycles = (s.steps (s.edges a)).linkCycles := by
  rw [act_eq]
  exact (conclude_keeps _ _ _).2.2.2

namespace Timely

theorem periods (h : Timely controlPeriod linkPeriod s)
    (hperiods : 0 < controlPeriod.fs ∧ 0 < linkPeriod.fs) (d : Domain) :
    0 < (s.schedule.period d).fs := by
  cases d with
  | control =>
    show 0 < s.schedule.controlPeriod.fs
    rw [h.controlPeriod_eq]
    exact hperiods.1
  | link =>
    show 0 < s.schedule.linkPeriod.fs
    rw [h.linkPeriod_eq]
    exact hperiods.2

/-- Control cycles take no more time than their periods. -/
theorem runCycles (h : Timely controlPeriod linkPeriod s) (hperiod : 0 < linkPeriod.fs)
    (count : Nat) :
    Timely controlPeriod linkPeriod (s.runCycles count) ∧
      (s.runCycles count).now.fs ≤ s.now.fs + count * controlPeriod.fs := by
  induction count generalizing s with
  | zero => exact ⟨h, Nat.le_add_right _ _⟩
  | succ count ih =>
    obtain ⟨links, hedges, hlinks, hcontrol⟩ :=
      stepControl_spec (s := s) (by rw [h.linkPeriod_eq]; exact hperiod)
    have hone : s.stepControl s.schedule.linkEdgesBefore = s.steps (links + 1) := by
      rw [stepControl_eq, hedges]
    have hnow : (s.steps (links + 1)).now.fs ≤ s.now.fs + controlPeriod.fs := by
      rw [steps_succ, now_step, Schedule.dueTime_of_control hcontrol, (control_steps hlinks).2]
      exact h.controlNext_le
    obtain ⟨hlater, hle⟩ := ih (h.steps (links + 1))
    rw [Simulation.runCycles, hone]
    refine ⟨hlater, ?_⟩
    rw [Nat.succ_mul]
    omega

theorem run (h : Timely controlPeriod linkPeriod s)
    (hperiods : 0 < controlPeriod.fs ∧ 0 < linkPeriod.fs) {span : Time}
    (hlast : s.now.fs + span.fs < Time.lastFs) :
    (s.run span).isSome ∧ Timely controlPeriod linkPeriod (s.act (.run span)) ∧
      (s.act (.run span)).now.fs = s.now.fs + span.fs := by
  have hfs : (s.now.after span).fs = s.now.fs + span.fs := Time.after_fs_of_le (by omega)
  have hsome : (s.run span).isSome := isSome_run_iff.mpr hlast
  obtain ⟨n, hact, hpassed, hdue⟩ := act_run (h.periods hperiods) hsome
  have hsteps := h.steps n
  have hnow : (s.steps n).now.fs ≤ s.now.fs + span.fs :=
    now_steps_le (Nat.le_add_right _ _) hpassed
  have hcontrol := hsteps.controlNext_le
  rw [hact]
  refine ⟨hsome, ⟨hsteps.controlPeriod_eq, hsteps.linkPeriod_eq, ?_, ?_⟩, hfs⟩
  · show (s.now.after span).fs ≤ (s.steps n).schedule.dueTime.fs
    omega
  · show (s.steps n).schedule.controlNext.fs ≤ (s.now.after span).fs + controlPeriod.fs
    omega

end Timely

namespace Paced

theorem runCycles (h : Paced controlPeriod linkPeriod phase s) (hclocked : s.clocked = true)
    {count : Nat} (hnow : (s.runCycles count).now.fs < Time.lastFs) :
    Paced controlPeriod linkPeriod phase (s.runCycles count) := by
  rw [runCycles_eq] at hnow ⊢
  exact h.steps hclocked fun u hu => Nat.lt_of_le_of_lt (dueTime_le_now_of_mem hu) hnow

/-- A run that comes back has had the link cycles that fit into its span. -/
theorem run (h : Paced controlPeriod linkPeriod phase s) (hclocked : s.clocked = true)
    (hperiods : 0 < controlPeriod.fs ∧ 0 < linkPeriod.fs) {span : Time}
    (hsome : (s.run span).isSome) :
    Paced controlPeriod linkPeriod phase (s.act (.run span)) ∧
      (s.linkCycles ≠ 0 → s.linkCycles * linkPeriod.fs + span.fs <
        ((s.act (.run span)).linkCycles + 1) * linkPeriod.fs) := by
  have hlast := isSome_run_iff.mp hsome
  obtain ⟨-, htimely, hfs⟩ := h.toTimely.run hperiods hlast
  obtain ⟨n, hact, hpassed, hdue⟩ := act_run (h.toTimely.periods hperiods) hsome
  have hsteps := h.steps hclocked fun u hu => Nat.lt_of_le_of_lt (hpassed u hu) hlast
  have hnow : (s.steps n).now.fs ≤ s.now.fs + span.fs :=
    now_steps_le (Nat.le_add_right _ _) hpassed
  have hcontrol := hsteps.control_le
  have hlink := hsteps.link_le
  rw [hact] at hfs htimely ⊢
  have hfs : (s.now.after span).fs = s.now.fs + span.fs := hfs
  refine ⟨⟨htimely, hsteps.controlNext_eq, hsteps.linkNext_eq, ?_, fun hsome => ?_⟩,
    fun hsome => ?_⟩
  · show (s.steps n).controlCycles * controlPeriod.fs ≤ (s.now.after span).fs + controlPeriod.fs
    omega
  · have hle := hlink hsome
    show phase.fs + (s.steps n).linkCycles * linkPeriod.fs ≤
      (s.now.after span).fs + linkPeriod.fs
    omega
  · have hbegin := h.link_le hsome
    have hnext := hsteps.linkNext_eq
    have hpending : (s.steps n).schedule.dueTime.fs ≤ (s.steps n).schedule.linkNext.fs :=
      (s.steps n).schedule.dueTime_le_pending .link
    show s.linkCycles * linkPeriod.fs + span.fs < ((s.steps n).linkCycles + 1) * linkPeriod.fs
    rw [Nat.succ_mul]
    omega

end Paced
end Simulation
end LinkBridge
