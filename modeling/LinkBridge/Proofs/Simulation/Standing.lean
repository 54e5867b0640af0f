import LinkBridge.Proofs.Bridge.Setting
import LinkBridge.Proofs.Crossing.Settling
import LinkBridge.Proofs.Simulation.Operations
import LinkBridge.Proofs.Simulation.Pace

/-!
Settings that stand, and an error count that stands still.

A setting written before the first edge is on its way from the first control cycle on, and no link
cycle comes before that one.  So with each link cycle one more register of its chain holds it
(`Setting.Stands`), and after as many as there are stages, but one, the link side works under it.

The error count goes the other way by a handshake.  `Shown` ties the register to the crossing, whose
ticks are the steps of the simulation, and a count that has stopped is read once the cycles of a
handshake have gone by (`errors_settled`).
-/

namespace LinkBridge

open Crossing Simulation

variable {s : Simulation} {stages n : Nat}

namespace Setting

variable {γ : Type} {setting : Setting γ} {v : γ}

/-- A setting that has been the same since before the first edge. -/
structure Stands (setting : Setting γ) (stages : Nat) (v : γ) (s : Simulation) : Prop where
  value_eq : setting.value s.bridge.control = v
  source_eq : s.schedule.due = .link → (setting.crossing s.bridge.crossings).source = v
  stages_pos : 0 < stages
  stages_eq : (setting.crossing s.bridge.crossings).stages = stages
  filled : (setting.crossing s.bridge.crossings).FilledTo s.linkCycles v

namespace Stands

theorem start (hvalue : setting.value s.bridge.control = v) (hdue : s.schedule.due = .control)
    (hcycles : s.linkCycles = 0) (hpos : 0 < stages)
    (hstages : (setting.crossing s.bridge.crossings).stages = stages) :
    setting.Stands stages v s := by
  refine ⟨hvalue, fun hlink => ?_, hpos, hstages, ?_⟩
  · rw [hdue] at hlink
    exact nomatch hlink
  · rw [hcycles]
    exact fun u hu => nomatch hu

theorem step (h : setting.Stands stages v s) : setting.Stands stages v s.step := by
  cases hdue : s.schedule.due with
  | control =>
    obtain ⟨r, hr⟩ := step_control hdue
    have hcrossing := setting.crossing_tickControl s.bridge s.transport
    rw [hr]
    refine ⟨?_, fun _ => ?_, h.stages_pos, ?_, ?_⟩
    · rw [setting.value_tickControl]
      exact h.value_eq
    · rw [hcrossing]
      exact h.value_eq
    · rw [hcrossing, Chain.stages_drive]
      exact h.stages_eq
    · rw [hcrossing]
      exact h.filled
  | link =>
    obtain ⟨r, hr⟩ := step_link hdue
    have hsource := h.source_eq hdue
    rw [hr]
    cases hruns : s.runsLink with
    | false => exact ⟨h.value_eq, fun _ => hsource, h.stages_pos, h.stages_eq, h.filled⟩
    | true =>
      have hcrossing := setting.crossing_tickLink s.bridge s.exchange.2
      have hpos : 0 < (setting.crossing s.bridge.crossings).stages := by
        rw [h.stages_eq]
        exact h.stages_pos
      refine ⟨h.value_eq, fun _ => ?_, h.stages_pos, ?_, ?_⟩
      · show (setting.crossing (s.bridge.tickLink s.exchange.2).crossings).source = v
        rw [hcrossing]
        exact hsource
      · show (setting.crossing (s.bridge.tickLink s.exchange.2).crossings).stages = stages
        rw [hcrossing, Chain.stages_tick _ hpos]
        exact h.stages_eq
      · show (setting.crossing (s.bridge.tickLink s.exchange.2).crossings).FilledTo
          (s.linkCycles + 1) v
        rw [hcrossing]
        exact h.filled.tick hsource

theorem writeRegister (h : setting.Stands stages v s) {r : Register} (hr : r ≠ setting.register)
    (bits : UInt32) : setting.Stands stages v (s.writeRegister r bits) := by
  refine ⟨?_, h.source_eq, h.stages_pos, h.stages_eq, h.filled⟩
  show setting.value (s.bridge.writeRegister r bits).control = v
  rw [setting.value_writeRegister, if_neg hr]
  exact h.value_eq

/-- What holds of every reachable state does so at another instant. -/
theorem atTime (h : setting.Stands stages v s) (now : Time) :
    setting.Stands stages v { s with now } :=
  ⟨h.value_eq, h.source_eq, h.stages_pos, h.stages_eq, h.filled⟩

theorem inForce (h : setting.Stands stages v s) (hdue : s.schedule.due = .link)
    (hcycles : stages ≤ s.linkCycles + 1) : setting.inForce s.bridge.linkControls = v := by
  have hpos : 0 < (setting.crossing s.bridge.crossings).stages := by
    rw [h.stages_eq]
    exact h.stages_pos
  have hstages := Chain.stages_tick _ hpos
  rw [setting.inForce_eq]
  refine (h.filled.tick (h.source_eq hdue)).output ?_ ?_
  · rw [hstages]
    exact hpos
  · rw [hstages, h.stages_eq]
    exact hcycles

end Stands
end Setting

namespace Simulation

/-! ### The error count on its way to the register -/

/-- What the due edge is to the crossing of the error count. -/
def errorTick? (s : Simulation) : Option (BusCrossing.Tick UInt32) :=
  match s.schedule.due with
  | .control => some .destination
  | .link => if s.runsLink then some (.source s.step.bridge.linkErrors) else none

/-- The register shows what has crossed of the error count. -/
structure Shown (stages : Nat) (s : Simulation) : Prop where
  staged : s.bridge.crossings.errors.Staged stages
  seen_eq : s.bridge.control.errors = s.bridge.crossings.errors.value

theorem errors_step (s : Simulation) :
    s.step.bridge.crossings.errors =
      Trace.final BusCrossing.tick s.bridge.crossings.errors s.errorTick?.toList := by
  unfold errorTick?
  cases hdue : s.schedule.due with
  | control =>
    obtain ⟨r, hr⟩ := step_control hdue
    rw [hr]
    rfl
  | link =>
    obtain ⟨r, hr⟩ := step_link hdue
    rw [hr]
    cases s.runsLink with
    | false => rfl
    | true => exact Bridge.errors_tickLink _ _

theorem Shown.step (h : s.Shown stages) : s.step.Shown stages := by
  have hticks := s.errors_step
  constructor
  · rw [hticks]
    cases s.errorTick? with
    | none => exact h.staged
    | some i => exact h.staged.tick i
  · cases hdue : s.schedule.due with
    | control =>
      obtain ⟨r, hr⟩ := step_control hdue
      rw [hr]
      rfl
    | link =>
      obtain ⟨r, hr⟩ := step_link hdue
      rw [hr]
      cases s.runsLink with
      | false => exact h.seen_eq
      | true =>
        show s.bridge.control.errors =
          (s.bridge.tickLink s.exchange.2).crossings.errors.value
        rw [Bridge.errors_tickLink, BusCrossing.value_sourceTick]
        exact h.seen_eq

theorem Shown.steps (h : s.Shown stages) (n : Nat) : (s.steps n).Shown stages :=
  (forall_passed (P := Shown stages) (fun _ hu => hu.step) h n).2

theorem Shown.writeRegister (h : s.Shown stages) (r : Register) (value : UInt32) :
    (s.writeRegister r value).Shown stages :=
  ⟨h.staged, (Bridge.errors_writeRegister r value).trans h.seen_eq⟩

theorem Shown.atTime (h : s.Shown stages) (now : Time) : { s with now }.Shown stages :=
  ⟨h.staged, h.seen_eq⟩

def errorTicks (s : Simulation) (n : Nat) : List (BusCrossing.Tick UInt32) :=
  (s.passed n).filterMap errorTick?

theorem errorTicks_succ (s : Simulation) (n : Nat) :
    s.errorTicks (n + 1) = s.errorTicks n ++ (s.steps n).errorTick?.toList := by
  unfold errorTicks
  rw [passed_succ, List.filterMap_append]
  cases h : (s.steps n).errorTick? <;> simp [h]

theorem errorTicks_add (s : Simulation) (m n : Nat) :
    s.errorTicks (m + n) = s.errorTicks m ++ (s.steps m).errorTicks n := by
  unfold errorTicks
  rw [passed_add, List.filterMap_append]

theorem errors_steps (s : Simulation) (n : Nat) :
    (s.steps n).bridge.crossings.errors =
      Trace.final BusCrossing.tick s.bridge.crossings.errors (s.errorTicks n) := by
  induction n with
  | zero => rfl
  | succ n ih => rw [steps_succ, errors_step, ih, errorTicks_succ, Trace.final_append]

/-- Each control cycle is a tick of the destination, each link cycle one of the source. -/
theorem countP_errorTicks (s : Simulation) (n : Nat) :
    s.controlCycles + (s.errorTicks n).countP BusCrossing.Tick.isDestination =
        (s.steps n).controlCycles ∧
      s.linkCycles + (s.errorTicks n).countP BusCrossing.Tick.isSource =
        (s.steps n).linkCycles := by
  induction n with
  | zero => exact ⟨rfl, rfl⟩
  | succ n ih =>
    obtain ⟨hcontrol, hlink⟩ := ih
    rw [errorTicks_succ, List.countP_append, List.countP_append, ← Nat.add_assoc,
      ← Nat.add_assoc, hcontrol, hlink, steps_succ, controlCycles_step, linkCycles_step]
    unfold errorTick?
    cases hdue : (s.steps n).schedule.due with
    | control => simp [runsLink, hdue, BusCrossing.Tick.isDestination, BusCrossing.Tick.isSource]
    | link =>
      cases (s.steps n).runsLink <;>
        simp [BusCrossing.Tick.isDestination, BusCrossing.Tick.isSource]

theorem linkCycles_le_steps (s : Simulation) (n : Nat) :
    s.linkCycles ≤ (s.steps n).linkCycles := by
  have hcount := (s.countP_errorTicks n).2
  omega

/-- Once the count stands still, it is read after the cycles that take a value there, back and
there again. -/
theorem errors_settled (h : s.Shown stages) {i j k : Nat} {v : UInt32}
    (hv : ∀ u ∈ s.passed (i + j + k), u.step.bridge.linkErrors = v)
    (hfirst : s.controlCycles + stages ≤ (s.steps i).controlCycles)
    (hback : (s.steps i).linkCycles + stages ≤ (s.steps (i + j)).linkCycles)
    (hagain : (s.steps (i + j)).controlCycles + stages ≤ (s.steps (i + j + k)).controlCycles) :
    (s.steps (i + j + k)).bridge.control.errors = v := by
  have hpresents : ∀ t ∈ s.errorTicks (i + j + k), t.Presents v := by
    intro t ht
    obtain ⟨u, hu, htick⟩ := List.mem_filterMap.mp ht
    unfold errorTick? at htick
    split at htick
    · obtain rfl := Option.some.inj htick
      exact trivial
    · split at htick
      · obtain rfl := Option.some.inj htick
        exact hv u hu
      · exact nomatch htick
  have hsplit : s.errorTicks (i + j + k) =
      s.errorTicks i ++ (s.steps i).errorTicks j ++ (s.steps (i + j)).errorTicks k := by
    rw [errorTicks_add, errorTicks_add]
  have hi := (s.countP_errorTicks i).1
  have hj := ((s.steps i).countP_errorTicks j).2
  have hk := ((s.steps (i + j)).countP_errorTicks k).1
  rw [← steps_add] at hj hk
  rw [(h.steps _).seen_eq, errors_steps, hsplit]
  rw [hsplit] at hpresents
  exact BusCrossing.value_settled h.staged hpresents (by omega) (by omega) (by omega)

/-- A count that stands still is read for good once the control cycles of a handshake have gone by:
as many as there are stages on the way there and again, and on the way back as many link cycles. -/
theorem Shown.errors_eq {controlPeriod linkPeriod phase : Time} (h : s.Shown stages)
    (hpaced : Paced controlPeriod linkPeriod phase s) (hclocked : s.clocked = true)
    (hperiods : 0 < controlPeriod.fs ∧ 0 < linkPeriod.fs) (hsome : s.linkCycles ≠ 0)
    {v : UInt32} (hv : ∀ n, ∀ u ∈ s.passed n, u.step.bridge.linkErrors = v)
    (hlast : ∀ u ∈ s.passed n, u.schedule.dueTime.fs < Time.lastFs)
    (hroom : s.controlCycles * controlPeriod.fs +
        ((stages + 1) * linkPeriod.fs + (2 * stages + 1) * controlPeriod.fs) ≤
      (s.steps n).controlCycles * controlPeriod.fs) :
    ∀ k, (s.steps (n + k)).bridge.control.errors = v := by
  simp only [Nat.add_mul, Nat.mul_assoc, Nat.one_mul] at hroom
  have hcycles : s.controlCycles + stages ≤ (s.steps n).controlCycles := by
    refine Nat.le_of_mul_le_mul_right ?_ hperiods.1
    rw [Nat.add_mul]
    omega
  obtain ⟨i, hi, hfirst⟩ := exists_steps (f := (·.controlCycles))
    (fun u => by rw [controlCycles_step]; split <;> omega) hcycles
  obtain ⟨rest, rfl⟩ := Nat.exists_eq_add_of_le hi
  rw [passed_add] at hlast
  obtain ⟨hearlier, hlater⟩ := List.forall_mem_append.mp hlast
  have hpacedFirst := hpaced.steps hclocked hearlier
  have hmore : (s.steps i).linkCycles ≠ 0 := by
    have hle := s.linkCycles_le_steps i
    omega
  have hpace := hpacedFirst.link_pace hmore
  rw [steps_add] at hroom
  obtain ⟨j, hj, hback, hcontrols⟩ := hpacedFirst.exists_link
    ((s.clocked_steps i).trans hclocked) hperiods.2 hlater stages hpace (by
      rw [hfirst, Nat.add_mul]
      omega)
  obtain ⟨last, rfl⟩ := Nat.exists_eq_add_of_le hj
  have hagain : ((s.steps i).steps j).controlCycles + stages ≤
      ((s.steps i).steps (j + last)).controlCycles := by
    refine Nat.le_of_mul_le_mul_right ?_ hperiods.1
    rw [hfirst, Nat.add_mul] at hcontrols
    rw [Nat.add_mul]
    omega
  intro k
  have hlater := ((s.steps (i + (j + last))).countP_errorTicks k).1
  rw [← steps_add] at hback hagain hlater
  rw [show i + (j + last) + k = i + j + (last + k) by omega] at hlater ⊢
  rw [← steps_add] at hagain
  refine errors_settled h (hv _) (Nat.le_of_eq hfirst.symm) (Nat.le_of_eq hback.symm) ?_
  omega

end Simulation
end LinkBridge
