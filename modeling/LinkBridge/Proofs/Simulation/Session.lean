import LinkBridge.Proofs.Bridge.Session
import LinkBridge.Simulation.Basic

/-!
Sessions with a simulation.

What the owner of a simulation can do with it is an `Action`.  However long an action runs, it is a
number of single steps, and the schedule alone says how many (`act_eq`); beside that it touches
little.  A step is a control cycle, a link cycle, or a link edge that finds the link clock stopped,
and `executed` lists the states in which an action runs a link cycle.
-/

namespace LinkBridge

theorem bind_eq_ok {ε α β : Type} {x : Except ε α} {f : α → Except ε β} {b : β} :
    (x >>= f) = .ok b ↔ ∃ a, x = .ok a ∧ f a = .ok b := by
  cases x <;> simp [bind, Except.bind]

theorem mapError_eq_ok {ε ε' α : Type} {x : Except ε α} {f : ε → ε'} {a : α} :
    x.mapError f = .ok a ↔ x = .ok a := by
  cases x <;> simp [Except.mapError]

namespace Schedule

def after (s : Schedule) : Nat → Schedule
  | 0 => s
  | n + 1 => s.advance.after n

/-- Edges that are due up to an instant, at most so many. -/
def edgesTo (s : Schedule) (horizon : Time) : Nat → Nat
  | 0 => 0
  | n + 1 => if s.dueTime.fs ≤ horizon.fs then s.advance.edgesTo horizon n + 1 else 0

/-- Edges up to the next control edge, after at most so many link edges. -/
def edgesToControl (s : Schedule) : Nat → Nat
  | 0 => 1
  | n + 1 =>
    match s.due with
    | .control => 1
    | .link => s.advance.edgesToControl n + 1

def edgesOfCycles (s : Schedule) : Nat → Nat
  | 0 => 0
  | n + 1 =>
    let edges := s.edgesToControl s.linkEdgesBefore
    edges + (s.after edges).edgesOfCycles n

end Schedule

namespace Simulation

/-- A new simulation is a bridge within the limits, a transceiver and a transport, with two clocks
that have periods. -/
theorem eq_of_new {p : SimulationParams} {t : Transport} {s : Simulation}
    (h : Simulation.new p t = .ok s) :
    ∃ controlPeriod linkPeriod, period .control p.controlClock = .ok controlPeriod ∧
      period .link p.linkClock = .ok linkPeriod ∧ Bridge.new p.bridge = .ok (.ofParams p.bridge) ∧
      s = { schedule := .new controlPeriod linkPeriod p.linkPhase, bridge := .ofParams p.bridge,
            transceiver := .new p.transceiver, transport := t } := by
  unfold Simulation.new at h
  simp only [bind_eq_ok, mapError_eq_ok] at h
  obtain ⟨controlPeriod, hcontrol, linkPeriod, hlink, bridge, hbridge, hs⟩ := h
  obtain rfl := Bridge.eq_ofParams hbridge
  exact ⟨controlPeriod, linkPeriod, hcontrol, hlink, hbridge, (Except.ok.inj hs).symm⟩

theorem new_eq {p : SimulationParams} {controlPeriod linkPeriod : Time}
    (hcontrol : period .control p.controlClock = .ok controlPeriod)
    (hlink : period .link p.linkClock = .ok linkPeriod)
    (hbridge : Bridge.new p.bridge = .ok (.ofParams p.bridge)) (t : Transport) :
    Simulation.new p t =
      .ok { schedule := .new controlPeriod linkPeriod p.linkPhase, bridge := .ofParams p.bridge,
            transceiver := .new p.transceiver, transport := t } := by
  unfold Simulation.new
  rw [hcontrol, hlink, hbridge]
  rfl

/-- The simulation of a bridge and a transceiver on the clocks that parameters have by default. -/
def onDefaultClocks (b : BridgeParams) (x : TransceiverParams) (t : Transport) : Simulation :=
  { schedule := .new (.upTo 8000000) (.upTo 16276042) .zero, bridge := .ofParams b,
    transceiver := .new x, transport := t }

theorem period_controlClock : period .control (.ofMHz 125.0) = .ok (.upTo 8000000) := by
  have h : (Frequency.ofMHz 125.0).period? = some (.upTo 8000000) := by decide +kernel
  unfold period
  rw [h]

theorem period_linkClock : period .link (.ofMHz 61.44) = .ok (.upTo 16276042) := by
  have h : (Frequency.ofMHz 61.44).period? = some (.upTo 16276042) := by decide +kernel
  unfold period
  rw [h]

theorem new_onDefaultClocks {b : BridgeParams} (hb : Bridge.new b = .ok (.ofParams b))
    (x : TransceiverParams) (t : Transport) :
    Simulation.new { bridge := b, transceiver := x } t = .ok (onDefaultClocks b x t) :=
  new_eq period_controlClock period_linkClock hb t

/-! ### One step -/

/-- The due edge is a link edge, and the link clock runs. -/
def runsLink (s : Simulation) : Bool :=
  s.schedule.due == .link && (!s.halted && s.transceiver.clockRunning s.bridge.pins)

/-- The transceiver after a link cycle, and the sample that the bridge receives in it. -/
def exchange (s : Simulation) : Transceiver × LinkSample :=
  s.transceiver.tick s.bridge.pins s.bridge.txPads s.bridge.taps.1 s.bridge.taps.2

section Step

variable {s : Simulation}

theorem stepEdge_control (h : s.schedule.due = .control) :
    s.stepEdge =
      { s with
        now := s.schedule.dueTime
        schedule := s.schedule.advance
        bridge := (s.bridge.tickControl s.transport).1
        transport := (s.bridge.tickControl s.transport).2
        controlCycles := s.controlCycles + 1 } := by
  obtain ⟨now, schedule, bridge, transceiver, transport, controlCycles, linkCycles, halted,
    linkRunning, recording⟩ := s
  have hdue : schedule.due = .control := h
  simp only [stepEdge, hdue]

theorem stepEdge_link (h : s.schedule.due = .link) :
    s.stepEdge =
      { s with
        now := s.schedule.dueTime
        schedule := s.schedule.advance
        bridge := if s.runsLink then s.bridge.tickLink s.exchange.2 else s.bridge
        transceiver := if s.runsLink then s.exchange.1 else s.transceiver
        linkCycles := if s.runsLink then s.linkCycles + 1 else s.linkCycles
        linkRunning := s.runsLink } := by
  obtain ⟨now, schedule, bridge, transceiver, transport, controlCycles, linkCycles, halted,
    linkRunning, recording⟩ := s
  have hdue : schedule.due = .link := h
  simp only [stepEdge, tickLink, runsLink, exchange, hdue, beq_self_eq_true, Bool.true_and]
  cases !halted && transceiver.clockRunning bridge.pins <;> rfl

theorem step_control (h : s.schedule.due = .control) :
    ∃ r, s.step =
      { s with
        now := s.schedule.dueTime
        schedule := s.schedule.advance
        bridge := (s.bridge.tickControl s.transport).1
        transport := (s.bridge.tickControl s.transport).2
        controlCycles := s.controlCycles + 1
        recording := r } := by
  refine ⟨s.stepEdge.record.recording, ?_⟩
  rw [step, stepEdge_control h]
  rfl

theorem step_link (h : s.schedule.due = .link) :
    ∃ r, s.step =
      { s with
        now := s.schedule.dueTime
        schedule := s.schedule.advance
        bridge := if s.runsLink then s.bridge.tickLink s.exchange.2 else s.bridge
        transceiver := if s.runsLink then s.exchange.1 else s.transceiver
        linkCycles := if s.runsLink then s.linkCycles + 1 else s.linkCycles
        linkRunning := s.runsLink
        recording := r } := by
  refine ⟨s.stepEdge.record.recording, ?_⟩
  rw [step, stepEdge_link h]
  rfl

theorem due_of_runsLink (h : s.runsLink = true) : s.schedule.due = .link := by
  unfold runsLink at h
  rw [Bool.and_eq_true, beq_iff_eq] at h
  exact h.1

theorem schedule_step (s : Simulation) : s.step.schedule = s.schedule.advance := by
  cases hdue : s.schedule.due with
  | control =>
    obtain ⟨r, hr⟩ := step_control hdue
    rw [hr]
  | link =>
    obtain ⟨r, hr⟩ := step_link hdue
    rw [hr]

/-- A property of the bridge, the transceiver and the count of link cycles is kept by a step if
control cycles and link cycles keep it. -/
theorem step_keeps {P : Bridge → Transceiver → Nat → Prop} (s : Simulation)
    (h : P s.bridge s.transceiver s.linkCycles)
    (hcontrol : P (s.bridge.tickControl s.transport).1 s.transceiver s.linkCycles)
    (hlink : s.runsLink = true →
      P (s.bridge.tickLink s.exchange.2) s.exchange.1 (s.linkCycles + 1)) :
    P s.step.bridge s.step.transceiver s.step.linkCycles := by
  cases hdue : s.schedule.due with
  | control =>
    obtain ⟨r, hr⟩ := step_control hdue
    rw [hr]
    exact hcontrol
  | link =>
    obtain ⟨r, hr⟩ := step_link hdue
    rw [hr]
    cases hruns : s.runsLink with
    | true => exact hlink hruns
    | false => exact h

end Step

/-! ### Many steps -/

def steps (s : Simulation) : Nat → Simulation
  | 0 => s
  | n + 1 => s.step.steps n

/-- The states in which those steps are made. -/
def passed (s : Simulation) : Nat → List Simulation
  | 0 => []
  | n + 1 => s :: s.step.passed n

theorem steps_add (s : Simulation) (m n : Nat) : s.steps (m + n) = (s.steps m).steps n := by
  induction m generalizing s with
  | zero => rw [Nat.zero_add]; rfl
  | succ m ih => rw [Nat.succ_add]; exact ih s.step

theorem schedule_steps (s : Simulation) (n : Nat) :
    (s.steps n).schedule = s.schedule.after n := by
  induction n generalizing s with
  | zero => rfl
  | succ n ih => exact (ih s.step).trans (by rw [schedule_step]; rfl)

theorem now_step (s : Simulation) : s.step.now = s.schedule.dueTime := by
  cases hdue : s.schedule.due with
  | control =>
    obtain ⟨r, hr⟩ := step_control hdue
    rw [hr]
  | link =>
    obtain ⟨r, hr⟩ := step_link hdue
    rw [hr]

/-- A relation between a state and the states before it is kept by steps if one step keeps it. -/
theorem passed_invariant {R : List Simulation → Simulation → Prop} {A : Simulation → Prop}
    (hstep : ∀ seen s, R seen s → A s → R (seen ++ [s]) s.step) {seen : List Simulation}
    {s : Simulation} (hs : R seen s) {n : Nat} (h : ∀ u ∈ s.passed n, A u) :
    R (seen ++ s.passed n) (s.steps n) := by
  induction n generalizing seen s with
  | zero =>
    rw [passed, List.append_nil]
    exact hs
  | succ n ih =>
    have hlater := ih (hstep seen s hs (h s List.mem_cons_self))
      fun u hu => h u (List.mem_cons_of_mem s hu)
    rw [List.append_assoc] at hlater
    exact hlater

theorem stepUpTo_eq (s : Simulation) (horizon : Time) (n : Nat) :
    s.stepUpTo horizon n = s.steps (s.schedule.edgesTo horizon n) := by
  induction n generalizing s with
  | zero => rfl
  | succ n ih =>
    unfold stepUpTo Schedule.edgesTo
    split
    · rw [ih, schedule_step]
      rfl
    · rfl

theorem stepControl_eq (s : Simulation) (n : Nat) :
    s.stepControl n = s.steps (s.schedule.edgesToControl n) := by
  induction n generalizing s with
  | zero => rfl
  | succ n ih =>
    unfold stepControl Schedule.edgesToControl
    cases s.schedule.due with
    | control => rfl
    | link => exact (ih s.step).trans (by rw [schedule_step]; rfl)

theorem runCycles_eq (s : Simulation) (n : Nat) :
    s.runCycles n = s.steps (s.schedule.edgesOfCycles n) := by
  induction n generalizing s with
  | zero => rfl
  | succ n ih =>
    unfold runCycles Schedule.edgesOfCycles
    rw [stepControl_eq, ih, steps_add, schedule_steps]

/-! ### Actions -/

inductive Action where
  | step
  | run (span : Time)
  | runCycles (count : Nat)
  | read (address : UInt32)
  | write (address value : UInt32)
  | send (words : List SampleWord)
  | take
  | halt (halted : Bool)
  | attach
  | finish
deriving DecidableEq, Repr

def Action.runs : Action → Bool
  | .step | .run _ | .runCycles _ => true
  | _ => false

/-- A run without an end gives no simulation back, so it does not occur in a session; here it does
nothing. -/
def act (s : Simulation) : Action → Simulation
  | .step => s.step
  | .run span => (s.run span).getD s
  | .runCycles count => s.runCycles count
  | .read _ => s
  | .write address value =>
    match s.bridge.write address value with
    | .ok bridge => { s with bridge }
    | .error _ => s
  | .send words => s.send words
  | .take => { s with transport := s.transport.take.1 }
  | .halt halted => s.halt halted
  | .attach => s.attach
  | .finish => s.finish

def session (s : Simulation) (actions : List Action) : Simulation := Trace.final act s actions

/-- The edges that an action runs. -/
def edges (s : Simulation) : Action → Nat
  | .step => 1
  | .run span =>
    let horizon := s.now.after span
    if horizon = .last then 0 else s.schedule.edgesTo horizon (s.schedule.edges horizon)
  | .runCycles count => s.schedule.edgesOfCycles count
  | _ => 0

/-- The states in which an action runs a link cycle. -/
def executed (s : Simulation) (a : Action) : List Simulation :=
  (s.passed (s.edges a)).filter (·.runsLink)

/-- What an action that began at an instant does after its edges. -/
def conclude (s : Simulation) (start : Time) : Action → Simulation
  | .run span => if start.after span = .last then s else { s with now := start.after span }
  | .step | .runCycles _ => s
  | a => s.act a

theorem act_eq (s : Simulation) (a : Action) :
    s.act a = (s.steps (s.edges a)).conclude s.now a := by
  cases a with
  | run span =>
    simp only [act, run, edges, conclude]
    split
    · rfl
    · rw [stepUpTo_eq]
      rfl
  | runCycles count => exact runCycles_eq s count
  | _ => rfl

theorem act_of_not_runs {s : Simulation} {a : Action} (h : a.runs = false) :
    s.act a = s.conclude s.now a := by
  cases a with
  | step | run span | runCycles count => exact nomatch h
  | _ => rfl

section Conclude

variable (s : Simulation) (start : Time) (a : Action)

/-- Without edges an action changes neither the link side, the crossings nor the transceiver. -/
theorem conclude_keeps :
    (s.conclude start a).bridge.link = s.bridge.link ∧
      (s.conclude start a).bridge.crossings = s.bridge.crossings ∧
      (s.conclude start a).transceiver = s.transceiver ∧
      (s.conclude start a).linkCycles = s.linkCycles := by
  cases a with
  | run span =>
    simp only [conclude]
    split <;> exact ⟨rfl, rfl, rfl, rfl⟩
  | write address value =>
    simp only [conclude, act, Bridge.write]
    cases Register.ofAddress address <;> exact ⟨rfl, rfl, rfl, rfl⟩
  | _ => exact ⟨rfl, rfl, rfl, rfl⟩

theorem schedule_conclude : (s.conclude start a).schedule = s.schedule := by
  cases a with
  | run span =>
    simp only [conclude]
    split <;> rfl
  | write address value =>
    simp only [conclude, act]
    split <;> rfl
  | _ => rfl

/-- Apart from its edges, only a write to a register changes the bridge. -/
theorem bridge_conclude :
    (s.conclude start a).bridge = s.bridge ∨
      ∃ r value, a = .write (Register.address r) value ∧
        (s.conclude start a).bridge = s.bridge.writeRegister r value := by
  cases a with
  | run span =>
    simp only [conclude]
    split <;> exact .inl rfl
  | write address value =>
    simp only [conclude, act, Bridge.write]
    cases haddress : Register.ofAddress address with
    | error e => exact .inl rfl
    | ok r =>
      obtain rfl := Register.eq_address_of_ofAddress haddress
      exact .inr ⟨r, value, rfl, rfl⟩
  | _ => exact .inl rfl

end Conclude

/-! ### Invariants of sessions -/

section Invariants

variable {P A : Simulation → Prop} {K : Action → Prop}

theorem steps_invariant (hstep : ∀ s, P s → (s.runsLink = true → A s) → P s.step) {n : Nat}
    {s : Simulation} (hs : P s) (h : ∀ u ∈ (s.passed n).filter (·.runsLink), A u) :
    P (s.steps n) := by
  induction n generalizing s with
  | zero => exact hs
  | succ n ih =>
    refine ih (hstep s hs fun hruns => h s ?_) fun u hu => h u ?_
    · exact List.mem_filter.mpr ⟨List.mem_cons_self, hruns⟩
    · obtain ⟨hmem, hruns⟩ := List.mem_filter.mp hu
      exact List.mem_filter.mpr ⟨List.mem_cons_of_mem _ hmem, hruns⟩

/-- What an action must satisfy in the state that it finds: a condition on itself, and one on every
link cycle that it runs. -/
def Allowed (K : Action → Prop) (A : Simulation → Prop) (s : Simulation) (a : Action) : Prop :=
  K a ∧ ∀ u ∈ s.executed a, A u

instance [DecidablePred K] [DecidablePred A] (s : Simulation) (a : Action) :
    Decidable (Allowed K A s a) :=
  inferInstanceAs (Decidable (_ ∧ _))

theorem session_invariant (hstep : ∀ s, P s → (s.runsLink = true → A s) → P s.step)
    (hconclude : ∀ s start a, P s → K a → P (s.conclude start a)) {s : Simulation} (hs : P s)
    {actions : List Action} (h : Trace.Along act (Allowed K A) s actions) :
    P (s.session actions) := by
  refine Trace.final_invariant (fun u a hu ha => ?_) hs h
  obtain ⟨hkind, hcycles⟩ := ha
  rw [act_eq]
  exact hconclude _ _ _ (steps_invariant hstep hu hcycles) hkind

end Invariants
end Simulation
end LinkBridge
