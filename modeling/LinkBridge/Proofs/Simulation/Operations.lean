import LinkBridge.Proofs.Simulation.Cycles
import LinkBridge.Proofs.Simulation.EdgeTimes

/-!
A simulation as a session with its bridge.

For the bridge and the transport, a step of the simulation is one of their own operations: a control
cycle, or a link cycle with the sample that the transceiver drives.  A link edge without a clock is
none.  So whatever is done with a simulation is a run of operations (`bridgeSession_session`), and
what holds of every such run holds of every simulation.
-/

namespace LinkBridge.Simulation

variable {s u : Simulation} {actions : List Action} {A : Session → Operation → Prop}

/-- The bridge and the transport, without transceiver and clocks. -/
def bridgeSession (s : Simulation) : Session := ⟨s.bridge, s.transport⟩

/-- What the due edge is to the bridge. -/
def edgeOperation? (s : Simulation) : Option Operation :=
  match s.schedule.due with
  | .control => some .control
  | .link => if s.runsLink then some (.link s.exchange.2) else none

/-- What an action is to the bridge, apart from its edges. -/
def Action.operation? : Action → Option Operation
  | .read address => some (.read address)
  | .write address value => some (.write address value)
  | .send words => some (.send words)
  | .take => some .take
  | .step | .run _ | .runCycles _ | .halt _ | .attach | .finish => none

def operations (s : Simulation) (a : Action) : List Operation :=
  (s.passed (s.edges a)).filterMap edgeOperation? ++ a.operation?.toList

theorem bridgeSession_step (s : Simulation) :
    s.step.bridgeSession = s.bridgeSession.run s.edgeOperation?.toList := by
  unfold edgeOperation?
  cases hdue : s.schedule.due with
  | control =>
    obtain ⟨r, hr⟩ := step_control hdue
    rw [hr]
    rfl
  | link =>
    obtain ⟨r, hr⟩ := step_link hdue
    rw [hr]
    unfold bridgeSession
    cases s.runsLink <;> rfl

theorem bridgeSession_steps (s : Simulation) (n : Nat) :
    (s.steps n).bridgeSession =
      s.bridgeSession.run ((s.passed n).filterMap edgeOperation?) := by
  induction n generalizing s with
  | zero => rfl
  | succ n ih =>
    have hsplit : (s.passed (n + 1)).filterMap edgeOperation? =
        s.edgeOperation?.toList ++ (s.step.passed n).filterMap edgeOperation? := by
      rw [passed, List.filterMap_cons]
      cases s.edgeOperation? <;> rfl
    rw [steps, ih, bridgeSession_step, hsplit]
    exact (Trace.final_append ..).symm

theorem bridgeSession_conclude (s : Simulation) (start : Time) (a : Action) :
    (s.conclude start a).bridgeSession = s.bridgeSession.run a.operation?.toList := by
  cases a with
  | run span =>
    simp only [conclude]
    split <;> rfl
  | write address value =>
    show (s.act (.write address value)).bridgeSession =
      s.bridgeSession.step (.write address value)
    simp only [act, Session.step, bridgeSession]
    cases s.bridge.write address value <;> rfl
  | _ => rfl

theorem bridgeSession_act (s : Simulation) (a : Action) :
    (s.act a).bridgeSession = s.bridgeSession.run (s.operations a) := by
  rw [act_eq, bridgeSession_conclude, bridgeSession_steps]
  exact (Trace.final_append ..).symm

/-- The operations of a session with a simulation. -/
def allOperations (s : Simulation) (actions : List Action) : List Operation :=
  Trace.gather act operations s actions

theorem bridgeSession_session (s : Simulation) (actions : List Action) :
    (s.session actions).bridgeSession = s.bridgeSession.run (s.allOperations actions) := by
  induction actions generalizing s with
  | nil => rfl
  | cons a rest ih =>
    have hrest := ih (s.act a)
    rw [bridgeSession_act] at hrest
    exact hrest.trans (Trace.final_append ..).symm

/-! ### All states of a session -/

theorem cycles_eq (s : Simulation) (actions : List Action) :
    s.cycles actions = (s.timeline actions).filter (·.runsLink) :=
  (Trace.gather_hom List.filter_nil (fun _ _ => List.filter_append ..) s actions).symm

theorem cycles_of_not_runs (s : Simulation) (h : ∀ a ∈ actions, a.runs = false) :
    s.cycles actions = [] := by
  induction actions generalizing s with
  | nil => rfl
  | cons a rest ih =>
    obtain ⟨hnow, hlater⟩ := List.forall_mem_cons.mp h
    rw [cycles, Trace.gather, executed, passed_of_not_runs hnow]
    exact ih (s.act a) hlater

section Invariant

variable {P : Simulation → Prop} {K : Action → Prop}

theorem forall_passed (hstep : ∀ u, P u → P u.step) (hs : P s) (n : Nat) :
    (∀ u ∈ s.passed n, P u) ∧ P (s.steps n) := by
  induction n generalizing s with
  | zero => exact ⟨fun _ hu => (nomatch hu), hs⟩
  | succ n ih =>
    obtain ⟨hall, hlast⟩ := ih (hstep s hs)
    exact ⟨List.forall_mem_cons.mpr ⟨hs, hall⟩, hlast⟩

/-- What steps and accesses keep holds whenever an edge runs, and at the end. -/
theorem forall_timeline (hstep : ∀ u, P u → P u.step)
    (hconclude : ∀ u start a, P u → K a → P (u.conclude start a)) (hs : P s)
    (hactions : ∀ a ∈ actions, K a) :
    (∀ u ∈ s.timeline actions, P u) ∧ P (s.session actions) := by
  induction actions generalizing s with
  | nil => exact ⟨fun _ hu => (nomatch hu), hs⟩
  | cons a rest ih =>
    obtain ⟨hnow, hlater⟩ := List.forall_mem_cons.mp hactions
    obtain ⟨hpassed, hsteps⟩ := forall_passed hstep hs (s.edges a)
    have hact : P (s.act a) := by
      rw [act_eq]
      exact hconclude _ s.now a hsteps hnow
    obtain ⟨hrest, hlast⟩ := ih hact hlater
    exact ⟨List.forall_mem_append.mpr ⟨hpassed, hrest⟩, hlast⟩

end Invariant

/-! ### Conditions on all operations -/

theorem edgeOperation?_cases {o : Operation} (h : s.edgeOperation? = some o) :
    o = .control ∨ s.runsLink = true ∧ o = .link s.exchange.2 := by
  unfold edgeOperation? at h
  split at h
  · exact .inl (Option.some.inj h).symm
  · split at h
    · next hruns => exact .inr ⟨hruns, (Option.some.inj h).symm⟩
    · exact nomatch h

theorem along_passed {n : Nat} (hcontrol : ∀ t, A t .control)
    (hlink : ∀ u ∈ (s.passed n).filter (·.runsLink), A u.bridgeSession (.link u.exchange.2)) :
    Trace.Along Session.step A s.bridgeSession ((s.passed n).filterMap edgeOperation?) := by
  induction n generalizing s with
  | zero => exact trivial
  | succ n ih =>
    have hrest := ih (s := s.step) fun u hu => hlink u <| by
      obtain ⟨hmem, hruns⟩ := List.mem_filter.mp hu
      exact List.mem_filter.mpr ⟨List.mem_cons_of_mem s hmem, hruns⟩
    rw [bridgeSession_step] at hrest
    rw [passed, List.filterMap_cons]
    cases ho : s.edgeOperation? with
    | none =>
      rw [ho] at hrest
      exact hrest
    | some o =>
      rw [ho] at hrest
      refine ⟨?_, hrest⟩
      rcases edgeOperation?_cases ho with rfl | ⟨hruns, rfl⟩
      · exact hcontrol _
      · exact hlink s (List.mem_filter.mpr ⟨List.mem_cons_self, hruns⟩)

/-- Operations meet a condition if control cycles and accesses meet it in every state, and link
cycles in the states that they run in. -/
theorem along_operations (hcontrol : ∀ t, A t .control)
    (hlink : ∀ u ∈ s.cycles actions, A u.bridgeSession (.link u.exchange.2))
    (haccesses : ∀ a ∈ actions, ∀ o ∈ a.operation?, ∀ t, A t o) :
    Trace.Along Session.step A s.bridgeSession (s.allOperations actions) := by
  induction actions generalizing s with
  | nil => exact trivial
  | cons a rest ih =>
    obtain ⟨hnow, hlater⟩ := List.forall_mem_append.mp hlink
    obtain ⟨haccess, haccesses⟩ := List.forall_mem_cons.mp haccesses
    have hrest := ih hlater haccesses
    rw [bridgeSession_act] at hrest
    refine (Trace.along_append _ _ _).mpr ⟨(Trace.along_append _ _ _).mpr ⟨?_, ?_⟩, hrest⟩
    · exact along_passed hcontrol hnow
    · exact Trace.along_of_forall _ fun o ho t => haccess o (Option.mem_toList.mp ho) t

/-- A simulation operates on its bridge in cycles and by the accesses of its owner. -/
theorem mem_allOperations {o : Operation} (h : o ∈ s.allOperations actions) :
    o = .control ∨ (∃ received, o = .link received) ∨ ∃ a ∈ actions, a.operation? = some o := by
  obtain ⟨earlier, a, later, rfl, ho⟩ := Trace.exists_of_mem_gather h
  rcases List.mem_append.mp ho with hedge | haccess
  · obtain ⟨u, -, hu⟩ := List.mem_filterMap.mp hedge
    rcases edgeOperation?_cases hu with hcontrol | ⟨-, hlink⟩
    · exact .inl hcontrol
    · exact .inr (.inl ⟨_, hlink⟩)
  · exact .inr (.inr ⟨a, by simp, Option.mem_toList.mp haccess⟩)

end LinkBridge.Simulation
