import LinkBridge.Proofs.Simulation.Session

/-!
The link cycles of a session.

Between two link cycles neither the link side nor the transceiver changes, whatever the control
domain and the owner do.  So the states in which a session runs link cycles form one path through
the states of these two: each cycle takes up what the one before it left.
-/

namespace LinkBridge.Simulation

variable {s : Simulation}

/-- What only link cycles change. -/
def linkState (s : Simulation) : LinkSide × Transceiver := (s.bridge.link, s.transceiver)

theorem linkState_step (h : s.runsLink = true) :
    s.step.linkState = ((s.bridge.tickLink s.exchange.2).link, s.exchange.1) := by
  obtain ⟨r, hr⟩ := step_link (due_of_runsLink h)
  rw [hr]
  simp only [linkState, h, if_true]

theorem linkState_step_of_idle (h : s.runsLink = false) : s.step.linkState = s.linkState := by
  cases hdue : s.schedule.due with
  | control =>
    obtain ⟨r, hr⟩ := step_control hdue
    rw [hr]
    rfl
  | link =>
    obtain ⟨r, hr⟩ := step_link hdue
    rw [hr]
    simp only [linkState, h, Bool.false_eq_true, if_false]

/-- The link cycles run in the listed states lead from one state of link side and transceiver to
another. -/
inductive Carries : LinkSide × Transceiver → List Simulation → LinkSide × Transceiver → Prop where
  | nil (x : LinkSide × Transceiver) : Carries x [] x
  | cons {u : Simulation} {rest : List Simulation} {y : LinkSide × Transceiver}
      (hruns : u.runsLink = true) (h : Carries u.step.linkState rest y) :
      Carries u.linkState (u :: rest) y

namespace Carries

variable {x y z : LinkSide × Transceiver} {a b : List Simulation}

theorem append (ha : Carries x a y) (hb : Carries y b z) : Carries x (a ++ b) z := by
  induction ha with
  | nil => exact hb
  | cons hruns _ ih => exact .cons hruns (ih hb)

theorem split (h : Carries x (a ++ b) z) : ∃ y, Carries x a y ∧ Carries y b z := by
  induction a generalizing x with
  | nil => exact ⟨x, .nil x, h⟩
  | cons u rest ih =>
    cases h with
    | cons hruns h =>
      obtain ⟨y, hrest, hb⟩ := ih h
      exact ⟨y, .cons hruns hrest, hb⟩

theorem invariant {P : LinkSide × Transceiver → Prop}
    (hstep : ∀ u : Simulation, u.runsLink = true → P u.linkState → P u.step.linkState)
    (h : Carries x a y) (hx : P x) : P y := by
  induction h with
  | nil => exact hx
  | cons hruns _ ih => exact ih (hstep _ hruns hx)

end Carries

theorem carries_passed (s : Simulation) (n : Nat) :
    Carries s.linkState ((s.passed n).filter (·.runsLink)) (s.steps n).linkState := by
  induction n generalizing s with
  | zero => exact .nil _
  | succ n ih =>
    unfold passed steps
    cases hruns : s.runsLink with
    | true =>
      rw [List.filter_cons_of_pos hruns]
      exact .cons hruns (ih s.step)
    | false =>
      rw [List.filter_cons_of_neg (by simp [hruns]), ← linkState_step_of_idle hruns]
      exact ih s.step

/-- The states in which a session runs a link cycle. -/
def cycles (s : Simulation) (actions : List Action) : List Simulation :=
  Trace.gather act executed s actions

theorem carries_session (s : Simulation) (actions : List Action) :
    Carries s.linkState (s.cycles actions) (s.session actions).linkState := by
  induction actions generalizing s with
  | nil => exact .nil _
  | cons a rest ih =>
    have hact : (s.act a).linkState = (s.steps (s.edges a)).linkState := by
      obtain ⟨hlink, -, htransceiver, -⟩ := conclude_keeps (s.steps (s.edges a)) s.now a
      rw [act_eq, linkState, hlink, htransceiver]
      rfl
    have hnow : Carries s.linkState (s.executed a) (s.act a).linkState := by
      rw [hact]
      exact s.carries_passed (s.edges a)
    exact hnow.append (ih (s.act a))

end LinkBridge.Simulation
