import LinkBridge.Proofs.Simulation.Session

/-!
Loops of steps.

A run makes steps as long as an edge is due up to its horizon.  Such a loop ends in the first state
in which its condition fails, if there is one (`EndsAfter`).  Every step takes one edge off those
that are due up to the horizon, so short of the last instant the loop comes to an end, and the bound
that `run` counts beforehand is the number of its steps (`endsAfter_run`).  At the last instant
edges are held back and fall due again and again: there the loop has no end
(`not_endsAfter_last`).
-/

namespace LinkBridge

namespace Schedule

variable {s : Schedule} {horizon : Time}

def period (s : Schedule) : Domain → Time
  | .control => s.controlPeriod
  | .link => s.linkPeriod

theorem period_advance (s : Schedule) (d : Domain) : s.advance.period d = s.period d := by
  unfold advance
  split <;> cases d <;> rfl

theorem period_after (s : Schedule) (n : Nat) (d : Domain) :
    (s.after n).period d = s.period d := by
  induction n generalizing s with
  | zero => rfl
  | succ n ih => exact (ih s.advance).trans (s.period_advance d)

theorem pending_advance (s : Schedule) (d : Domain) :
    s.advance.pending d = if d = s.due then (s.pending d).after (s.period d) else s.pending d := by
  unfold advance
  cases s.due <;> cases d <;> rfl

theorem dueTime_le_pending (s : Schedule) (d : Domain) : s.dueTime.fs ≤ (s.pending d).fs := by
  have hdue : s.dueTime.fs = min s.controlNext.fs s.linkNext.fs := by
    unfold dueTime due
    split
    · show s.controlNext.fs = _
      omega
    · split
      · show s.linkNext.fs = _
        omega
      · cases s.turn
        · show s.controlNext.fs = _
          omega
        · show s.linkNext.fs = _
          omega
  rw [hdue]
  cases d
  · exact Nat.min_le_left _ _
  · exact Nat.min_le_right _ _

theorem dueTime_le_advance (s : Schedule) : s.dueTime.fs ≤ s.advance.dueTime.fs := by
  have hpending := s.dueTime_le_pending s.advance.due
  show s.dueTime.fs ≤ (s.advance.pending s.advance.due).fs
  rw [pending_advance]
  split
  · exact Nat.le_trans hpending (Time.le_after _ _)
  · exact hpending

theorem after_add (s : Schedule) (m n : Nat) : s.after (m + n) = (s.after m).after n := by
  induction m generalizing s with
  | zero => rw [Nat.zero_add]; rfl
  | succ m ih => rw [Nat.succ_add]; exact ih s.advance

/-! ### How many edges are due up to an instant -/

theorem edgesUpTo_eq_zero {next period : Time} (h : edgesUpTo next period horizon = 0) :
    horizon.fs < next.fs := by
  unfold edgesUpTo at h
  split at h
  · exact nomatch h
  · omega

theorem edgesUpTo_after {next period : Time} (hperiod : 0 < period.fs)
    (hlast : horizon.fs < Time.lastFs) (hnext : next.fs ≤ horizon.fs) :
    edgesUpTo next period horizon = edgesUpTo (next.after period) period horizon + 1 := by
  have hafter := Time.after_fs next period
  unfold edgesUpTo
  rw [if_pos hnext]
  by_cases hle : next.fs + period.fs ≤ horizon.fs
  · have hlater : (next.after period).fs = next.fs + period.fs := by omega
    have hdiv := Nat.div_eq_sub_div hperiod (show period.fs ≤ horizon.fs - next.fs by omega)
    rw [hlater, if_pos hle, hdiv, Nat.sub_sub]
  · have hlater : ¬(next.after period).fs ≤ horizon.fs := by omega
    rw [if_neg hlater, Nat.div_eq_of_lt (by omega)]

theorem edges_advance (hperiods : ∀ d, 0 < (s.period d).fs) (hlast : horizon.fs < Time.lastFs)
    (hdue : s.dueTime.fs ≤ horizon.fs) : s.edges horizon = s.advance.edges horizon + 1 := by
  have hnext : (s.pending s.due).fs ≤ horizon.fs := hdue
  have hedge := edgesUpTo_after (hperiods s.due) hlast hnext
  unfold edges advance
  cases hd : s.due with
  | control =>
    rw [hd] at hedge
    rw [show edgesUpTo s.controlNext s.controlPeriod horizon = _ from hedge]
    exact Nat.add_right_comm _ _ _
  | link =>
    rw [hd] at hedge
    rw [show edgesUpTo s.linkNext s.linkPeriod horizon = _ from hedge]
    exact (Nat.add_assoc _ _ _).symm

theorem lt_dueTime_of_edges_eq_zero (h : s.edges horizon = 0) : horizon.fs < s.dueTime.fs := by
  obtain ⟨hcontrol, hlink⟩ := Nat.add_eq_zero_iff.mp h
  show horizon.fs < (s.pending s.due).fs
  cases s.due
  · exact edgesUpTo_eq_zero hcontrol
  · exact edgesUpTo_eq_zero hlink

/-- A run short of the last instant leaves no edge due: its bound on the steps is no limit. -/
theorem lt_dueTime_after {n : Nat} (hperiods : ∀ d, 0 < (s.period d).fs)
    (hlast : horizon.fs < Time.lastFs) (hn : s.edges horizon ≤ n) :
    horizon.fs < (s.after (s.edgesTo horizon n)).dueTime.fs := by
  induction n generalizing s with
  | zero => exact lt_dueTime_of_edges_eq_zero (Nat.le_zero.mp hn)
  | succ n ih =>
    unfold edgesTo
    split
    · next hdue =>
      have hedges := edges_advance hperiods hlast hdue
      exact ih (fun d => by rw [period_advance]; exact hperiods d) (by omega)
    · next hdue => exact Nat.lt_of_not_le hdue

/-- The edges of two counts of control cycles are those of their sum. -/
theorem edgesOfCycles_add (s : Schedule) (m n : Nat) :
    s.edgesOfCycles (m + n) =
      s.edgesOfCycles m + (s.after (s.edgesOfCycles m)).edgesOfCycles n := by
  induction m generalizing s with
  | zero => rw [Nat.zero_add, edgesOfCycles, Nat.zero_add]; rfl
  | succ m ih => rw [Nat.succ_add, edgesOfCycles, edgesOfCycles, ih, ← after_add, Nat.add_assoc]

end Schedule

namespace Simulation

variable {s u : Simulation} {span horizon : Time} {m n : Nat}

/-! ### Steps by their numbers -/

theorem steps_succ (s : Simulation) (n : Nat) : s.steps (n + 1) = (s.steps n).step :=
  s.steps_add n 1

theorem passed_succ (s : Simulation) (n : Nat) : s.passed (n + 1) = s.passed n ++ [s.steps n] := by
  induction n generalizing s with
  | zero => rfl
  | succ n ih =>
    have hrest := ih s.step
    rw [passed, hrest]
    rfl

theorem passed_add (s : Simulation) (m n : Nat) :
    s.passed (m + n) = s.passed m ++ (s.steps m).passed n := by
  induction n with
  | zero => exact (List.append_nil _).symm
  | succ n ih =>
    rw [← Nat.add_assoc, passed_succ, ih, passed_succ, steps_add, List.append_assoc]

theorem mem_passed {u : Simulation} (h : u ∈ s.passed n) : ∃ m < n, u = s.steps m := by
  induction n with
  | zero => exact nomatch h
  | succ n ih =>
    rw [passed_succ] at h
    rcases List.mem_append.mp h with hold | hnew
    · obtain ⟨m, hm, hu⟩ := ih hold
      exact ⟨m, Nat.lt_succ_of_lt hm, hu⟩
    · exact ⟨n, Nat.lt_succ_self n, List.mem_singleton.mp hnew⟩

theorem steps_mem_passed (s : Simulation) {m n : Nat} (h : m < n) : s.steps m ∈ s.passed n := by
  induction n with
  | zero => exact absurd h (Nat.not_lt_zero m)
  | succ n ih =>
    rw [passed_succ, List.mem_append, List.mem_singleton]
    rcases Nat.lt_succ_iff_lt_or_eq.mp h with hlt | rfl
    · exact .inl (ih hlt)
    · exact .inr rfl

theorem length_passed (s : Simulation) (n : Nat) : (s.passed n).length = n := by
  induction n with
  | zero => rfl
  | succ n ih => rw [passed_succ, List.length_append, ih, List.length_singleton]

theorem schedule_act (s : Simulation) (a : Action) :
    (s.act a).schedule = s.schedule.after (s.edges a) := by
  rw [act_eq, schedule_conclude, schedule_steps]

/-! ### Where a loop ends -/

/-- The loop that makes a step as long as a condition holds ends after so many steps. -/
structure EndsAfter (goesOn : Simulation → Prop) (s : Simulation) (n : Nat) : Prop where
  goes : ∀ m < n, goesOn (s.steps m)
  stops : ¬goesOn (s.steps n)

namespace EndsAfter

variable {P Q : Simulation → Prop}

theorem unique (hm : EndsAfter P s m) (hn : EndsAfter P s n) : m = n := by
  rcases Nat.lt_trichotomy m n with hlt | heq | hgt
  · exact absurd (hn.goes m hlt) hm.stops
  · exact heq
  · exact absurd (hm.goes n hgt) hn.stops

theorem goes_of_mem (h : EndsAfter P s n) (hu : u ∈ s.passed n) : P u := by
  obtain ⟨m, hm, rfl⟩ := mem_passed hu
  exact h.goes m hm

/-- A loop goes on where one with a stronger condition has ended. -/
theorem trans (hm : EndsAfter P s m) (hPQ : ∀ u, P u → Q u) (hn : EndsAfter Q (s.steps m) n) :
    EndsAfter Q s (m + n) where
  goes k hk := by
    by_cases hfirst : k < m
    · exact hPQ _ (hm.goes k hfirst)
    · obtain ⟨j, rfl⟩ := Nat.exists_eq_add_of_le (Nat.le_of_not_lt hfirst)
      rw [steps_add]
      exact hn.goes j (by omega)
  stops := by
    rw [steps_add]
    exact hn.stops

end EndsAfter

/-! ### Runs up to a horizon -/

/-- An edge is due up to a horizon. -/
def DueBy (horizon : Time) (s : Simulation) : Prop := s.schedule.dueTime.fs ≤ horizon.fs

theorem not_endsAfter_last (s : Simulation) (n : Nat) : ¬EndsAfter (DueBy .last) s n :=
  fun h => h.stops (s.steps n).schedule.dueTime.le_last

/-- A run takes no edge past its horizon. -/
theorem dueTime_le_of_mem_passed
    (hu : u ∈ s.passed (s.schedule.edgesTo horizon n)) :
    u.schedule.dueTime.fs ≤ horizon.fs := by
  induction n generalizing s with
  | zero => cases hu
  | succ n ih =>
    unfold Schedule.edgesTo at hu
    split at hu
    · next hdue =>
      rcases List.mem_cons.mp hu with rfl | hlater
      · exact hdue
      · rw [← schedule_step] at hlater
        exact ih hlater
    · cases hu

/-- A run comes back exactly if its horizon is short of the last instant. -/
theorem isSome_run_iff : (s.run span).isSome ↔ s.now.fs + span.fs < Time.lastFs := by
  rw [← Nat.not_le, ← Time.after_eq_last_iff]
  unfold run
  by_cases hlast : s.now.after span = .last
  · simp [hlast]
  · simp [hlast]

theorem edges_run (hspan : s.now.fs + span.fs < Time.lastFs) :
    s.edges (.run span) =
      s.schedule.edgesTo (s.now.after span) (s.schedule.edges (s.now.after span)) := by
  have hhorizon : s.now.after span ≠ .last :=
    fun hlast => Nat.not_le_of_lt hspan (Time.after_eq_last_iff.mp hlast)
  simp only [edges, if_neg hhorizon]

theorem run_eq (hspan : s.now.fs + span.fs < Time.lastFs) :
    s.run span =
      some { s.steps (s.edges (.run span)) with now := s.now.after span } := by
  have hhorizon : s.now.after span ≠ .last :=
    fun hlast => Nat.not_le_of_lt hspan (Time.after_eq_last_iff.mp hlast)
  rw [edges_run hspan]
  simp only [run, if_neg hhorizon, stepUpTo_eq]

theorem act_run_eq (hspan : s.now.fs + span.fs < Time.lastFs) :
    s.act (.run span) = { s.steps (s.edges (.run span)) with now := s.now.after span } := by
  rw [act, run_eq hspan, Option.getD_some]

theorem now_act_run (hspan : s.now.fs + span.fs < Time.lastFs) :
    (s.act (.run span)).now = s.now.after span := by
  rw [act_run_eq hspan]

/-- The loop of a run ends after the edges that were counted. -/
theorem endsAfter_run (hperiods : ∀ d, 0 < (s.schedule.period d).fs)
    (hspan : s.now.fs + span.fs < Time.lastFs) :
    EndsAfter (DueBy (s.now.after span)) s (s.edges (.run span)) := by
  have hlast : (s.now.after span).fs < Time.lastFs := by
    rw [Time.after_fs]
    omega
  rw [edges_run hspan]
  refine ⟨fun m hm => dueTime_le_of_mem_passed (s.steps_mem_passed hm), fun hdue => ?_⟩
  have hlater := Schedule.lt_dueTime_after hperiods hlast (Nat.le_refl _)
  rw [← schedule_steps] at hlater
  exact Nat.not_le_of_lt hlater hdue

/-- A run that comes back steps up to its horizon, and leaves no edge due there. -/
theorem act_run (hperiods : ∀ d, 0 < (s.schedule.period d).fs) (hsome : (s.run span).isSome) :
    ∃ n, s.act (.run span) = { s.steps n with now := s.now.after span } ∧
      (∀ u ∈ s.passed n, u.schedule.dueTime.fs ≤ s.now.fs + span.fs) ∧
      s.now.fs + span.fs < (s.steps n).schedule.dueTime.fs := by
  have hspan := isSome_run_iff.mp hsome
  have hfs : (s.now.after span).fs = s.now.fs + span.fs := Time.after_fs_of_le (by omega)
  have hends := endsAfter_run hperiods hspan
  refine ⟨s.edges (.run span), act_run_eq hspan, fun u hu => ?_, ?_⟩
  · exact hfs ▸ hends.goes_of_mem hu
  · exact hfs ▸ Nat.lt_of_not_le hends.stops

end Simulation
end LinkBridge
