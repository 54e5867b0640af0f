import LinkBridge.Proofs.Simulation.Queue
import Mathlib.Data.List.Chain

/-!
Turns of the two clocks.

A clock that has begun has its next edge within one of its periods from the edge that is due
(`Schedule.Near`).  So when a domain has run, and the period of the other is not longer, then the
edge of the other is not later than the next of this one; and if both fall on one instant, the turn
is with the other (`Schedule.due_advance`).  No edge of the slower clock is followed by another one
at once, and clocks of one period take turns for ever.
-/

namespace LinkBridge

namespace Schedule

variable {s : Schedule} {d : Domain} {n : Nat}

/-- A domain has its next edge within a period from the edge that is due. -/
def Near (s : Schedule) (d : Domain) : Prop := (s.pending d).fs ≤ s.dueTime.fs + (s.period d).fs

theorem near_control_new (controlPeriod linkPeriod phase : Time) :
    (Schedule.new controlPeriod linkPeriod phase).Near .control := Nat.zero_le _

/-- With its first edge a clock has begun. -/
theorem near_due (s : Schedule) : s.advance.Near s.due := by
  have hlater := s.dueTime_le_advance
  unfold Near
  rw [period_advance, pending_advance, if_pos rfl, Time.after_fs]
  show min (s.dueTime.fs + _) _ ≤ _
  omega

theorem Near.advance (h : s.Near d) : s.advance.Near d := by
  by_cases hd : d = s.due
  · subst hd
    exact s.near_due
  · have hlater := s.dueTime_le_advance
    unfold Near at h ⊢
    rw [period_advance, pending_advance, if_neg hd]
    omega

theorem Near.after (h : s.Near d) (n : Nat) : (s.after n).Near d := by
  induction n generalizing s with
  | zero => exact h
  | succ n ih => exact ih h.advance

theorem near_of_mem (h : d ∈ (s.coming n).map Prod.fst) : (s.after n).Near d := by
  induction n generalizing s with
  | zero => exact nomatch h
  | succ n ih =>
    rcases List.mem_cons.mp h with rfl | hlater
    · exact s.near_due.after n
    · exact ih hlater

/-- After an edge of one domain the other domain is due, unless its period is the longer one. -/
theorem due_advance (hnear : s.Near s.due.other)
    (hperiod : (s.period s.due.other).fs ≤ (s.period s.due).fs) :
    s.advance.due = s.due.other := by
  rcases s.advance.due_cases with ⟨hdue, -⟩ | ⟨-, hearlier⟩
  · rw [hdue, turn_advance]
  · -- the next edge of the domain that has run would be earlier than the other's
    rw [turn_advance, Domain.other_other, pending_advance, pending_advance, if_pos rfl,
      if_neg s.due.other_ne, Time.after_fs] at hearlier
    have hlast := (s.pending s.due.other).le_last
    have hdueTime : s.dueTime.fs = (s.pending s.due).fs := rfl
    unfold Near at hnear
    omega

theorem isChain_coming (hnear : s.Near d.other)
    (hperiod : (s.period d.other).fs ≤ (s.period d).fs) (n : Nat) :
    ((s.coming n).map Prod.fst).IsChain fun a b => a = d → b = d.other := by
  induction n generalizing s with
  | zero => exact .nil
  | succ n ih =>
    have hrest := ih hnear.advance (by rw [period_advance, period_advance]; exact hperiod)
    cases n with
    | zero => exact .singleton _
    | succ n =>
      refine .cons_cons (fun hdue => ?_) hrest
      have hdue : s.due = d := hdue
      subst hdue
      exact due_advance hnear hperiod

/-- A part of the coming edges is what comes after the edges before it. -/
theorem coming_split {earlier later : List Domain}
    (h : (s.coming n).map Prod.fst = earlier ++ later) :
    earlier = (s.coming earlier.length).map Prod.fst ∧
      later = ((s.after earlier.length).coming later.length).map Prod.fst := by
  have hlength : n = earlier.length + later.length := by
    have := congrArg List.length h
    rwa [List.length_map, length_coming, List.length_append] at this
  rw [hlength, coming_add, List.map_append] at h
  have hparts := List.append_inj h (by rw [List.length_map, length_coming])
  exact ⟨hparts.1.symm, hparts.2.symm⟩

end Schedule

namespace Simulation

/-- Between any two edges of a domain there is one of the other. -/
def Separated (d : Domain) (order : List Domain) : Prop :=
  ∀ earlier between later, order = earlier ++ d :: (between ++ d :: later) → d.other ∈ between

theorem separated_of_isChain {d : Domain} {order : List Domain}
    (h : order.IsChain fun a b => a = d → b = d.other) : Separated d order := by
  rintro earlier between later rfl
  have hpart := h.right_of_append
  cases between with
  | nil =>
    obtain ⟨hnext, -⟩ := List.isChain_cons_cons.mp hpart
    exact absurd (hnext rfl).symm d.other_ne
  | cons e rest =>
    obtain ⟨hnext, -⟩ := List.isChain_cons_cons.mp hpart
    rw [hnext rfl]
    exact List.mem_cons_self

/-- Whatever the owner does, the slower clock never runs twice before the other: between two link
edges there is a control edge if the link period is not the shorter one, and from the first link
edge on there is a link edge between two control edges if it is not the longer one.  With equal
periods both hold, also where all edges coincide. -/
theorem neither_domain_starves {p : SimulationParams} {t : Transport} {start : Simulation}
    {controlPeriod linkPeriod : Time} (hnew : Simulation.new p t = .ok start)
    (hcontrol : Simulation.period .control p.controlClock = .ok controlPeriod)
    (hlink : Simulation.period .link p.linkClock = .ok linkPeriod) (actions : List Action) :
    let order := (edgesOf (start.timeline actions)).map Prod.fst
    (controlPeriod.fs ≤ linkPeriod.fs → Separated .link order) ∧
      (linkPeriod.fs ≤ controlPeriod.fs → ∀ earlier later, order = earlier ++ later →
        .link ∈ earlier → Separated .control later) := by
  intro order
  have horder : order = (start.schedule.coming (start.timeline actions).length).map Prod.fst :=
    congrArg _ (start.follows_session actions).edges_eq
  obtain ⟨cp, lp, hcp, hlp, -, rfl⟩ := eq_of_new hnew
  obtain rfl := Except.ok.inj (hcontrol.symm.trans hcp)
  obtain rfl := Except.ok.inj (hlink.symm.trans hlp)
  constructor
  · intro hperiod
    have hnear := Schedule.near_control_new controlPeriod linkPeriod p.linkPhase
    rw [horder]
    exact separated_of_isChain (Schedule.isChain_coming (d := .link) hnear hperiod _)
  · intro hperiod earlier later hsplit hbegun
    obtain ⟨hearlier, hlater⟩ := Schedule.coming_split (horder.symm.trans hsplit)
    rw [hearlier] at hbegun
    rw [hlater]
    have hnear := Schedule.near_of_mem hbegun
    refine separated_of_isChain (Schedule.isChain_coming (d := .control) hnear ?_ _)
    rw [Schedule.period_after, Schedule.period_after]
    exact hperiod

/-- Two clocks of one period, and each link edge falls on a control edge. -/
theorem neither_domain_starves_in_step :
    let p : SimulationParams := { linkClock := .ofMHz 125.0, linkPhase := .upTo 8000000 }
    let start : Simulation :=
      { schedule := .new (.upTo 8000000) (.upTo 8000000) (.upTo 8000000)
        bridge := .ofParams p.bridge, transceiver := .new p.transceiver }
    let ran := edgesOf (start.timeline [.runCycles 2, .run (.upTo 8000000)])
    Simulation.new p {} = .ok start ∧
      Simulation.period .control p.controlClock = .ok (.upTo 8000000) ∧
      Simulation.period .link p.linkClock = .ok (.upTo 8000000) ∧
      ran = [(.control, .zero), (.link, .upTo 8000000), (.control, .upTo 8000000),
        (.link, .upTo 16000000), (.control, .upTo 16000000)] ∧
      Separated .link (ran.map Prod.fst) ∧
      ∀ earlier later, ran.map Prod.fst = earlier ++ later → .link ∈ earlier →
        Separated .control later := by
  intro p start ran
  have hlink : Simulation.period .link p.linkClock = .ok (.upTo 8000000) := by
    have h : (Frequency.ofMHz 125.0).period? = some (.upTo 8000000) := by decide +kernel
    unfold Simulation.period
    rw [h]
  have hbridge : Bridge.new {} = .ok (.ofParams {}) := rfl
  have hnew : Simulation.new p {} = .ok start := new_eq period_controlClock hlink hbridge {}
  have hran : ran = [(.control, .zero), (.link, .upTo 8000000), (.control, .upTo 8000000),
      (.link, .upTo 16000000), (.control, .upTo 16000000)] := by decide +kernel
  obtain ⟨hlinks, hcontrols⟩ := neither_domain_starves hnew period_controlClock hlink
    [.runCycles 2, .run (.upTo 8000000)]
  exact ⟨hnew, period_controlClock, hlink, hran, hlinks (Nat.le_refl _),
    hcontrols (Nat.le_refl _)⟩

end Simulation
end LinkBridge
