import LinkBridge.Proofs.Simulation.EdgeTimes

/-!
The queue behind the schedule.

A queue of clock edges numbers the edges that are put in.  The earliest edge is taken out, of two at
one instant the one with the lower number, and the next edge of its domain is put in for it.  So one
edge of each domain waits at any time, and the lower number of the two is with the domain that did
not run last.  That is all a schedule keeps (`EdgeQueue.Holds`).  The queue never runs empty, and it
serves the edges that a session runs in the order in which the session runs them
(`served_timeline`).
-/

namespace LinkBridge

namespace Domain

@[simp] theorem other_other (d : Domain) : d.other.other = d := by
  cases d <;> rfl

theorem other_ne (d : Domain) : d.other ≠ d := by
  cases d <;> decide

end Domain

/-! ### The edges of a schedule -/

namespace Schedule

/-- The next edges, so many. -/
def coming (s : Schedule) : Nat → List (Domain × Time)
  | 0 => []
  | n + 1 => (s.due, s.dueTime) :: s.advance.coming n

theorem length_coming (s : Schedule) (n : Nat) : (s.coming n).length = n := by
  induction n generalizing s with
  | zero => rfl
  | succ n ih => rw [coming, List.length_cons, ih]

theorem coming_add (s : Schedule) (m n : Nat) :
    s.coming (m + n) = s.coming m ++ (s.after m).coming n := by
  induction m generalizing s with
  | zero => rw [Nat.zero_add]; rfl
  | succ m ih => rw [Nat.succ_add, coming, ih]; rfl

theorem turn_advance (s : Schedule) : s.advance.turn = s.due.other := by
  unfold advance
  cases s.due <;> rfl

/-- The domain that does not have the turn goes first only if its edge is earlier. -/
theorem due_cases (s : Schedule) :
    s.due = s.turn ∧ (s.pending s.turn).fs ≤ (s.pending s.turn.other).fs ∨
      s.due = s.turn.other ∧ (s.pending s.turn.other).fs < (s.pending s.turn).fs := by
  unfold due
  cases s.turn with
  | control =>
    show _ ∨ _ ∧ s.linkNext.fs < s.controlNext.fs
    split
    · next hlt => exact .inl ⟨rfl, Nat.le_of_lt hlt⟩
    · split
      · next hlt => exact .inr ⟨rfl, hlt⟩
      · next hle => exact .inl ⟨rfl, Nat.le_of_not_lt hle⟩
  | link =>
    show _ ∨ _ ∧ s.controlNext.fs < s.linkNext.fs
    split
    · next hlt => exact .inr ⟨rfl, hlt⟩
    · next hle =>
      refine .inl ⟨?_, Nat.le_of_not_lt hle⟩
      split <;> rfl

end Schedule

/-! ### The queue -/

/-- A clock edge that waits in a queue. -/
structure Edge where
  domain : Domain
  time : Time
  number : Nat
deriving DecidableEq, Repr

namespace Edge

/-- Edges run in the order of their instants, and those of one instant in the order of their
numbers. -/
def before (a b : Edge) : Bool :=
  a.time.fs < b.time.fs || (a.time.fs == b.time.fs && a.number < b.number)

/-- What is left of an edge that has run: its number only mattered while it waited. -/
def event (e : Edge) : Domain × Time := (e.domain, e.time)

end Edge

/-- The waiting edges in the order in which they were put in, and how many edges have been put in
altogether. -/
structure EdgeQueue where
  edges : List Edge := []
  count : Nat := 0
deriving DecidableEq, Repr

namespace EdgeQueue

def put (q : EdgeQueue) (d : Domain) (time : Time) : EdgeQueue :=
  { edges := q.edges ++ [⟨d, time, q.count⟩], count := q.count + 1 }

/-- Takes out the edge that no other is before. -/
def pop? (q : EdgeQueue) : Option (Edge × EdgeQueue) :=
  (q.edges.find? fun e => !q.edges.any (·.before e)).map fun e =>
    (e, { q with edges := q.edges.erase e })

/-- The queue at the start: the control clock begins at once, the link clock at its phase. -/
def opening (phase : Time) : EdgeQueue := (({} : EdgeQueue).put .control .zero).put .link phase

/-- Takes out so many edges, one after the other, and puts in the next edge of its domain for
each.  There is no result if the queue is found empty. -/
def serve (period : Domain → Time) (q : EdgeQueue) : Nat → Option (List Edge × EdgeQueue)
  | 0 => some ([], q)
  | n + 1 => do
    let (e, rest) ← q.pop?
    let (edges, left) ← (rest.put e.domain (e.time.after (period e.domain))).serve period n
    return (e :: edges, left)

/-- One edge of each domain waits, at the instant that the schedule has for it, and the domain that
has the turn put its edge in first. -/
def Holds (q : EdgeQueue) (s : Schedule) : Prop :=
  ∃ older newer, older < newer ∧ newer < q.count ∧
    q.edges = [⟨s.turn, s.pending s.turn, older⟩, ⟨s.turn.other, s.pending s.turn.other, newer⟩]

variable {a b : Edge} {q : EdgeQueue} {s : Schedule}

theorem pop?_older (hnumber : a.number < b.number) (htime : a.time.fs ≤ b.time.fs) (count : Nat) :
    pop? ⟨[a, b], count⟩ = some (a, ⟨[b], count⟩) := by
  have hself : a.before a = false := by simp [Edge.before]
  have hnewer : b.before a = false := by
    simp only [Edge.before, Bool.or_eq_false_iff, Bool.and_eq_false_iff, decide_eq_false_iff_not]
    omega
  simp [pop?, hself, hnewer]

theorem pop?_newer (htime : b.time.fs < a.time.fs) (count : Nat) :
    pop? ⟨[a, b], count⟩ = some (b, ⟨[a], count⟩) := by
  have hself : b.before b = false := by simp [Edge.before]
  have hnewer : b.before a = true := by simp [Edge.before, htime]
  have holder : a.before b = false := by
    simp only [Edge.before, Bool.or_eq_false_iff, Bool.and_eq_false_iff, decide_eq_false_iff_not,
      beq_eq_false_iff_ne]
    omega
  have hne : a ≠ b := by
    rintro rfl
    exact Nat.lt_irrefl _ htime
  simp [pop?, hself, hnewer, holder, hne]

theorem holds_opening (controlPeriod linkPeriod phase : Time) :
    (opening phase).Holds (.new controlPeriod linkPeriod phase) :=
  ⟨0, 1, Nat.zero_lt_one, Nat.lt_succ_self 1, rfl⟩

/-- What is left when the due edge is out, and the next edge of its domain put in for it. -/
theorem holds_put {older count : Nat} (h : older < count) (s : Schedule) :
    (put ⟨[⟨s.due.other, s.pending s.due.other, older⟩], count⟩ s.due
      ((s.pending s.due).after (s.period s.due))).Holds s.advance := by
  refine ⟨older, count, h, Nat.lt_succ_self count, ?_⟩
  rw [Schedule.turn_advance, Schedule.pending_advance, Schedule.pending_advance,
    Domain.other_other, if_neg s.due.other_ne, if_pos rfl]
  rfl

/-- The queue takes out the edge that is due, and then it holds what the schedule goes on with. -/
theorem Holds.pop (h : q.Holds s) :
    ∃ e rest, q.pop? = some (e, rest) ∧ e.event = (s.due, s.dueTime) ∧
      (rest.put e.domain (e.time.after (s.period e.domain))).Holds s.advance := by
  obtain ⟨older, newer, hlt, hcount, hedges⟩ := h
  obtain ⟨edges, count⟩ := q
  obtain rfl : edges = _ := hedges
  rcases s.due_cases with ⟨hdue, htime⟩ | ⟨hdue, htime⟩
  · refine ⟨_, _, pop?_older hlt htime count, ?_, ?_⟩
    · rw [Schedule.dueTime, hdue]
      rfl
    · rw [← hdue]
      exact holds_put hcount s
  · have hturn : s.turn = s.due.other := by rw [hdue, Domain.other_other]
    refine ⟨_, _, pop?_newer htime count, ?_, ?_⟩
    · rw [Schedule.dueTime, hdue]
      rfl
    · rw [← hdue, hturn]
      exact holds_put (Nat.lt_trans hlt hcount) s

/-- A queue never runs empty, and serves the edges of the schedule in their order. -/
theorem Holds.serve {period : Domain → Time} (h : q.Holds s) (hperiod : ∀ d, s.period d = period d)
    (n : Nat) :
    ∃ edges left, q.serve period n = some (edges, left) ∧
      edges.map Edge.event = s.coming n ∧ left.Holds (s.after n) := by
  induction n generalizing q s with
  | zero => exact ⟨[], q, rfl, rfl, h⟩
  | succ n ih =>
    obtain ⟨e, rest, hpop, hevent, hnext⟩ := h.pop
    rw [hperiod] at hnext
    obtain ⟨edges, left, hserve, hevents, hleft⟩ :=
      ih hnext fun d => (s.period_advance d).trans (hperiod d)
    refine ⟨e :: edges, left, ?_, ?_, hleft⟩
    · rw [EdgeQueue.serve, hpop]
      show (EdgeQueue.serve period _ n).bind _ = _
      rw [hserve]
      rfl
    · rw [List.map_cons, hevent, hevents, Schedule.coming]

end EdgeQueue

/-! ### Sessions -/

namespace Simulation

variable {s : Simulation} {seen : List Simulation} {opening : Schedule}

/-- The edges that run in the listed states. -/
def edgesOf (states : List Simulation) : List (Domain × Time) :=
  states.map fun u => (u.schedule.due, u.schedule.dueTime)

/-- The edges that have run are the first ones of a schedule, and the others are still to come. -/
structure Follows (opening : Schedule) (seen : List Simulation) (s : Simulation) : Prop where
  edges_eq : edgesOf seen = opening.coming seen.length
  schedule_eq : s.schedule = opening.after seen.length

namespace Follows

theorem start (s : Simulation) : Follows s.schedule [] s := ⟨rfl, rfl⟩

theorem step (h : Follows opening seen s) : Follows opening (seen ++ [s]) s.step where
  edges_eq := by
    rw [List.length_append, List.length_singleton, Schedule.coming_add, ← h.edges_eq,
      ← h.schedule_eq]
    exact List.map_append
  schedule_eq := by
    rw [List.length_append, List.length_singleton, Schedule.after_add, ← h.schedule_eq,
      schedule_step]
    rfl

theorem steps (h : Follows opening seen s) (n : Nat) :
    Follows opening (seen ++ s.passed n) (s.steps n) :=
  passed_invariant (A := fun _ => True) (fun _ _ hu _ => hu.step) h fun _ _ => trivial

theorem act (h : Follows opening seen s) (a : Action) :
    Follows opening (seen ++ s.passed (s.edges a)) (s.act a) := by
  have hsteps := h.steps (s.edges a)
  rw [act_eq]
  exact ⟨hsteps.edges_eq, (schedule_conclude _ _ _).trans hsteps.schedule_eq⟩

end Follows

/-- Whatever the owner does, a session runs the edges of its schedule one after the other. -/
theorem follows_session (s : Simulation) (actions : List Action) :
    Follows s.schedule (s.timeline actions) (s.session actions) :=
  Trace.gather_invariant (R := Follows s.schedule) (A := fun _ _ => True)
    (fun _ _ a hu _ => hu.act a) (Follows.start s) (Trace.along_true s actions)

/-- The edges that the queue of a simulation has served in a session, and what waits in it then. -/
def served (phase : Time) (period : Domain → Time) (s : Simulation) (actions : List Action) :
    Option (List Edge × EdgeQueue) :=
  (EdgeQueue.opening phase).serve period (s.timeline actions).length

theorem length_timeline_append (s : Simulation) (actions : List Action) (a : Action) :
    (s.timeline (actions ++ [a])).length =
      (s.timeline actions).length + (s.session actions).edges a := by
  rw [timeline, Trace.gather_append, List.length_append]
  show _ + (_ ++ []).length = _
  rw [List.append_nil, length_passed]
  rfl

/-- What the queue has served and what waits in it depend on the count of the edges alone. -/
theorem served_pair {phase : Time} {period : Domain → Time} {actions : List Action} {a b c : Action}
    (h : (s.session actions).edges c =
      (s.session actions).edges a + ((s.session actions).act a).edges b) :
    s.served phase period (actions ++ [a, b]) = s.served phase period (actions ++ [c]) := by
  have hfirst : s.session (actions ++ [a]) = (s.session actions).act a := Trace.final_append ..
  have hpair : actions ++ [a, b] = actions ++ [a] ++ [b] := by
    rw [List.append_assoc]
    rfl
  rw [served, served, hpair, length_timeline_append, length_timeline_append,
    length_timeline_append, hfirst, h, Nat.add_assoc]

/-- From the start on, the queue of numbered edges serves exactly the edges that a session runs. -/
theorem served_timeline {p : SimulationParams} {t : Transport} {start : Simulation}
    {controlPeriod linkPeriod : Time} (hnew : Simulation.new p t = .ok start)
    (hcontrol : Simulation.period .control p.controlClock = .ok controlPeriod)
    (hlink : Simulation.period .link p.linkClock = .ok linkPeriod) (actions : List Action) :
    ∃ edges left,
      start.served p.linkPhase (clocks controlPeriod linkPeriod) actions = some (edges, left) ∧
      edges.map Edge.event = edgesOf (start.timeline actions) ∧
      left.Holds (start.session actions).schedule := by
  obtain ⟨hedges, hschedule⟩ := start.follows_session actions
  obtain ⟨cp, lp, hcp, hlp, -, rfl⟩ := eq_of_new hnew
  obtain rfl := Except.ok.inj (hcontrol.symm.trans hcp)
  obtain rfl := Except.ok.inj (hlink.symm.trans hlp)
  rw [hedges, hschedule]
  refine (EdgeQueue.holds_opening _ _ _).serve (fun d => ?_) _
  cases d <;> rfl

end Simulation
end LinkBridge
