import LinkBridge.Proofs.Simulation.Scanning

/-!
Cycles in which the checker compares.

An error count that stands still may be that of a checker with nothing to compare.  `compares` says
in which link cycles there is something: a sample with one before it in the counting pattern, a
second half with its first in the pseudo-random one.  In all others no error is counted
(`linkErrors_of_not_compares`).

With the counting pattern every link cycle compares once the enable has crossed (`Counting`).  With
the pseudo-random one a locked checker compares in one cycle of two, since first and second halves
take turns (`Locking.compares_eq`).
-/

namespace LinkBridge

namespace CheckerMemory

/-- There is something to compare a sample with. -/
def compares (mem : CheckerMemory) : PatternMode → LinkSample → Bool
  | .count, _ => mem.lastCount.isSome
  | .prbs, s => !s.isFirst && mem.firstHalf.isSome

variable {mem : CheckerMemory} {m : PatternMode} {s : LinkSample}

theorem check_of_not_compares (h : mem.compares m s = false) : (mem.check m s).2 = false := by
  cases m with
  | count =>
    have hnone : mem.lastCount = none := by simpa [compares] using h
    simp only [check, checkCount, hnone]
  | prbs =>
    simp only [check, checkPrbs]
    cases hfirst : s.isFirst with
    | true => rfl
    | false =>
      have hnone : mem.firstHalf = none := by simpa [compares, hfirst] using h
      rw [hnone]
      rfl

theorem isSome_lastCount (mem : CheckerMemory) (s : LinkSample) :
    (mem.check .count s).1.lastCount.isSome = true := rfl

theorem isSome_firstHalf (hs : s.isFirst = true) :
    (mem.check .prbs s).1.firstHalf.isSome = true := by
  simp only [check, checkPrbs, hs]
  rfl

theorem firstHalf_of_second (hs : s.isFirst = false) : (mem.check .prbs s).1.firstHalf = none := by
  simp only [check, checkPrbs, hs]
  cases hfirst : mem.firstHalf with
  | none => exact hfirst
  | some first => rfl

/-- Of the generator's samples, a second half comes next just if there is a first half to it. -/
theorem Seen.isFirst_sample {n : Nat} {g : Generator} {frame : Bool}
    (h : Seen .prbs (n + 1) mem g frame) :
    (g.sample .prbs frame).isFirst = !mem.firstHalf.isSome := by
  cases h with
  | @check _ mem₀ g₀ frame₀ hg h =>
    cases frame₀ with
    | true =>
      rw [isSome_firstHalf (s := g₀.sample .prbs true) rfl]
      rfl
    | false =>
      rw [firstHalf_of_second (s := g₀.sample .prbs false) rfl]
      rfl

end CheckerMemory

/-- The checker takes a sample in the coming link cycle and has something to compare it with. -/
def Bridge.compares (b : Bridge) (received : LinkSample) : Bool :=
  ((b.link.routed b.linkControls (b.boundary received)).bind Routing.Route.toChecker).any
    (b.link.checker.memory.compares b.linkControls.rx.mode)

/-- Without a comparison no error is counted. -/
theorem Bridge.linkErrors_of_not_compares {b : Bridge} {received : LinkSample}
    (h : b.compares received = false) :
    (b.tickLink received).linkErrors = b.linkErrors ∨ (b.tickLink received).linkErrors = 0 := by
  unfold compares at h
  unfold linkErrors
  rw [checker_tickLink]
  generalize (b.link.routed b.linkControls (b.boundary received)).bind
    Routing.Route.toChecker = sample at h ⊢
  unfold Checker.tick
  split
  · cases sample with
    | none => exact .inl rfl
    | some s =>
      left
      have hok := CheckerMemory.check_of_not_compares h
      simp only [hok, Bool.false_eq_true, if_false]
  · split
    · exact .inr rfl
    · exact .inl rfl

/-- A running checker compares the sample that the aligner gives out. -/
theorem Bridge.compares_of_running {b : Bridge} {m : PatternMode}
    (h : b.linkControls.rx = ⟨true, m⟩) (henabled : b.link.checker.enabled = true)
    {received s : LinkSample} (hs : (b.link.aligner.tick (b.boundary received)).2 = some s) :
    b.compares received = b.link.checker.memory.compares m s := by
  unfold compares
  rw [checked_of_running h henabled hs, h]
  rfl

namespace Simulation

open Crossing

variable {s : Simulation} {m : PatternMode} {stages n : Nat}

/-- The due edge is a link cycle in which the checker compares. -/
def compares (s : Simulation) : Bool := s.runsLink && s.bridge.compares s.exchange.2

theorem compares_of_runsLink (h : s.runsLink = true) :
    s.compares = s.bridge.compares s.exchange.2 := by
  unfold compares
  rw [h, Bool.true_and]

theorem linkCycles_of_runs (h : s.runsLink = true) : s.step.linkCycles = s.linkCycles + 1 := by
  rw [linkCycles_step, h]
  rfl

theorem linkCycles_of_idle (h : s.runsLink = false) : s.step.linkCycles = s.linkCycles := by
  rw [linkCycles_step, h]
  rfl

theorem link_step_of_idle (h : s.runsLink = false) : s.step.bridge.link = s.bridge.link :=
  congrArg Prod.fst (linkState_step_of_idle h)

theorem link_step_of_runs (h : s.runsLink = true) :
    s.step.bridge.link = (s.bridge.tickLink s.exchange.2).link :=
  congrArg Prod.fst (linkState_step h)

/-! ### The counting pattern -/

/-- With the counting pattern asked for since before the first edge, the link cycles that have run
say how far the checker is. -/
structure Counting (stages : Nat) (s : Simulation) : Prop where
  rxPattern : Setting.rxPattern.Stands stages ⟨true, .count⟩ s
  last : 0 < s.linkCycles → s.bridge.link.aligner.last.isSome = true
  enabled : stages ≤ s.linkCycles → s.bridge.link.checker.enabled = true
  lastCount : stages < s.linkCycles →
    s.bridge.link.checker.memory.lastCount.isSome = true

namespace Counting

theorem output (h : s.Counting stages) (hlate : stages ≤ s.linkCycles) (received : LinkSample) :
    ∃ sample, (s.bridge.link.aligner.tick (s.bridge.boundary received)).2 = some sample := by
  have hpos := h.rxPattern.stages_pos
  exact Aligner.exists_output (h.last (by omega)) _

theorem step (h : s.Counting stages) : s.step.Counting stages := by
  cases hruns : s.runsLink with
  | false =>
    have hlink := link_step_of_idle hruns
    have hcycles := linkCycles_of_idle hruns
    refine ⟨h.rxPattern.step, ?_, ?_, ?_⟩
    · rw [hlink, hcycles]
      exact h.last
    · rw [hlink, hcycles]
      exact h.enabled
    · rw [hlink, hcycles]
      exact h.lastCount
  | true =>
    have hlink := link_step_of_runs hruns
    have hcycles := linkCycles_of_runs hruns
    have hrx : stages ≤ s.linkCycles + 1 → s.bridge.linkControls.rx = ⟨true, .count⟩ :=
      h.rxPattern.inForce (due_of_runsLink hruns)
    refine ⟨h.rxPattern.step, ?_, ?_, ?_⟩
    · rw [hlink, Bridge.last_tickLink]
      exact fun _ => rfl
    · rw [hlink, hcycles]
      exact fun hlate => Bridge.enabled_of_enabled (by rw [hrx hlate]) _
    · rw [hlink, hcycles]
      intro hlate
      have hlate : stages ≤ s.linkCycles := Nat.le_of_lt_succ hlate
      obtain ⟨sample, hsample⟩ := h.output hlate s.exchange.2
      rw [Bridge.checker_of_running (hrx (Nat.le_succ_of_le hlate)) (h.enabled hlate) hsample]
      exact CheckerMemory.isSome_lastCount _ _

theorem steps (h : s.Counting stages) (n : Nat) : (s.steps n).Counting stages :=
  (forall_passed (P := Counting stages) (fun _ hu => hu.step) h n).2

theorem writeRegister (h : s.Counting stages) {r : Register} (hr : r ≠ .rxPattern)
    (value : UInt32) : (s.writeRegister r value).Counting stages :=
  ⟨h.rxPattern.writeRegister hr value, h.last, h.enabled, h.lastCount⟩

theorem atTime (h : s.Counting stages) (now : Time) : { s with now }.Counting stages :=
  ⟨h.rxPattern.atTime now, h.last, h.enabled, h.lastCount⟩

theorem compares_eq (h : s.Counting stages) (hruns : s.runsLink = true)
    (hlate : stages < s.linkCycles) : s.compares = true := by
  obtain ⟨sample, hsample⟩ := h.output (Nat.le_of_lt hlate) s.exchange.2
  have hrx : s.bridge.linkControls.rx = ⟨true, .count⟩ :=
    h.rxPattern.inForce (due_of_runsLink hruns) (by omega)
  rw [compares_of_runsLink hruns,
    Bridge.compares_of_running hrx (h.enabled (Nat.le_of_lt hlate)) hsample]
  exact h.lastCount hlate

end Counting

/-! ### The pseudo-random pattern -/

variable {p : SimulationParams} {base : Nat}

/-- A locked checker compares whenever it holds a first half, and takes one if it holds none. -/
theorem Locking.compares_eq {q : TransceiverParams} {cycles : Nat}
    (hlocking : Locking .prbs q cycles s.linkState) (h : s.ClosedLoop .prbs)
    (hmode : q.mode = .loopback) (hruns : s.runsLink = true) (hpast : q.latency + 2 ≤ cycles) :
    s.compares = s.bridge.link.checker.memory.firstHalf.isSome ∧
      (s.bridge.link.checker.memory.firstHalf = none →
        s.step.bridge.link.checker.memory.firstHalf.isSome = true) := by
  obtain ⟨g, frame, hseen, houtput⟩ := hlocking.output h hmode (by omega)
  have hrx : s.bridge.linkControls.rx = ⟨true, .prbs⟩ := by rw [h.controls_eq]
  obtain ⟨k, hk⟩ : ∃ k, cycles - (q.latency + 1) = k + 1 := ⟨cycles - (q.latency + 2), by omega⟩
  rw [hk] at hseen
  have hturn := hseen.isFirst_sample
  constructor
  · rw [compares_of_runsLink hruns, Bridge.compares_of_running hrx hlocking.enabled_eq houtput]
    show (!(g.sample .prbs frame).isFirst && _) = _
    rw [hturn, Bool.not_not, Bool.and_self]
  · intro hnone
    rw [hnone] at hturn
    rw [link_step_of_runs hruns, Bridge.checker_of_running hrx hlocking.enabled_eq houtput]
    exact CheckerMemory.isSome_firstHalf hturn

/-! ### A comparison within a run -/

/-- What holds as long as no cycle compares stops holding, so one does. -/
theorem exists_compares {P : Simulation → Prop} (hs : P s)
    (hstep : ∀ u, P u → (u.runsLink = true → u.compares = false) → P u.step)
    (hlast : ¬P (s.steps n)) : ∃ u ∈ (s.passed n).filter (·.runsLink), u.compares = true := by
  by_contra hnone
  refine hlast (steps_invariant hstep hs fun u hu => ?_)
  rw [← Bool.not_eq_true]
  exact fun hcompares => hnone ⟨u, hu, hcompares⟩

/-- With the counting pattern one link cycle is enough. -/
theorem Counting.exists_compares (h : s.Counting stages) (hlate : stages < s.linkCycles)
    (hmore : s.linkCycles + 1 ≤ (s.steps n).linkCycles) :
    ∃ u ∈ (s.passed n).filter (·.runsLink), u.compares = true := by
  refine Simulation.exists_compares
    (P := fun u => u.Counting stages ∧ u.linkCycles = s.linkCycles) ⟨h, rfl⟩ ?_
    (fun hlast => by omega)
  intro u hu hnot
  obtain ⟨hcounting, hsame⟩ := hu
  cases hruns : u.runsLink with
  | false => exact ⟨hcounting.step, (linkCycles_of_idle hruns).trans hsame⟩
  | true =>
    have hcompares := hcounting.compares_eq hruns (by omega)
    rw [hnot hruns] at hcompares
    exact nomatch hcompares

/-- With the pseudo-random one two are, if the checker has locked. -/
theorem Sighted.exists_compares (h : Sighted p .prbs base s)
    (hlate : base + p.transceiver.latency + 3 ≤ s.linkCycles)
    (hmore : s.linkCycles + 2 ≤ (s.steps n).linkCycles) :
    ∃ u ∈ (s.passed n).filter (·.runsLink), u.compares = true := by
  refine Simulation.exists_compares
    (P := fun u => Sighted p .prbs base u ∧ (u.linkCycles = s.linkCycles ∨
      u.linkCycles = s.linkCycles + 1 ∧
        u.bridge.link.checker.memory.firstHalf.isSome = true)) ⟨h, .inl rfl⟩ ?_
    (fun hlast => by omega)
  intro u hu hnot
  obtain ⟨hsighted, hcount⟩ := hu
  cases hruns : u.runsLink with
  | false =>
    rw [linkCycles_of_idle hruns, link_step_of_idle hruns]
    exact ⟨hsighted.step, hcount⟩
  | true =>
    have hloop := hsighted.closedLoop (due_of_runsLink hruns) (by omega)
    obtain ⟨hcompares, hnext⟩ := (hsighted.locking (by omega)).compares_eq hloop hsighted.mode_eq
      hruns (by omega)
    rw [hnot hruns] at hcompares
    refine ⟨hsighted.step, .inr ⟨?_, ?_⟩⟩
    · rcases hcount with hsame | ⟨-, hfirst⟩
      · rw [linkCycles_of_runs hruns, hsame]
      · rw [hfirst] at hcompares
        exact nomatch hcompares
    · exact hnext (Option.isNone_iff_eq_none.mp (Option.isSome_eq_false_iff.mp hcompares.symm))

end Simulation
end LinkBridge
