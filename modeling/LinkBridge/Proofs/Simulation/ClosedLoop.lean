import LinkBridge.Proofs.Bridge.SelfTest
import LinkBridge.Proofs.Simulation.Cycles
import LinkBridge.Proofs.Transceiver

/-!
The self-test through the transceiver.

In closed loop the samples of the generator pass the pads, the line of the transceiver, the link and
the aligner on their way to the checker.  Each cycle replaces one older sample, so after as many
cycles as there are places on the way only the generator's are left, one after the other.  Three of
them are enough for the checker to predict all that follow.
-/

namespace LinkBridge.Simulation

open LinkSample

variable {s u : Simulation} {m : PatternMode} {p : TransceiverParams}

/-- In its link cycle, generator and checker run one pattern without internal loopback, the
transceiver sees both enables, and both taps lie in their eyes. -/
@[mk_iff]
structure ClosedLoop (m : PatternMode) (s : Simulation) : Prop where
  controls_eq : s.bridge.linkControls = { loopback := false, tx := ⟨true, m⟩, rx := ⟨true, m⟩ }
  txEnable_eq :
    s.transceiver.params.polarity.txEnable.asserted s.bridge.pins.txEnable = true
  rxEnable_eq :
    s.transceiver.params.polarity.rxEnable.asserted s.bridge.pins.rxEnable = true
  txEye_eq : s.transceiver.params.txEye.contains s.bridge.taps.1 = true
  rxEye_eq : s.transceiver.params.rxEye.contains s.bridge.taps.2 = true

instance (m : PatternMode) : DecidablePred (ClosedLoop m) := fun s =>
  decidable_of_iff _ (closedLoop_iff m s).symm

/-! ### Every reachable state -/

/-- Cycles keep the parameters and the length of the line. -/
structure Fits (p : TransceiverParams) (x : LinkSide × Transceiver) : Prop where
  params_eq : x.2.params = p
  length_eq : x.2.line.length = p.latency
  native : x.1.generator.Native

theorem fits_step (hruns : u.runsLink = true) (h : Fits p u.linkState) :
    Fits p u.step.linkState := by
  obtain ⟨hparams, hlength⟩ := u.transceiver.tick_keeps u.bridge.pins u.bridge.txPads
    u.bridge.taps.1 u.bridge.taps.2
  rw [linkState_step hruns]
  exact ⟨hparams.trans h.params_eq, hlength.trans h.length_eq,
    Bridge.native_tickLink h.native u.exchange.2⟩

theorem fits_new {q : SimulationParams} {t : Transport} (hs : Simulation.new q t = .ok s) :
    Fits q.transceiver s.linkState := by
  obtain ⟨controlPeriod, linkPeriod, -, -, -, rfl⟩ := eq_of_new hs
  exact ⟨rfl, List.length_replicate, Generator.native_new⟩

/-! ### One cycle in closed loop -/

/-- The sample on the pads as the transceiver latches it. -/
def latched (s : Simulation) : LinkSample :=
  { s.bridge.txPads with word := s.bridge.txPads.word.masked nativeMask }

theorem latched_of_native {g : Generator} {frame : Bool} (hg : g.Native)
    (hpads : u.bridge.txPads = g.sample m frame) : u.latched = g.sample m frame := by
  unfold latched
  rw [hpads, Generator.native_sample hg m frame]

theorem exchange_closedLoop (h : u.ClosedLoop m) (hfits : Fits p u.linkState)
    (hmode : p.mode = .loopback) {sample : LinkSample} {line : List LinkSample}
    (hline : u.transceiver.line ++ [u.latched] = sample :: line) :
    u.exchange =
      ({ u.transceiver with line, previous := sample },
        seen p.phaseInverted u.transceiver.previous sample) := by
  have hparams : u.transceiver.params = p := hfits.params_eq
  have hexchange : u.exchange =
      ({ u.transceiver with line, previous := sample },
        seen u.transceiver.params.phaseInverted u.transceiver.previous sample) := by
    refine Transceiver.tick_of_eye (Transceiver.latch_of_eye h.txEnable_eq h.txEye_eq)
      (Transceiver.source_loopback ?_ hline) h.rxEnable_eq h.rxEye_eq
    rw [hparams]
    exact hmode
  rw [hexchange, hparams]

theorem linkState_closedLoop (h : u.ClosedLoop m) (hruns : u.runsLink = true)
    (hfits : Fits p u.linkState) (hmode : p.mode = .loopback) {sample : LinkSample}
    {line : List LinkSample} (hline : u.transceiver.line ++ [u.latched] = sample :: line) :
    u.step.linkState =
      ((u.bridge.tickLink (seen p.phaseInverted u.transceiver.previous sample)).link,
        { u.transceiver with line, previous := sample }) := by
  rw [linkState_step hruns, exchange_closedLoop h hfits hmode hline]

/-- The samples from the transceiver to the pads: some others, then those of the generator up to its
last.  The checker has seen some that the generator made before them. -/
structure Flowing (m : PatternMode) (others checked : Nat) (x : LinkSide × Transceiver)
    (first : Generator) (firstFrame : Bool) (g : Generator) (frame : Bool) : Prop where
  native : g.Native
  txPads_eq : x.1.txPads = g.sample m frame
  generator_eq : x.1.generator = g.advance m frame
  frame_eq : x.1.frame = !frame
  made : Generator.Made m others first firstFrame (x.2.previous :: x.2.line) g frame
  seen : CheckerMemory.Seen m checked x.1.checker.memory first firstFrame

/-- Some cycles after the first one in closed loop. -/
structure Locking (m : PatternMode) (p : TransceiverParams) (cycles : Nat)
    (x : LinkSide × Transceiver) : Prop extends Fits p x where
  enabled_eq : x.1.checker.enabled = true
  last_eq : ∃ before, x.1.aligner.last = some (LinkSample.seen p.phaseInverted before x.2.previous)
  flowing : ∃ first firstFrame g frame,
    Flowing m (p.latency + 1 - cycles) (cycles - (p.latency + 1)) x first firstFrame g frame

theorem boundary_closedLoop (h : u.ClosedLoop m) (received : LinkSample) :
    u.bridge.boundary received = received := by
  unfold Bridge.boundary
  rw [h.controls_eq]
  rfl

theorem locking_closedLoop {cycles : Nat} (h : u.ClosedLoop m) (hruns : u.runsLink = true)
    (hfits : Fits p u.linkState) (hmode : p.mode = .loopback) {sample : LinkSample}
    {line : List LinkSample} (hline : u.transceiver.line ++ [u.latched] = sample :: line)
    {first : Generator} {firstFrame : Bool}
    (hmade : Generator.Made m (p.latency + 1 - cycles) first firstFrame (sample :: line)
      u.bridge.link.generator u.bridge.link.frame)
    (hseen : CheckerMemory.Seen m (cycles - (p.latency + 1))
      (u.bridge.tickLink
        (seen p.phaseInverted u.transceiver.previous sample)).link.checker.memory
      first firstFrame) :
    Locking m p cycles u.step.linkState := by
  have hstep := fits_step hruns hfits
  rw [linkState_closedLoop h hruns hfits hmode hline] at hstep ⊢
  exact {
    toFits := hstep
    enabled_eq := Bridge.enabled_of_enabled (by rw [h.controls_eq]) _
    last_eq := ⟨u.transceiver.previous, by rw [Bridge.last_tickLink, boundary_closedLoop h]⟩
    flowing := ⟨first, firstFrame, u.bridge.link.generator, u.bridge.link.frame, {
      native := hfits.native
      txPads_eq := Bridge.sending_of_enabled (by rw [h.controls_eq])
      generator_eq := by
        rw [Bridge.generator_tickLink, Bridge.generate_of_enabled (by rw [h.controls_eq])]
      frame_eq := rfl
      made := hmade
      seen := hseen }⟩ }

theorem locking_start (h : u.ClosedLoop m) (hruns : u.runsLink = true)
    (hfits : Fits p u.linkState) (hmode : p.mode = .loopback) :
    Locking m p 0 u.step.linkState := by
  obtain ⟨sample, line, hline⟩ := Transceiver.exists_oldest u.transceiver.line u.latched
  have hlength : (sample :: line).length = p.latency + 1 := by
    rw [← hline, List.length_append]
    exact congrArg (· + 1) hfits.length_eq
  have hmade : Generator.Made m (p.latency + 1 - 0) u.bridge.link.generator u.bridge.link.frame
      (sample :: line) u.bridge.link.generator u.bridge.link.frame := by
    rw [Nat.sub_zero, ← hlength]
    exact Generator.Made.others m _ _ _
  refine locking_closedLoop h hruns hfits hmode hline hmade ?_
  rw [Nat.zero_sub]
  exact .start _ _ _

/-- Once nothing else is left on the way, the aligner gives out the oldest of the samples. -/
theorem output_closedLoop (h : u.ClosedLoop m) {late : Bool} {before : LinkSample} {g : Generator}
    {frame : Bool}
    (hlast : u.bridge.link.aligner.last = some (seen late before (g.sample m frame))) :
    (u.bridge.link.aligner.tick (u.bridge.boundary
      (seen late (g.sample m frame) ((g.advance m frame).sample m (!frame))))).2 =
        some (g.sample m frame) := by
  have hstarted : u.bridge.link.aligner.last =
      if true then some (seen late before (g.sample m frame)) else none := hlast
  rw [boundary_closedLoop h]
  exact Aligner.tick_seen hstarted

/-- The checker gets this sample.  After three of them it finds nothing wrong. -/
theorem checked_closedLoop (h : u.ClosedLoop m) (henabled : u.bridge.link.checker.enabled = true)
    {late : Bool} {before : LinkSample} {g : Generator} {frame : Bool} (hg : g.Native)
    (hlast : u.bridge.link.aligner.last = some (seen late before (g.sample m frame)))
    {checked : Nat}
    (hseen : CheckerMemory.Seen m checked u.bridge.link.checker.memory g frame) :
    let next := u.bridge.tickLink
      (seen late (g.sample m frame) ((g.advance m frame).sample m (!frame)))
    CheckerMemory.Seen m (checked + 1) next.link.checker.memory (g.advance m frame) (!frame) ∧
      (3 ≤ checked → next.linkErrors = u.bridge.linkErrors) := by
  intro next
  have hchecker :=
    Bridge.checker_of_running (by rw [h.controls_eq]) henabled (output_closedLoop h hlast)
  refine ⟨?_, fun henough => ?_⟩
  · rw [hchecker]
    exact hseen.check hg
  · have hok := ((hseen.awaits henough).check hg).1
    show next.link.checker.errors = _
    rw [hchecker, hok]
    rfl

/-- The sample on the pads joins those on their way. -/
theorem Flowing.joined {others checked : Nat} {first g : Generator} {firstFrame frame : Bool}
    (h : Flowing m others checked u.linkState first firstFrame g frame) {sample : LinkSample}
    {line : List LinkSample} (hline : u.transceiver.line ++ [u.latched] = sample :: line) :
    Generator.Made m others first firstFrame (u.transceiver.previous :: sample :: line)
      u.bridge.link.generator u.bridge.link.frame := by
  have hjoined := h.made.snoc h.native
  rw [← h.generator_eq, ← h.frame_eq, ← latched_of_native h.native h.txPads_eq] at hjoined
  rw [← hline]
  exact hjoined

theorem locking_step {cycles : Nat} (h : u.ClosedLoop m) (hruns : u.runsLink = true)
    (hmode : p.mode = .loopback) (hlocking : Locking m p cycles u.linkState) :
    Locking m p (cycles + 1) u.step.linkState ∧
      (p.latency + 4 ≤ cycles → u.step.bridge.linkErrors = u.bridge.linkErrors) := by
  obtain ⟨before, hlast⟩ := hlocking.last_eq
  obtain ⟨first, firstFrame, g, frame, hflowing⟩ := hlocking.flowing
  obtain ⟨sample, line, hline⟩ := Transceiver.exists_oldest u.transceiver.line u.latched
  have hmade := hflowing.joined hline
  generalize hothers : p.latency + 1 - cycles = others at hmade
  generalize hprevious : u.transceiver.previous = previous at hmade
  -- either one of the other samples leaves, or the first of the generator's does
  cases hmade with
  | @other others _ _ _ _ _ _ hmade =>
    have hleft : p.latency + 1 - (cycles + 1) = others := by omega
    have hnone : cycles + 1 - (p.latency + 1) = 0 := by omega
    rw [← hleft] at hmade
    refine ⟨locking_closedLoop h hruns hlocking.toFits hmode hline hmade ?_, by omega⟩
    rw [hnone]
    exact .start _ _ _
  | sample hfirst hmade =>
    have hnone : p.latency + 1 - (cycles + 1) = 0 := by omega
    have hmore : cycles + 1 - (p.latency + 1) = cycles - (p.latency + 1) + 1 := by omega
    have hheld : u.bridge.link.aligner.last =
        some (seen p.phaseInverted before (first.sample m firstFrame)) := by
      rw [← hprevious]
      exact hlast
    obtain ⟨hseen, herrors⟩ :=
      checked_closedLoop h hlocking.enabled_eq hfirst hheld hflowing.seen
    rw [← hmade.head_eq, ← hprevious] at hseen herrors
    rw [← hnone] at hmade
    refine ⟨locking_closedLoop h hruns hlocking.toFits hmode hline hmade ?_, fun hlate => ?_⟩
    · rw [hmore]
      exact hseen
    · have hlink := linkState_closedLoop h hruns hlocking.toFits hmode hline
      have hcount := congrArg (fun x => x.1.checker.errors) hlink
      exact hcount.trans (herrors (by omega))

/-- From then on the checker takes the generator's samples one after the other. -/
theorem Locking.output {cycles : Nat} (hlocking : Locking m p cycles u.linkState)
    (h : u.ClosedLoop m) (hmode : p.mode = .loopback) (hpast : p.latency + 1 ≤ cycles) :
    ∃ g frame, CheckerMemory.Seen m (cycles - (p.latency + 1)) u.bridge.link.checker.memory g
        frame ∧
      (u.bridge.link.aligner.tick (u.bridge.boundary u.exchange.2)).2 =
        some (g.sample m frame) := by
  obtain ⟨before, hlast⟩ := hlocking.last_eq
  obtain ⟨first, firstFrame, g, frame, hflowing⟩ := hlocking.flowing
  obtain ⟨sample, line, hline⟩ := Transceiver.exists_oldest u.transceiver.line u.latched
  have hmade := hflowing.joined hline
  have hnone : p.latency + 1 - cycles = 0 := by omega
  rw [hnone] at hmade
  have hprevious := hmade.head_eq
  have hnext := hmade.tail.head_eq
  have hheld : u.bridge.link.aligner.last =
      some (seen p.phaseInverted before (first.sample m firstFrame)) := by
    rw [← hprevious]
    exact hlast
  refine ⟨first, firstFrame, hflowing.seen, ?_⟩
  rw [exchange_closedLoop h hlocking.toFits hmode hline, hprevious, hnext]
  exact output_closedLoop h hheld

/-! ### Stretches in closed loop -/

section Stretch

variable {x y : LinkSide × Transceiver} {stretch : List Simulation} {cycles : Nat}

theorem locking_stretch (hmode : p.mode = .loopback) (h : Carries x stretch y)
    (hx : Locking m p cycles x) (hloop : ∀ u ∈ stretch, u.ClosedLoop m) :
    Locking m p (cycles + stretch.length) y := by
  induction h generalizing cycles with
  | nil => exact hx
  | cons hruns _ ih =>
    obtain ⟨hnow, hlater⟩ := List.forall_mem_cons.mp hloop
    have hrest := ih (locking_step hnow hruns hmode hx).1 hlater
    rw [Nat.add_right_comm] at hrest
    exact hrest

theorem errors_stretch (hmode : p.mode = .loopback) (h : Carries x stretch y)
    (hx : Locking m p cycles x) (hlate : p.latency + 4 ≤ cycles)
    (hloop : ∀ u ∈ stretch, u.ClosedLoop m) :
    ∀ u ∈ stretch, u.bridge.linkErrors = x.1.checker.errors ∧
      u.step.bridge.linkErrors = x.1.checker.errors := by
  induction h generalizing cycles with
  | nil => exact fun _ hu => nomatch hu
  | @cons u rest y hruns _ ih =>
    obtain ⟨hnow, hlater⟩ := List.forall_mem_cons.mp hloop
    obtain ⟨hnext, hsame⟩ := locking_step hnow hruns hmode hx
    have hkept : u.step.linkState.1.checker.errors = u.linkState.1.checker.errors := hsame hlate
    have hrest := ih hnext (Nat.le_succ_of_le hlate) hlater
    rw [hkept] at hrest
    exact List.forall_mem_cons.mpr ⟨⟨rfl, hkept⟩, hrest⟩

/-- From any state, the first cycle in closed loop begins to fill the way. -/
theorem locking_lead (hmode : p.mode = .loopback) (h : Carries x stretch y) (hx : Fits p x)
    (hloop : ∀ u ∈ stretch, u.ClosedLoop m) (hlength : stretch.length = cycles + 1) :
    Locking m p cycles y := by
  cases h with
  | nil => simp at hlength
  | @cons u rest y hruns h =>
    obtain ⟨hnow, hlater⟩ := List.forall_mem_cons.mp hloop
    have hrest := locking_stretch hmode h (locking_start hnow hruns hx hmode) hlater
    rw [Nat.zero_add, Nat.succ.inj hlength] at hrest
    exact hrest

end Stretch

/-- However a session came there, over any stretch of link cycles in closed loop the checker's count
stands still after the cycles that the way through the transceiver takes and eight more. -/
theorem closed_loop_locks {q : SimulationParams} {t : Transport}
    (hs : Simulation.new q t = .ok s) (hmode : q.transceiver.mode = .loopback)
    {actions : List Action} {before stretch after : List Simulation}
    (hcycles : s.cycles actions = before ++ stretch ++ after)
    (hloop : ∀ u ∈ stretch, u.ClosedLoop m) :
    ∃ errors, ∀ u ∈ stretch.drop (q.transceiver.latency + 8),
      u.bridge.linkErrors = errors ∧ u.step.bridge.linkErrors = errors := by
  have hpath := s.carries_session actions
  rw [hcycles] at hpath
  obtain ⟨z, hpath, -⟩ := hpath.split
  obtain ⟨x, hbefore, hstretch⟩ := hpath.split
  have hx : Fits q.transceiver x := hbefore.invariant (fun _ => fits_step) (fits_new hs)
  rw [← stretch.take_append_drop (q.transceiver.latency + 8)] at hstretch
  obtain ⟨y, hlead, hrest⟩ := hstretch.split
  refine ⟨y.1.checker.errors, ?_⟩
  by_cases hlong : q.transceiver.latency + 8 ≤ stretch.length
  · have hlocking : Locking m q.transceiver (q.transceiver.latency + 7) y :=
      locking_lead hmode hlead hx (fun u hu => hloop u (List.mem_of_mem_take hu))
        (List.length_take_of_le hlong)
    exact errors_stretch hmode hrest hlocking (by omega)
      fun u hu => hloop u (List.mem_of_mem_drop hu)
  · rw [List.drop_eq_nil_of_le (by omega)]
    exact fun _ hu => nomatch hu

/-- The patterns start outside both eyes, on a late stream, and find errors before the taps move. -/
theorem closed_loop_locks_after_junk :
    let p : SimulationParams := { transceiver := { phaseInverted := true } }
    let start := onDefaultClocks p.bridge p.transceiver {}
    let actions : List Action :=
      [.write Register.txPattern.address 3, .write Register.rxPattern.address 3, .runCycles 12,
        .write Register.delay.address 0x110e, .runCycles 40]
    let before := (start.cycles actions).take 6
    let stretch := (start.cycles actions).drop 6
    Simulation.new p {} = .ok start ∧ p.transceiver.mode = .loopback ∧
      start.cycles actions = before ++ stretch ++ [] ∧ (∀ u ∈ stretch, u.ClosedLoop .prbs) ∧
      p.transceiver.latency + 8 < stretch.length ∧
      ∃ errors, ∀ u ∈ stretch.drop (p.transceiver.latency + 8),
        u.bridge.linkErrors = errors ∧ u.step.bridge.linkErrors = errors := by
  intro p start actions before stretch
  have hnew : Simulation.new p {} = .ok start := new_onDefaultClocks rfl _ _
  have hcycles : start.cycles actions = before ++ stretch ++ [] := by
    rw [List.append_nil, List.take_append_drop]
  have hloop : ∀ u ∈ stretch, u.ClosedLoop .prbs := by decide +kernel
  have hlong : p.transceiver.latency + 8 < stretch.length := by decide +kernel
  exact ⟨hnew, rfl, hcycles, hloop, hlong, closed_loop_locks hnew rfl hcycles hloop⟩

end LinkBridge.Simulation
