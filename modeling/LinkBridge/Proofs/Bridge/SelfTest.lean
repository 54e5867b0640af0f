import LinkBridge.Proofs.Bridge.Loopback
import LinkBridge.Proofs.Crossing.Bus
import LinkBridge.Proofs.Pattern.Lockstep

/-!
The self-test in internal loopback.

Loopback bit and both pattern controls are set together and cross through chains of one length, so
the link side gets all three in the same cycle.  In that cycle the checker only starts, and whatever
the aligner still holds goes past it; the first sample of the generator enters the aligner, and from
then on the checker sees the generator's samples one cycle late.
-/

namespace LinkBridge

open Crossing

namespace Bridge

variable {b : Bridge} {m : PatternMode}

/-! ### Generator and checker in a link cycle -/

theorem generate_of_enabled (h : b.linkControls.tx = ⟨true, m⟩) :
    b.link.generate b.linkControls.tx =
      (b.link.generator.advance m b.link.frame,
        some (b.link.generator.sample m b.link.frame).word) := by
  rw [h]
  cases m <;> rfl

theorem sending_of_enabled (h : b.linkControls.tx = ⟨true, m⟩) :
    b.sending = b.link.generator.sample m b.link.frame := by
  have hgenerated : b.generated = some (b.link.generator.sample m b.link.frame).word := by
    unfold generated
    rw [generate_of_enabled h]
  unfold sending Routing.txWord
  rw [hgenerated]
  rfl

theorem native_tickLink (h : b.link.generator.Native) (received : LinkSample) :
    (b.tickLink received).link.generator.Native := by
  rw [generator_tickLink]
  exact Generator.native_tick h _ _ _

theorem checker_of_disabled (h : b.linkControls.rx.enable = false) (received : LinkSample) :
    (b.tickLink received).link.checker = { b.link.checker with enabled := false } := by
  rw [checker_tickLink, h]
  rfl

theorem checker_of_starting (h : b.linkControls.rx.enable = true)
    (henabled : b.link.checker.enabled = false) (received : LinkSample) :
    (b.tickLink received).link.checker = { enabled := true } := by
  rw [checker_tickLink, h]
  unfold Checker.tick Checker.ready
  rw [henabled]
  rfl

theorem enabled_of_enabled (h : b.linkControls.rx.enable = true) (received : LinkSample) :
    (b.tickLink received).link.checker.enabled = true := by
  rw [checker_tickLink, h]
  generalize (b.link.routed b.linkControls (b.boundary received)).bind
    Routing.Route.toChecker = sample
  unfold Checker.tick Checker.ready
  cases henabled : b.link.checker.enabled with
  | false => rfl
  | true => cases sample <;> simp [henabled]

/-- A running checker takes the sample that the aligner gives out. -/
theorem checked_of_running (h : b.linkControls.rx = ⟨true, m⟩)
    (henabled : b.link.checker.enabled = true) {received s : LinkSample}
    (hs : (b.link.aligner.tick (b.boundary received)).2 = some s) :
    (b.link.routed b.linkControls (b.boundary received)).bind Routing.Route.toChecker = some s := by
  have hready : b.link.checker.ready true = true := henabled
  unfold LinkSide.routed
  rw [hs, h, hready]
  rfl

theorem checker_of_running (h : b.linkControls.rx = ⟨true, m⟩)
    (henabled : b.link.checker.enabled = true) {received s : LinkSample}
    (hs : (b.link.aligner.tick (b.boundary received)).2 = some s) :
    (b.tickLink received).link.checker =
      { enabled := true
        errors := if (b.link.checker.memory.check m s).2 then b.link.checker.errors + 1
          else b.link.checker.errors
        memory := (b.link.checker.memory.check m s).1 } := by
  have hready : b.link.checker.ready true = true := henabled
  rw [checker_tickLink, checked_of_running h henabled hs, h]
  simp only [Checker.tick, hready, henabled, if_true]

/-! ### The test -/

/-- The link side after at least one cycle of the test: the aligner holds the generator's last
sample, and the checker waits for it. -/
structure Testing (m : PatternMode) (b : Bridge) : Prop where
  loopback_eq : b.crossings.loopback.output = true
  enabled_eq : b.link.checker.enabled = true
  sample : ∃ g : Generator, g.Native ∧ b.link.generator = g.advance m (!b.link.frame) ∧
    b.link.aligner.last = some (g.sample m (!b.link.frame)) ∧
    b.link.checker.memory.Awaits g m (!b.link.frame)

/-- Each control in a chain comes with the loopback bit in the same place of the other. -/
abbrev Paired (m : PatternMode) (bit : Bool) (c : PatternControl) : Prop :=
  c = if bit then ⟨true, m⟩ else {}

/-- The registers ask for the test. -/
structure Requested (m : PatternMode) (b : Bridge) : Prop where
  control_eq : b.control.control.loopback = true
  txPattern_eq : b.control.txPattern = ⟨true, m⟩
  rxPattern_eq : b.control.rxPattern = ⟨true, m⟩

/-- Neither clock has ticked since the bridge left reset. -/
structure Untouched (p : BridgeParams) (b : Bridge) : Prop where
  link_eq : b.link = (ofParams p).link
  crossings_eq : b.crossings = (ofParams p).crossings
  seen_eq : b.control.errors = 0

structure InSelfTest (m : PatternMode) (b : Bridge) : Prop extends b.Requested m where
  txPatterns : Chain.Alongside (Paired m) b.crossings.loopback b.crossings.txPattern
  rxPatterns : Chain.Alongside (Paired m) b.crossings.loopback b.crossings.rxPattern
  rising : b.crossings.loopback.Follows true
  mask_eq : b.link.loopbackMask &&& nativeMask = nativeMask
  native : b.link.generator.Native
  phase : b.link.checker.enabled = false ∨ b.Testing m
  errors_eq : b.link.checker.errors = 0
  crossing : b.crossings.errors.Holds (· = 0)
  seen_eq : b.control.errors = 0

theorem Requested.writeRegister (h : b.Requested m) {r : Register} {value : UInt32}
    (hcontrol : r = .control → (ControlReg.ofBits value).loopback = true)
    (htx : r = .txPattern → PatternControl.ofBits value = ⟨true, m⟩)
    (hrx : r = .rxPattern → PatternControl.ofBits value = ⟨true, m⟩) :
    (b.writeRegister r value).Requested m := by
  constructor
  · cases r with
    | control => exact hcontrol rfl
    | _ => exact h.control_eq
  · cases r with
    | txPattern => exact htx rfl
    | _ => exact h.txPattern_eq
  · cases r with
    | rxPattern => exact hrx rfl
    | _ => exact h.rxPattern_eq

theorem Untouched.writeRegister {p : BridgeParams} (h : b.Untouched p) (r : Register)
    (value : UInt32) : (b.writeRegister r value).Untouched p :=
  ⟨h.link_eq, h.crossings_eq, (errors_writeRegister r value).trans h.seen_eq⟩

namespace InSelfTest

/-- The bit and both patterns start side by side, so they also arrive together. -/
theorem start {p : BridgeParams} (hmask : p.loopbackMask &&& nativeMask = nativeMask)
    (huntouched : b.Untouched p) (hrequested : b.Requested m) : b.InSelfTest m where
  toRequested := hrequested
  txPatterns := by
    rw [huntouched.crossings_eq]
    exact Chain.Alongside.new (R := Paired m) (v := false) (w := {}) rfl _
  rxPatterns := by
    rw [huntouched.crossings_eq]
    exact Chain.Alongside.new (R := Paired m) (v := false) (w := {}) rfl _
  rising := by
    rw [huntouched.crossings_eq]
    exact (Chain.Follows.new p.syncStages false).mono (Bool.false_le true)
  mask_eq := by
    rw [huntouched.link_eq]
    exact hmask
  native := by
    rw [huntouched.link_eq]
    exact Generator.native_new
  phase := by
    rw [huntouched.link_eq]
    exact .inl rfl
  errors_eq := by
    rw [huntouched.link_eq]
    rfl
  crossing := by
    rw [huntouched.crossings_eq]
    exact BusCrossing.Holds.new (P := (· = 0)) rfl _
  seen_eq := huntouched.seen_eq

theorem linkControls_eq (h : b.InSelfTest m) :
    b.linkControls.tx = (if b.linkControls.loopback then ⟨true, m⟩ else {}) ∧
      b.linkControls.rx = (if b.linkControls.loopback then ⟨true, m⟩ else {}) :=
  ⟨h.txPatterns.tick.output, h.rxPatterns.tick.output⟩

theorem boundary_eq (h : b.InSelfTest m) (hloop : b.linkControls.loopback = true)
    (received : LinkSample) :
    b.boundary received = b.link.generator.sample m b.link.frame := by
  have htx := h.linkControls_eq.1
  rw [hloop, if_pos rfl] at htx
  have hword := (Generator.native_sample h.native m b.link.frame).masked h.mask_eq
  unfold boundary Routing.rxSample
  rw [hloop, sending_of_enabled htx, if_pos rfl, hword]

theorem testing_tickLink (h : b.InSelfTest m) (hloop : b.linkControls.loopback = true)
    (received : LinkSample) :
    (b.tickLink received).Testing m ∧ (b.tickLink received).link.checker.errors = 0 := by
  obtain ⟨htx, hrx⟩ := h.linkControls_eq
  rw [hloop, if_pos rfl] at htx hrx
  have hboundary := h.boundary_eq hloop received
  have hlast := b.last_tickLink received
  have hgenerator : (b.tickLink received).link.generator =
      b.link.generator.advance m b.link.frame := by
    rw [generator_tickLink, generate_of_enabled htx]
  -- the sample made in this cycle is the one that the checker gets in the next
  have htesting : ∀ c : Checker, (b.tickLink received).link.checker = c → c.enabled = true →
      c.memory.Awaits b.link.generator m b.link.frame → (b.tickLink received).Testing m := by
    intro c hc henabled hawaits
    refine ⟨?_, by rw [hc, henabled], b.link.generator, h.native, ?_, ?_, ?_⟩
    · rw [loopback_tickLink]
      exact hloop
    · rw [frame_tickLink, Bool.not_not, hgenerator]
    · rw [frame_tickLink, Bool.not_not, hlast, hboundary]
    · rw [frame_tickLink, Bool.not_not, hc]
      exact hawaits
  cases henabled : b.link.checker.enabled with
  | false =>
    have hchecker := checker_of_starting (by rw [hrx]) henabled received
    refine ⟨htesting _ hchecker rfl (CheckerMemory.awaits_empty _ _ _), ?_⟩
    rw [hchecker]
  | true =>
    have hphase : b.Testing m := by
      rcases h.phase with hoff | hphase
      · rw [henabled] at hoff
        exact absurd hoff (by simp)
      · exact hphase
    obtain ⟨g, hg, hnow, hheld, hawaits⟩ := hphase.sample
    have houtput : (b.link.aligner.tick (b.boundary received)).2 =
        some (g.sample m (!b.link.frame)) := by
      rw [hboundary, Aligner.tick_of_aligned _ (beq_self_eq_true _), hheld]
    have hchecker := checker_of_running hrx henabled houtput
    obtain ⟨hok, hnext⟩ := hawaits.check hg
    rw [hok, if_neg (by simp)] at hchecker
    rw [← hnow, Bool.not_not] at hnext
    refine ⟨htesting _ hchecker rfl hnext, ?_⟩
    rw [hchecker]
    exact h.errors_eq

theorem waiting_tickLink (h : b.InSelfTest m) (hloop : b.linkControls.loopback = false)
    (received : LinkSample) :
    (b.tickLink received).link.checker.enabled = false ∧
      (b.tickLink received).link.checker.errors = 0 := by
  have hrx := h.linkControls_eq.2
  rw [hloop, if_neg (by simp)] at hrx
  rw [checker_of_disabled (by rw [hrx])]
  exact ⟨rfl, h.errors_eq⟩

theorem tickLink (h : b.InSelfTest m) (received : LinkSample) :
    (b.tickLink received).InSelfTest m := by
  have hlink : ((b.tickLink received).link.checker.enabled = false ∨
      (b.tickLink received).Testing m) ∧ (b.tickLink received).link.checker.errors = 0 := by
    cases hloop : b.linkControls.loopback with
    | true => exact ⟨.inr (h.testing_tickLink hloop received).1,
        (h.testing_tickLink hloop received).2⟩
    | false => exact ⟨.inl (h.waiting_tickLink hloop received).1,
        (h.waiting_tickLink hloop received).2⟩
  exact {
    toRequested := ⟨h.control_eq, h.txPattern_eq, h.rxPattern_eq⟩
    txPatterns := h.txPatterns.tick
    rxPatterns := h.rxPatterns.tick
    rising := h.rising.tick
    mask_eq := h.mask_eq
    native := native_tickLink h.native received
    phase := hlink.1
    errors_eq := hlink.2
    crossing := by
      rw [errors_tickLink]
      exact h.crossing.sourceTick hlink.2
    seen_eq := h.seen_eq }

theorem tickControl (h : b.InSelfTest m) (t : Transport) :
    (b.tickControl t).1.InSelfTest m where
  toRequested := ⟨h.control_eq, h.txPattern_eq, h.rxPattern_eq⟩
  txPatterns := by
    rw [loopback_tickControl, txPattern_tickControl, h.control_eq, h.txPattern_eq]
    exact ⟨rfl, h.txPatterns.2⟩
  rxPatterns := by
    rw [loopback_tickControl, rxPattern_tickControl, h.control_eq, h.rxPattern_eq]
    exact ⟨rfl, h.rxPatterns.2⟩
  rising := by
    rw [loopback_tickControl, h.control_eq]
    exact h.rising.drive
  mask_eq := h.mask_eq
  native := h.native
  phase := by
    refine h.phase.imp id fun htesting => ⟨?_, htesting.enabled_eq, htesting.sample⟩
    have hle := h.rising.output_le_drive
    rw [htesting.loopback_eq] at hle
    rw [loopback_tickControl, h.control_eq]
    exact top_le_iff.mp hle
  errors_eq := h.errors_eq
  crossing := h.crossing.destinationTick
  seen_eq := h.crossing.destinationTick.value

theorem writeRegister (h : b.InSelfTest m) {r : Register} {value : UInt32}
    (hcontrol : r = .control → (ControlReg.ofBits value).loopback = true)
    (htx : r = .txPattern → PatternControl.ofBits value = ⟨true, m⟩)
    (hrx : r = .rxPattern → PatternControl.ofBits value = ⟨true, m⟩) :
    (b.writeRegister r value).InSelfTest m where
  toRequested := h.toRequested.writeRegister hcontrol htx hrx
  txPatterns := h.txPatterns
  rxPatterns := h.rxPatterns
  rising := h.rising
  mask_eq := h.mask_eq
  native := h.native
  phase := h.phase.imp id fun ht => ⟨ht.loopback_eq, ht.enabled_eq, ht.sample⟩
  errors_eq := h.errors_eq
  crossing := h.crossing
  seen_eq := (errors_writeRegister r value).trans h.seen_eq

end InSelfTest
end Bridge
end LinkBridge
