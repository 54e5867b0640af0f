import LinkBridge.Proofs.Bridge.Realigned
import LinkBridge.Proofs.Simulation.Session
import LinkBridge.Proofs.Transceiver

/-!
Two simulations that differ in the phase of the transceiver.

In the receive eye and with both enables, the aligner gives out the sample that was driven one cycle
before, whether the stream is late or not (`Steady.cycle`).  So the two stay twins: equal but for
the phase, the state of the alignment and what a recording shows of it.
-/

namespace LinkBridge

open Crossing LinkSample

/-- The parameters with another phase of the transceiver. -/
def SimulationParams.withPhase (p : SimulationParams) (late : Bool) : SimulationParams :=
  { p with transceiver := { p.transceiver with phaseInverted := late } }

namespace Simulation

variable {s : Simulation} {b : Bridge} {x : Transceiver} {n : Nat}

/-! ### One run -/

/-- In its link cycle the transceiver sees both enables, and the data tap lies in its eye. -/
@[mk_iff]
structure Receiving (s : Simulation) : Prop where
  txEnable_eq :
    s.transceiver.params.polarity.txEnable.asserted s.bridge.pins.txEnable = true
  rxEnable_eq :
    s.transceiver.params.polarity.rxEnable.asserted s.bridge.pins.rxEnable = true
  rxEye_eq : s.transceiver.params.rxEye.contains s.bridge.taps.2 = true

instance : DecidablePred Receiving := fun s => decidable_of_iff _ (receiving_iff s).symm

/-- After a number of link cycles, none of them in internal loopback. -/
structure Steady (b : Bridge) (x : Transceiver) (cycles : Nat) : Prop where
  loopback_eq : b.control.control.loopback = false
  crossing : b.crossings.loopback.Holds (· = false)
  txPads_eq : ∃ word, b.txPads = .framed word (!b.link.frame)
  realigns : Realigns x.params.phaseInverted (decide (0 < cycles)) b.link.aligner.last x.held
    (x.joining (!b.link.frame))

namespace Steady

/-- A new transceiver holds nothing but zeros. -/
theorem realigns_new (q : TransceiverParams) (frame : Bool) :
    Realigns q.phaseInverted false none (Transceiver.held (.new q)) frame := by
  obtain ⟨zeros, hheld⟩ :
      ∃ k, Transceiver.held (.new q) = List.replicate (k + 1) default ++ [] := by
    simp only [List.append_nil]
    unfold Transceiver.held Transceiver.new
    cases q.mode with
    | loopback => exact ⟨q.latency, rfl⟩
    | ramp => exact ⟨0, rfl⟩
  rw [hheld]
  exact .quiet zeros (.nil frame)

theorem new (p : BridgeParams) (q : TransceiverParams) :
    Steady (.ofParams p) (.new q) 0 where
  loopback_eq := rfl
  crossing := Chain.Holds.new (P := (· = false)) rfl p.syncStages
  txPads_eq := ⟨default, rfl⟩
  realigns := realigns_new q _

theorem tickControl (h : Steady b x n) (t : Transport) : Steady (b.tickControl t).1 x n where
  loopback_eq := h.loopback_eq
  crossing := by
    rw [Bridge.loopback_tickControl, h.loopback_eq]
    exact h.crossing.drive rfl
  txPads_eq := h.txPads_eq
  realigns := h.realigns

theorem boundary_eq (h : Steady b x n) (received : LinkSample) :
    b.boundary received = received := by
  have hloop : b.linkControls.loopback = false := h.crossing.tick.output
  unfold Bridge.boundary Routing.rxSample
  rw [hloop]
  rfl

/-- The aligner gives out the sample driven before, late or not. -/
theorem cycle (h : Steady s.bridge s.transceiver s.linkCycles) (hs : s.Receiving) :
    (s.bridge.link.aligner.tick (s.bridge.boundary s.exchange.2)).2 =
        (if decide (0 < s.linkCycles) then some s.transceiver.previous else none) ∧
      Steady (s.bridge.tickLink s.exchange.2) s.exchange.1 (s.linkCycles + 1) := by
  obtain ⟨word, hpads⟩ := h.txPads_eq
  obtain ⟨w, current, rest, hjoined, hout, hheld, hjoining⟩ :=
    s.transceiver.tick_of_framed s.bridge.taps.1 hpads hs.txEnable_eq hs.rxEnable_eq hs.rxEye_eq
  have hparams : s.exchange.1.params = s.transceiver.params :=
    (s.transceiver.tick_keeps s.bridge.pins s.bridge.txPads s.bridge.taps.1 s.bridge.taps.2).1
  have hreceived : s.bridge.boundary s.exchange.2 =
      seen s.transceiver.params.phaseInverted s.transceiver.previous current :=
    (h.boundary_eq _).trans hout
  have hrealigns := h.realigns
  rw [Transceiver.held_eq] at hrealigns
  obtain ⟨hgiven, hnext⟩ := hrealigns.tick hjoined
  rw [← hreceived] at hgiven hnext
  refine ⟨hgiven, ?_⟩
  exact {
    loopback_eq := h.loopback_eq
    crossing := h.crossing.tick
    txPads_eq := ⟨_, by rw [Bridge.frame_tickLink, Bool.not_not]; rfl⟩
    realigns := by
      have hheld' : s.exchange.1.held = current :: rest := hheld
      have hjoining' : s.exchange.1.joining (!!s.bridge.link.frame) =
          !s.transceiver.joining (!s.bridge.link.frame) := hjoining
      rw [hparams, hheld', Bridge.frame_tickLink, hjoining', decide_eq_true (Nat.succ_pos _)]
      exact hnext }

theorem step (h : Steady s.bridge s.transceiver s.linkCycles)
    (hs : s.runsLink = true → s.Receiving) :
    Steady s.step.bridge s.step.transceiver s.step.linkCycles :=
  step_keeps s h (h.tickControl s.transport) fun hruns => (h.cycle (hs hruns)).2

end Steady

/-- An action that does not set the loopback bit. -/
def Action.KeepsLoopbackOff : Action → Prop
  | .write address value =>
    address = Register.control.address → (ControlReg.ofBits value).loopback = false
  | _ => True

instance : DecidablePred Action.KeepsLoopbackOff
  | .write _ _ => inferInstanceAs (Decidable (_ → _))
  | .step | .run _ | .runCycles _ | .read _ | .send _ | .take | .halt _ | .attach | .finish =>
    inferInstanceAs (Decidable True)

theorem Steady.conclude {a : Action} (h : Steady s.bridge s.transceiver s.linkCycles)
    (start : Time) (ha : a.KeepsLoopbackOff) :
    Steady (s.conclude start a).bridge (s.conclude start a).transceiver
      (s.conclude start a).linkCycles := by
  obtain ⟨hlink, hcrossings, htransceiver, hcycles⟩ := s.conclude_keeps start a
  rw [htransceiver, hcycles]
  rcases s.bridge_conclude start a with hsame | ⟨r, value, rfl, hwrite⟩
  · rw [hsame]
    exact h
  · rw [hwrite]
    refine ⟨?_, h.crossing, h.txPads_eq, h.realigns⟩
    cases r with
    | control => exact ha rfl
    | _ => exact h.loopback_eq

/-! ### Two runs -/

/-- The simulation with another phase, another state of the alignment and another recording. -/
def twin (s : Simulation) (late : Bool) (al : Alignment) (r : Option Waveform.Recording) :
    Simulation :=
  { s with
    bridge := s.bridge.realigned al
    transceiver := s.transceiver.withPhase late
    recording := r }

section Twin

variable {late : Bool} {al : Alignment} {r : Option Waveform.Recording} {a : Action}

theorem edges_twin : (s.twin late al r).edges a = s.edges a := by
  cases a <;> rfl

theorem Receiving.twin (h : s.Receiving) : (s.twin late al r).Receiving :=
  ⟨h.txEnable_eq, h.rxEnable_eq, h.rxEye_eq⟩

theorem step_twin (h : Steady s.bridge s.transceiver s.linkCycles)
    (htwin : Steady (s.twin late al r).bridge (s.twin late al r).transceiver
      (s.twin late al r).linkCycles)
    (hs : s.runsLink = true → s.Receiving) :
    ∃ al' r', (s.twin late al r).step = s.step.twin late al' r' := by
  cases hdue : s.schedule.due with
  | control =>
    obtain ⟨r₁, hstep⟩ := step_control hdue
    obtain ⟨r₂, hother⟩ := step_control (s := s.twin late al r) hdue
    have hcycle : (s.twin late al r).bridge.tickControl (s.twin late al r).transport =
        ((s.bridge.tickControl s.transport).1.realigned
            ((s.bridge.realigned al).tickControl s.transport).1.alignment,
          (s.bridge.tickControl s.transport).2) := s.bridge.tickControl_realigned al s.transport
    rw [hstep, hother, hcycle]
    exact ⟨_, r₂, rfl⟩
  | link =>
    obtain ⟨r₁, hstep⟩ := step_link hdue
    obtain ⟨r₂, hother⟩ := step_link (s := s.twin late al r) hdue
    have hruns : (s.twin late al r).runsLink = s.runsLink := rfl
    rw [hstep, hother, hruns]
    cases hrunning : s.runsLink with
    | false => exact ⟨al, r₂, rfl⟩
    | true =>
      have hreceiving := hs hrunning
      have hout := (htwin.cycle hreceiving.twin).1.trans (h.cycle hreceiving).1.symm
      have hbridge : (s.twin late al r).bridge.tickLink (s.twin late al r).exchange.2 =
          (s.bridge.tickLink s.exchange.2).realigned
            ((s.bridge.realigned al).tickLink (s.twin late al r).exchange.2).alignment :=
        s.bridge.tickLink_realigned al hout
      have htransceiver : (s.twin late al r).exchange.1 = s.exchange.1.withPhase late :=
        s.transceiver.tick_withPhase late _ _ _ _
      simp only [if_true]
      rw [hbridge, htransceiver]
      exact ⟨_, r₂, rfl⟩

theorem conclude_twin (start : Time) :
    ∃ al' r', (s.twin late al r).conclude start a = (s.conclude start a).twin late al' r' := by
  cases a with
  | run span =>
    simp only [conclude]
    split <;> exact ⟨al, r, rfl⟩
  | write address value =>
    simp only [conclude, act, Bridge.write]
    cases Register.ofAddress address with
    | error e => exact ⟨al, r, rfl⟩
    | ok register =>
      have hbridge : (s.twin late al r).bridge.writeRegister register value =
          (s.bridge.writeRegister register value).realigned al :=
        s.bridge.writeRegister_realigned al register value
      refine ⟨al, r, ?_⟩
      simp only [Except.map, hbridge]
      rfl
  | attach => exact ⟨al, some .start, rfl⟩
  | finish => exact ⟨al, r.map (·.finish), rfl⟩
  | _ => exact ⟨al, r, rfl⟩

end Twin

structure Paired (late : Bool) (s u : Simulation) : Prop where
  twin : ∃ al r, u = s.twin late al r
  steady : Steady s.bridge s.transceiver s.linkCycles
  other : Steady u.bridge u.transceiver u.linkCycles

namespace Paired

variable {late : Bool} {u : Simulation} {a : Action}

theorem step (h : Paired late s u) (hs : s.runsLink = true → s.Receiving) :
    Paired late s.step u.step := by
  obtain ⟨⟨al, r, rfl⟩, hsteady, hother⟩ := h
  exact ⟨step_twin hsteady hother hs, hsteady.step hs, hother.step fun hruns => (hs hruns).twin⟩

theorem steps (h : Paired late s u) (n : Nat)
    (hs : ∀ v ∈ (s.passed n).filter (·.runsLink), v.Receiving) :
    Paired late (s.steps n) (u.steps n) := by
  induction n generalizing s u with
  | zero => exact h
  | succ n ih =>
    have hmem : ∀ v ∈ s.passed (n + 1), v.runsLink = true → v.Receiving :=
      fun v hv hruns => hs v (List.mem_filter.mpr ⟨hv, hruns⟩)
    refine ih (h.step (hmem s List.mem_cons_self)) fun v hv => ?_
    obtain ⟨hpassed, hruns⟩ := List.mem_filter.mp hv
    exact hmem v (List.mem_cons_of_mem s hpassed) hruns

theorem act (h : Paired late s u) (ha : a.KeepsLoopbackOff)
    (hs : ∀ v ∈ s.executed a, v.Receiving) : Paired late (s.act a) (u.act a) := by
  have hedges : u.edges a = s.edges a := by
    obtain ⟨al, r, rfl⟩ := h.twin
    exact edges_twin
  have hnow : u.now = s.now := by
    obtain ⟨al, r, rfl⟩ := h.twin
    rfl
  obtain ⟨⟨al, r, hlast⟩, hsteady, hother⟩ := h.steps (s.edges a) hs
  rw [act_eq, act_eq, hedges, hnow]
  refine ⟨?_, hsteady.conclude s.now ha, hother.conclude s.now ha⟩
  rw [hlast]
  exact conclude_twin s.now

theorem session (h : Paired late s u) {actions : List Action}
    (hs : Trace.Along Simulation.act (Allowed Action.KeepsLoopbackOff Receiving) s actions) :
    Paired late (s.session actions) (u.session actions) := by
  induction actions generalizing s u with
  | nil => exact h
  | cons a rest ih =>
    obtain ⟨⟨ha, hcycles⟩, hrest⟩ := hs
    exact ih (h.act ha hcycles) hrest

end Paired

/-- What the owners of two simulations can compare. -/
structure Agrees (s u : Simulation) : Prop where
  txPads_eq : u.bridge.txPads = s.bridge.txPads
  received_eq : u.transport.received = s.transport.received
  pending_eq : u.transport.pending = s.transport.pending
  sent_eq : u.transport.sent = s.transport.sent
  linkErrors_eq : u.bridge.linkErrors = s.bridge.linkErrors
  errors_eq : u.bridge.read Register.rxErrors.address = s.bridge.read Register.rxErrors.address
  cycles_eq : u.bridge.read Register.cycles.address = s.bridge.read Register.cycles.address
  overflows_eq : u.bridge.link.overflows = s.bridge.link.overflows
  now_eq : u.now = s.now
  controlCycles_eq : u.controlCycles = s.controlCycles
  linkCycles_eq : u.linkCycles = s.linkCycles

theorem agrees_twin (s : Simulation) (late : Bool) (al : Alignment)
    (r : Option Waveform.Recording) : s.Agrees (s.twin late al r) :=
  ⟨rfl, rfl, rfl, rfl, rfl, rfl, rfl, rfl, rfl, rfl, rfl⟩

theorem paired_new {p : SimulationParams} {t : Transport} {phase other : Bool} {u : Simulation}
    (hs : Simulation.new (p.withPhase phase) t = .ok s)
    (hu : Simulation.new (p.withPhase other) t = .ok u) : Paired other s u := by
  obtain ⟨controlPeriod, linkPeriod, hcontrol, hlink, hbridge, rfl⟩ := eq_of_new hs
  have hsame := new_eq (p := p.withPhase other) hcontrol hlink hbridge t
  obtain rfl := Except.ok.inj (hu.symm.trans hsame)
  exact ⟨⟨(Bridge.ofParams p.bridge).alignment, none, rfl⟩, .new _ _, .new _ _⟩

/-- Two simulations that differ in the phase of the transceiver cannot be told apart, as long as
loopback stays off and every link cycle finds the enables asserted and the data tap in its eye. -/
theorem phase_inversion_transparent {p : SimulationParams} {t : Transport} {phase other : Bool}
    {u : Simulation} (hs : Simulation.new (p.withPhase phase) t = .ok s)
    (hu : Simulation.new (p.withPhase other) t = .ok u) {actions : List Action}
    (hactions : Trace.Along act (Allowed Action.KeepsLoopbackOff Receiving) s actions) :
    (s.session actions).Agrees (u.session actions) := by
  obtain ⟨al, r, hlast⟩ := ((paired_new hs hu).session hactions).twin
  rw [hlast]
  exact agrees_twin _ other al r

/-- Words sent with the clock tap outside its eye, then a pattern inside it, with the link clock
stopped in between. -/
theorem phase_inversion_transparent_outside_tx_eye :
    let p : SimulationParams := {}
    let start (late : Bool) :=
      onDefaultClocks p.bridge { p.transceiver with phaseInverted := late } {}
    let actions : List Action :=
      [.write Register.delay.address 0x1100, .send [⟨0x0123456789abcdef⟩, ⟨0xfedcba9876543210⟩],
        .runCycles 40, .write Register.delay.address 0x110e, .halt true, .run (.upTo 100000000),
        .halt false, .write Register.txPattern.address 3, .write Register.rxPattern.address 3,
        .runCycles 40, .write Register.cyclesLatch.address 0, .take]
    Simulation.new (p.withPhase false) {} = .ok (start false) ∧
      Simulation.new (p.withPhase true) {} = .ok (start true) ∧
      Trace.Along act (Allowed Action.KeepsLoopbackOff Receiving) (start false) actions ∧
      ((start false).session actions).Agrees ((start true).session actions) := by
  intro p start actions
  have hb : Bridge.new {} = .ok (.ofParams {}) := rfl
  have hearly : Simulation.new (p.withPhase false) {} = .ok (start false) :=
    new_onDefaultClocks hb _ _
  have hlate : Simulation.new (p.withPhase true) {} = .ok (start true) :=
    new_onDefaultClocks hb _ _
  have hactions : Trace.Along act (Allowed Action.KeepsLoopbackOff Receiving) (start false)
      actions := by
    decide +kernel
  exact ⟨hearly, hlate, hactions, phase_inversion_transparent hearly hlate hactions⟩

end Simulation
end LinkBridge
