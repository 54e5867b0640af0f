import LinkBridge.Proofs.Bridge.Setting

/-!
The two directions of the bridge keep apart.

Both directions share the link cycle, the transport and the registers.  `transmitting` is a session
with everything blanked that belongs to the receive direction alone, and `receiving` one without
what belongs to the transmit direction alone.  What an operation does to either part depends on that
part only, apart from loopback, which leads from the one to the other.  So each part runs as a
session of its own, on those operations that concern it.
-/

namespace LinkBridge

open Crossing

namespace Transport

def withoutReceive (t : Transport) : Transport := { t with received := #[], limit := none }

def withoutTransmit (t : Transport) : Transport := { t with pending := [], sent := 0 }

theorem withoutReceive_acceptOffered (t : Transport) :
    t.acceptOffered.withoutReceive = t.withoutReceive.acceptOffered.withoutReceive := by
  obtain ⟨pending, received, limit, sent⟩ := t
  cases pending <;> rfl

@[simp] theorem withoutTransmit_acceptOffered (t : Transport) :
    t.acceptOffered.withoutTransmit = t.withoutTransmit := by
  simp only [acceptOffered]
  split <;> rfl

end Transport

namespace Bridge

def withoutReceive (b : Bridge) : Bridge :=
  { control := { b.control with aligned := false, errors := 0 }
    link :=
      { b.link with
        rxConverter := {}, checker := {}, aligner := {}, rxBoundary := default, overflows := 0 }
    crossings :=
      { b.crossings with
        rxFifo := Fifo.new 0 0, aligned := Chain.new 0 false, errors := BusCrossing.new 0 0 } }

def withoutTransmit (b : Bridge) : Bridge :=
  { control := { b.control with txPattern := {} }
    link := { b.link with txConverter := {}, generator := {}, txPads := default }
    crossings :=
      { b.crossings with txFifo := Fifo.new 0 0, txPattern := Chain.new 0 {} } }

variable (b : Bridge) (t : Transport)

/-! ### The transmit direction -/

theorem tickLink_withoutReceive (received other : LinkSample) :
    (b.tickLink received).withoutReceive =
      (b.withoutReceive.tickLink other).withoutReceive := rfl

theorem writeRegister_withoutReceive (r : Register) (value : UInt32) :
    (b.writeRegister r value).withoutReceive =
      (b.withoutReceive.writeRegister r value).withoutReceive := by
  cases r <;> rfl

theorem tickControl_withoutReceive :
    (b.tickControl t).1.withoutReceive =
      (b.withoutReceive.tickControl t.withoutReceive).1.withoutReceive := rfl

theorem transport_withoutReceive :
    (b.tickControl t).2.withoutReceive =
      (b.withoutReceive.tickControl t.withoutReceive).2.withoutReceive := by
  have hdeliver : ∀ (o : Option SampleWord) (u : Transport),
      (o.elim u u.deliver).withoutReceive = u.withoutReceive := by
    intro o u
    cases o <;> rfl
  rw [transport_tickControl, transport_tickControl, hdeliver, hdeliver]
  show (if (b.crossings.txFifo.accepted t.offered).isSome then t.acceptOffered
      else t).withoutReceive =
    (if (b.crossings.txFifo.accepted t.offered).isSome then t.withoutReceive.acceptOffered
      else t.withoutReceive).withoutReceive
  split
  · exact t.withoutReceive_acceptOffered
  · rfl

/-! ### The receive direction -/

variable {b}

/-- Without loopback the receive half of a link cycle does not look at what is sent. -/
theorem tickLink_of_loopback_off (h : b.linkControls.loopback = false) (received : LinkSample) :
    b.tickLink received =
      let x := b.crossings.tickControls
      let (link, txFifo, tx) := b.link.transmit x.txFifo x.controls.tx
      let (link, rxFifo) := link.receive x.rxFifo x.controls default received
      let (link, crossings) := report link { x with txFifo, rxFifo }
      { control := b.control, crossings,
        link := { link with txPads := tx, frame := !link.frame } } := by
  have hreceive : ∀ (l : LinkSide) (fifo : Fifo SampleWord) (tx : LinkSample),
      l.receive fifo b.crossings.tickControls.controls tx received =
        l.receive fifo b.crossings.tickControls.controls default received := by
    have hloop : b.crossings.tickControls.controls.loopback = false := h
    intro l fifo tx
    simp only [LinkSide.receive, Routing.rxSample, hloop, Bool.false_eq_true, if_false]
  simp only [tickLink]
  rw [hreceive]

theorem tickLink_withoutTransmit (h : b.linkControls.loopback = false) (received : LinkSample) :
    (b.tickLink received).withoutTransmit =
      (b.withoutTransmit.tickLink received).withoutTransmit := by
  rw [tickLink_of_loopback_off h, tickLink_of_loopback_off (b := b.withoutTransmit) h]
  rfl

variable (b)

theorem writeRegister_withoutTransmit (r : Register) (value : UInt32) :
    (b.writeRegister r value).withoutTransmit =
      (b.withoutTransmit.writeRegister r value).withoutTransmit := by
  cases r <;> rfl

theorem tickControl_withoutTransmit :
    (b.tickControl t).1.withoutTransmit =
      (b.withoutTransmit.tickControl t.withoutTransmit).1.withoutTransmit := by
  apply Bridge.ext
  · rfl
  · rfl
  · apply Crossings.ext
    case rxFifo =>
      show (b.tickControl t).1.crossings.rxFifo =
        (b.withoutTransmit.tickControl t.withoutTransmit).1.crossings.rxFifo
      rw [rxFifo_tickControl, rxFifo_tickControl]
      rfl
    all_goals rfl

theorem transport_withoutTransmit :
    (b.tickControl t).2.withoutTransmit =
      (b.withoutTransmit.tickControl t.withoutTransmit).2.withoutTransmit := by
  have haccept : ∀ (c : Bool) (u : Transport),
      (if c then u.acceptOffered else u).withoutTransmit = u.withoutTransmit := by
    intro c u
    cases c
    · rfl
    · exact u.withoutTransmit_acceptOffered
  have hdeliver : ∀ (o : Option SampleWord) (u : Transport),
      (o.elim u u.deliver).withoutTransmit =
        o.elim u.withoutTransmit u.withoutTransmit.deliver := by
    intro o u
    cases o <;> rfl
  rw [transport_tickControl, transport_tickControl, hdeliver, hdeliver, haccept, haccept]
  rfl

end Bridge

namespace Operation

/-- What the transmit direction sees of an operation: not what is received, and nothing that only
concerns the words received. -/
def transmitView : Operation → Option Operation
  | .link _ => some (.link default)
  | .read _ | .take => none
  | o => some o

/-- What the receive direction sees of an operation: neither words to send nor the pattern that is
transmitted. -/
def receiveView : Operation → Option Operation
  | .read _ | .send _ => none
  | .write address value =>
    if address = Register.txPattern.address then none else some (.write address value)
  | o => some o

abbrev KeepsLoopbackOff : Operation → Prop :=
  WritesOnly .control fun value => (ControlReg.ofBits value).loopback = false

end Operation

namespace Session

def transmitting (s : Session) : Session :=
  { bridge := s.bridge.withoutReceive, transport := s.transport.withoutReceive }

def receiving (s : Session) : Session :=
  { bridge := s.bridge.withoutTransmit, transport := s.transport.withoutTransmit }

/-- The loopback bit is neither set nor on its way. -/
abbrev LoopbackOff (s : Session) : Prop := Setting.loopback.Keeps (· = false) s.bridge

theorem transmitting_step (s : Session) (o : Operation) :
    (s.step o).transmitting =
      o.transmitView.elim s.transmitting fun o => (s.transmitting.step o).transmitting := by
  cases o with
  | control =>
    have hbridge := s.bridge.tickControl_withoutReceive s.transport
    have htransport := s.bridge.transport_withoutReceive s.transport
    exact Session.ext hbridge htransport
  | link received =>
    have hbridge := s.bridge.tickLink_withoutReceive received default
    exact Session.ext hbridge rfl
  | write address value =>
    show (s.step (.write address value)).transmitting =
      (s.transmitting.step (.write address value)).transmitting
    simp only [step, Bridge.write]
    cases Register.ofAddress address with
    | error e => rfl
    | ok r =>
      have hbridge := s.bridge.writeRegister_withoutReceive r value
      exact Session.ext hbridge rfl
  | _ => rfl

theorem receiving_step {s : Session} (o : Operation) (h : s.LoopbackOff) :
    (s.step o).receiving =
      o.receiveView.elim s.receiving fun o => (s.receiving.step o).receiving := by
  cases o with
  | control =>
    have hbridge := s.bridge.tickControl_withoutTransmit s.transport
    have htransport := s.bridge.transport_withoutTransmit s.transport
    exact Session.ext hbridge htransport
  | link received =>
    have hloop : s.bridge.linkControls.loopback = false := h.inForce
    have hbridge := Bridge.tickLink_withoutTransmit hloop received
    exact Session.ext hbridge rfl
  | write address value =>
    by_cases haddress : address = Register.txPattern.address
    · subst haddress
      rfl
    · have hview : (Operation.write address value).receiveView = some (.write address value) :=
        if_neg haddress
      rw [hview]
      show (s.step (.write address value)).receiving =
        (s.receiving.step (.write address value)).receiving
      simp only [step, Bridge.write]
      cases Register.ofAddress address with
      | error e => rfl
      | ok r =>
        have hbridge := s.bridge.writeRegister_withoutTransmit r value
        exact Session.ext hbridge rfl
  | _ => rfl

/-- Operations that look alike to the transmit direction do the same to it. -/
theorem transmitting_run {s u : Session} (h : s.transmitting = u.transmitting)
    {ops ops' : List Operation}
    (hops : ops.filterMap Operation.transmitView = ops'.filterMap Operation.transmitView) :
    (s.run ops).transmitting = (u.run ops').transmitting := by
  have hview : ∀ (s : Session) (ops : List Operation), (s.run ops).transmitting =
      Trace.final (fun v o => (step v o).transmitting) s.transmitting
        (ops.filterMap Operation.transmitView) :=
    fun s ops => Trace.final_view (P := fun _ => True) (fun _ _ _ _ => trivial)
      (fun s o _ _ => s.transmitting_step o) trivial (Trace.along_true s ops)
  rw [hview, hview, h, hops]

/-- Operations that look alike to the receive direction do the same to it, without loopback. -/
theorem receiving_run {s u : Session} (h : s.receiving = u.receiving) (hs : s.LoopbackOff)
    (hu : u.LoopbackOff) {ops ops' : List Operation} (hoff : ∀ o ∈ ops, o.KeepsLoopbackOff)
    (hoff' : ∀ o ∈ ops', o.KeepsLoopbackOff)
    (hops : ops.filterMap Operation.receiveView = ops'.filterMap Operation.receiveView) :
    (s.run ops).receiving = (u.run ops').receiving := by
  have hview : ∀ (s : Session) (ops : List Operation), s.LoopbackOff →
      (∀ o ∈ ops, o.KeepsLoopbackOff) → (s.run ops).receiving =
        Trace.final (fun v o => (step v o).receiving) s.receiving
          (ops.filterMap Operation.receiveView) :=
    fun s ops hs hoff => Trace.final_view (P := LoopbackOff) (fun _ o hs ho => hs.step ho)
      (fun _ o hs _ => receiving_step o hs) hs
      (Trace.along_of_forall s fun o ho _ => hoff o ho)
  rw [hview s ops hs hoff, hview u ops' hu hoff', h, hops]

/-! ### What can be observed -/

structure TransmitAgrees (s u : Session) : Prop where
  txPads_eq : s.bridge.txPads = u.bridge.txPads
  pending_eq : s.transport.pending = u.transport.pending
  sent_eq : s.transport.sent = u.transport.sent
  pins_eq : s.bridge.pins = u.bridge.pins
  taps_eq : s.bridge.taps = u.bridge.taps
  rxClockActive_eq : s.bridge.status.rxClockActive = u.bridge.status.rxClockActive
  cycles_eq : s.bridge.read Register.cycles.address = u.bridge.read Register.cycles.address

structure ReceiveAgrees (s u : Session) : Prop where
  received_eq : s.transport.received = u.transport.received
  linkErrors_eq : s.bridge.linkErrors = u.bridge.linkErrors
  linkAligned_eq : s.bridge.linkAligned = u.bridge.linkAligned
  overflows_eq : s.bridge.link.overflows = u.bridge.link.overflows
  rxErrors_eq : s.bridge.read Register.rxErrors.address = u.bridge.read Register.rxErrors.address

theorem transmitAgrees {s u : Session} (h : s.transmitting = u.transmitting) :
    s.TransmitAgrees u := by
  have hshown : ∀ {β : Type} (f : Session → β), f s.transmitting = f u.transmitting :=
    fun f => congrArg f h
  exact {
    txPads_eq := hshown (·.bridge.txPads)
    pending_eq := hshown (·.transport.pending)
    sent_eq := hshown (·.transport.sent)
    pins_eq := hshown (·.bridge.pins)
    taps_eq := hshown (·.bridge.taps)
    rxClockActive_eq := hshown (·.bridge.status.rxClockActive)
    cycles_eq := hshown (·.bridge.read Register.cycles.address) }

theorem receiveAgrees {s u : Session} (h : s.receiving = u.receiving) : s.ReceiveAgrees u := by
  have hshown : ∀ {β : Type} (f : Session → β), f s.receiving = f u.receiving :=
    fun f => congrArg f h
  exact {
    received_eq := hshown (·.transport.received)
    linkErrors_eq := hshown (·.bridge.linkErrors)
    linkAligned_eq := hshown (·.bridge.linkAligned)
    overflows_eq := hshown (·.bridge.link.overflows)
    rxErrors_eq := hshown (·.bridge.read Register.rxErrors.address) }

/-- Neither direction shows what the other one does.  The operations of two runs need only look
alike to the direction that is observed, so what one run does beyond that can stand anywhere, and
the runs agree after each operation that both make. -/
theorem duplex_isolated {p : BridgeParams} {b : Bridge} (hb : Bridge.new p = .ok b) :
    (∀ (t t' : Transport) (ops ops' : List Operation),
      t.pending = t'.pending → t.sent = t'.sent →
      ops.filterMap Operation.transmitView = ops'.filterMap Operation.transmitView →
      (run ⟨b, t⟩ ops).TransmitAgrees (run ⟨b, t'⟩ ops')) ∧
    (∀ (t t' : Transport) (ops ops' : List Operation),
      t.received = t'.received → t.limit = t'.limit →
      (∀ o ∈ ops, o.KeepsLoopbackOff) → (∀ o ∈ ops', o.KeepsLoopbackOff) →
      ops.filterMap Operation.receiveView = ops'.filterMap Operation.receiveView →
      (run ⟨b, t⟩ ops).ReceiveAgrees (run ⟨b, t'⟩ ops')) := by
  refine ⟨?_, ?_⟩
  · intro t t' ops ops' hpending hsent hops
    have hstart : transmitting ⟨b, t⟩ = transmitting ⟨b, t'⟩ := by
      simp only [transmitting, Transport.withoutReceive, hpending, hsent]
    exact transmitAgrees (transmitting_run hstart hops)
  · intro t t' ops ops' hreceived hlimit hoff hoff' hops
    have hstart : receiving ⟨b, t⟩ = receiving ⟨b, t'⟩ := by
      simp only [receiving, Transport.withoutTransmit, hreceived, hlimit]
    have hquiet : ∀ t : Transport, LoopbackOff ⟨b, t⟩ := by
      obtain rfl := Bridge.eq_ofParams hb
      exact fun t => ⟨rfl, Chain.Holds.new (P := (· = false)) rfl p.syncStages⟩
    exact receiveAgrees (receiving_run hstart (hquiet t) (hquiet t') hoff hoff' hops)

/-- Junk from outside and a transport that takes nothing in the one pair; words to send and a
pattern to transmit in the other. -/
theorem duplex_isolated_under_load :
    let start (t : Transport) : Session := ⟨Bridge.ofParams {}, t⟩
    let words : List SampleWord := [⟨0x12345678⟩, ⟨0x9abcdef0⟩]
    let stalled : Transport := { pending := words, limit := some 0 }
    let junk : LinkSample := .framed ⟨1, 2⟩ frameFirst
    let quietly : List Operation :=
      [.control, .link default, .link default, .control, .link default, .link default]
    let noisily : List Operation :=
      [.control, .link junk, .take, .link junk, .control, .link junk, .link junk]
    let listening : List Operation := [.control, .link junk, .control, .link default]
    let sending : List Operation :=
      [.send words, .write Register.txPattern.address 3, .control, .link junk, .control,
        .link default]
    Bridge.new {} = .ok (Bridge.ofParams {}) ∧
      quietly.filterMap Operation.transmitView = noisily.filterMap Operation.transmitView ∧
      ((start { pending := words }).run quietly).TransmitAgrees ((start stalled).run noisily) ∧
      (∀ o ∈ listening, o.KeepsLoopbackOff) ∧ (∀ o ∈ sending, o.KeepsLoopbackOff) ∧
      listening.filterMap Operation.receiveView = sending.filterMap Operation.receiveView ∧
      ((start {}).run listening).ReceiveAgrees ((start {}).run sending) := by
  intro start words stalled junk quietly noisily listening sending
  have hb : Bridge.new {} = .ok (Bridge.ofParams {}) := rfl
  have hshown : quietly.filterMap Operation.transmitView =
      noisily.filterMap Operation.transmitView := rfl
  have hlistening : ∀ o ∈ listening, o.KeepsLoopbackOff := by decide
  have hsending : ∀ o ∈ sending, o.KeepsLoopbackOff := by decide
  have hheard : listening.filterMap Operation.receiveView =
      sending.filterMap Operation.receiveView := by decide
  obtain ⟨htransmit, hreceive⟩ := duplex_isolated hb
  exact ⟨hb, hshown, htransmit _ _ _ _ rfl rfl hshown, hlistening, hsending, hheard,
    hreceive _ _ _ _ rfl rfl hlistening hsending hheard⟩

end Session
end LinkBridge
