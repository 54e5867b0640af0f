import LinkBridge.Proofs.Bridge.Pipeline
import LinkBridge.Proofs.Bridge.Receive
import Mathlib.Data.Bool.Basic
import Mathlib.Order.BoundedOrder.Basic
import Mathlib.Order.Lattice

/-!
Sessions in internal loopback.

The loopback bit is set before the first word is offered, and both cross to the link side through
chains of the same length.  So a word that the link side can see is never ahead of the bit: while
the bit is not there the queue looks empty, the converters are at rest, and zeros from outside do
not disturb them.  From then on the path is a closed line.  What the transport gets is what it gave,
masked and without idle words, short of what overflowed or is still on the way.
-/

namespace LinkBridge

open Crossing

namespace Bridge

/-- No count of written words has come further towards the link side than the loopback bit. -/
structure Led (b : Bridge) (t : Totals) : Prop where
  tracks : b.crossings.txFifo.Tracks t
  source : 0 < t.written → b.crossings.loopback.source = true
  alongside : Chain.Alongside (fun count bit => 0 < count → bit = true) t.toReader
    b.crossings.loopback

structure InLoopback (mask : UInt32) (b : Bridge) : Prop where
  control_eq : b.control.control.loopback = true
  txPattern_eq : b.control.txPattern.enable = false
  rxPattern_eq : b.control.rxPattern.enable = false
  txPatterns : b.crossings.txPattern.Holds (·.enable = false)
  rxPatterns : b.crossings.rxPattern.Holds (·.enable = false)
  mask_eq : b.link.loopbackMask = mask
  led : ∃ t, b.Led t
  rising : b.crossings.loopback.Follows true
  looped : b.link.Looped
  quiet : b.crossings.loopback.output = false → b.link.Quiet

namespace Led

variable {b : Bridge} {t : Totals}

theorem tickControl (h : b.Led t) (hbit : b.control.control.loopback = true)
    (transport : Transport) :
    (b.tickControl transport).1.Led
      (t.write (b.crossings.txFifo.accepted transport.offered).isSome) where
  tracks := h.tracks.writeTick transport.offered
  source := by
    rw [loopback_tickControl, Chain.source_drive]
    exact fun _ => hbit
  alongside := ⟨fun _ => hbit, h.alongside.2⟩

theorem tickLink (h : b.Led t) (received : LinkSample) :
    (b.tickLink received).Led (t.take b.takes.isSome) where
  tracks := tracks_tickLink h.tracks received
  source := by
    rw [loopback_tickLink, Chain.source_tick]
    exact h.source
  alongside := by
    have hdriven : Chain.Alongside (fun count bit => 0 < count → bit = true)
        (t.toReader.drive t.written) b.crossings.loopback := ⟨h.source, h.alongside.2⟩
    exact hdriven.tick

theorem takes_eq_none (h : b.Led t) (hbit : b.crossings.loopback.output = false) :
    b.takes = none := by
  cases htakes : b.takes with
  | none => rfl
  | some w =>
    obtain ⟨-, -, -, hpeek⟩ := b.link.takes_some b.crossings.txFifo htakes
    have hcount := h.tracks.readable_iff.mp (Fifo.peek_some hpeek).1
    have hset := h.alongside.output (by omega)
    rw [hbit] at hset
    simp at hset

end Led

namespace InLoopback

variable {mask : UInt32} {b : Bridge}

theorem unpatterned (h : InLoopback mask b) : b.Unpatterned :=
  ⟨h.txPatterns.tick.output, h.rxPatterns.tick.output⟩

theorem tickControl (h : InLoopback mask b) (t : Transport) :
    InLoopback mask (b.tickControl t).1 where
  control_eq := by
    rw [controlReg_tickControl]
    exact h.control_eq
  txPattern_eq := by
    rw [txPatternReg_tickControl]
    exact h.txPattern_eq
  rxPattern_eq := by
    rw [rxPatternReg_tickControl]
    exact h.rxPattern_eq
  txPatterns := by
    rw [txPattern_tickControl]
    exact h.txPatterns.drive h.txPattern_eq
  rxPatterns := by
    rw [rxPattern_tickControl]
    exact h.rxPatterns.drive h.rxPattern_eq
  mask_eq := h.mask_eq
  led := by
    obtain ⟨u, hu⟩ := h.led
    exact ⟨_, hu.tickControl h.control_eq t⟩
  rising := by
    rw [loopback_tickControl, h.control_eq]
    exact h.rising.drive
  looped := h.looped
  quiet := by
    intro hbit
    have hle := h.rising.output_le_drive
    rw [loopback_tickControl, h.control_eq] at hbit
    rw [hbit] at hle
    exact h.quiet (le_bot_iff.mp hle)

/-- A link cycle moves words along the line, whether or not the bit is there. -/
theorem flow_tickLink (h : InLoopback mask b) {received : LinkSample}
    (hzero : b.linkControls.loopback = false → received.word = default) :
    (b.tickLink received).link.Looped ∧
      (b.linkControls.loopback = false → (b.tickLink received).link.Quiet) ∧
      SampleWord.nonIdle
          ((b.rebuilt received).toList ++ [(b.tickLink received).link.inFlight]) =
        SampleWord.nonIdle (b.link.inFlight :: b.takes.toList.map (·.masked mask)) := by
  cases hloop : b.linkControls.loopback with
  | true =>
    obtain ⟨hnext, hflow⟩ := looped_tickLink h.unpatterned hloop h.looped received
    rw [h.mask_eq] at hflow
    exact ⟨hnext, fun hbit => absurd hbit (by simp), hflow⟩
  | false =>
    have hle := h.rising.output_le_tick
    have hnow : b.crossings.loopback.tick.output = false := hloop
    have hbit : b.crossings.loopback.output = false := by
      rw [hnow] at hle
      exact le_bot_iff.mp hle
    obtain ⟨t, ht⟩ := h.led
    have htakes := ht.takes_eq_none hbit
    have hquiet := h.quiet hbit
    have hboundary : (b.boundary received).word = default := by
      unfold boundary Routing.rxSample
      rw [hloop]
      exact hzero hloop
    obtain ⟨hnext, hrebuilt⟩ := quiet_tickLink h.unpatterned hquiet htakes hboundary
    refine ⟨.quiet hnext, fun _ => hnext, ?_⟩
    rw [SampleWord.nonIdle_append, SampleWord.nonIdle_of_getD hrebuilt, hnext.inFlight_eq,
      hquiet.inFlight_eq, htakes]
    rfl

theorem tickLink (h : InLoopback mask b) {received : LinkSample}
    (hzero : b.linkControls.loopback = false → received.word = default) :
    InLoopback mask (b.tickLink received) where
  control_eq := by
    rw [control_tickLink]
    exact h.control_eq
  txPattern_eq := by
    rw [control_tickLink]
    exact h.txPattern_eq
  rxPattern_eq := by
    rw [control_tickLink]
    exact h.rxPattern_eq
  txPatterns := by
    rw [txPattern_tickLink]
    exact h.txPatterns.tick
  rxPatterns := by
    rw [rxPattern_tickLink]
    exact h.rxPatterns.tick
  mask_eq := by
    rw [loopbackMask_tickLink]
    exact h.mask_eq
  led := by
    obtain ⟨t, ht⟩ := h.led
    exact ⟨_, ht.tickLink received⟩
  rising := by
    rw [loopback_tickLink]
    exact h.rising.tick
  looped := (h.flow_tickLink hzero).1
  quiet := (h.flow_tickLink hzero).2.1

/-- A write that leaves the loopback bit and both pattern enables alone. -/
theorem writeRegister (h : InLoopback mask b) {r : Register} {value : UInt32}
    (hcontrol : r = .control → (ControlReg.ofBits value).loopback = true)
    (htx : r = .txPattern → (PatternControl.ofBits value).enable = false)
    (hrx : r = .rxPattern → (PatternControl.ofBits value).enable = false) :
    InLoopback mask (b.writeRegister r value) := by
  have hkept : ∀ c : ControlSide, c.control.loopback = true → c.txPattern.enable = false →
      c.rxPattern.enable = false → InLoopback mask { b with control := c } := by
    intro c hc hctx hcrx
    exact ⟨hc, hctx, hcrx, h.txPatterns, h.rxPatterns, h.mask_eq,
      h.led.imp fun t ht => ⟨ht.tracks, ht.source, ht.alongside⟩, h.rising, h.looped, h.quiet⟩
  apply hkept
  · cases r with
    | control => exact hcontrol rfl
    | _ => exact h.control_eq
  · cases r with
    | txPattern => exact htx rfl
    | _ => exact h.txPattern_eq
  · cases r with
    | rxPattern => exact hrx rfl
    | _ => exact h.rxPattern_eq

theorem start {p : BridgeParams} {value : UInt32}
    (hvalue : (ControlReg.ofBits value).loopback = true) :
    InLoopback p.loopbackMask ((ofParams p).writeRegister .control value) where
  control_eq := hvalue
  txPattern_eq := rfl
  rxPattern_eq := rfl
  txPatterns := Chain.Holds.new (P := fun c : PatternControl => c.enable = false) rfl p.syncStages
  rxPatterns := Chain.Holds.new (P := fun c : PatternControl => c.enable = false) rfl p.syncStages
  mask_eq := rfl
  led := by
    refine ⟨Totals.new p.syncStages, Fifo.tracks_new _ _, ?_, Chain.Alongside.new ?_ _⟩
    · exact fun h => absurd h (Nat.lt_irrefl 0)
    · exact fun h => absurd h (Nat.lt_irrefl 0)
  rising := (Chain.Follows.new p.syncStages false).mono (Bool.false_le true)
  looped := .quiet ⟨rfl, rfl, rfl⟩
  quiet := fun _ => ⟨rfl, rfl, rfl⟩

end InLoopback
end Bridge

namespace Session

/-- Loopback stays set, both patterns stay off, and until the bit has reached the link side nothing
but zeros is received. -/
def KeepsLoopback (s : Session) : Operation → Prop
  | .link received => s.bridge.linkControls.loopback = false → received.word = default
  | .write address value =>
    (address = Register.control.address → (ControlReg.ofBits value).loopback = true) ∧
      (address = Register.txPattern.address → (PatternControl.ofBits value).enable = false) ∧
      (address = Register.rxPattern.address → (PatternControl.ofBits value).enable = false)
  | _ => True

structure Looping (mask : UInt32) (s : Session) : Prop where
  valid : s.Valid
  bridge : s.bridge.InLoopback mask

/-- The words that the transport gave and that are still to be produced: the one between the
converters, then the queue. -/
def onLine (s : Session) : List SampleWord :=
  SampleWord.nonIdle
    (s.bridge.link.inFlight ::
      s.bridge.crossings.txFifo.queued.map (·.masked s.bridge.link.loopbackMask))

def expected (mask : UInt32) (s : Session) (o : Operation) : List SampleWord :=
  SampleWord.nonIdle ((s.taken o).map (·.masked mask))

variable {mask : UInt32} {s : Session}

theorem looping_step (o : Operation) (h : s.Looping mask) (ho : s.KeepsLoopback o) :
    (s.step o).Looping mask := by
  refine ⟨valid_step s o h.valid, ?_⟩
  cases o with
  | control => exact h.bridge.tickControl s.transport
  | link received => exact h.bridge.tickLink ho
  | write address value =>
    obtain ⟨hcontrol, htx, hrx⟩ := ho
    simp only [step, Bridge.write]
    cases haddress : Register.ofAddress address with
    | error e => exact h.bridge
    | ok r =>
      obtain rfl := Register.eq_address_of_ofAddress haddress
      refine h.bridge.writeRegister ?_ ?_ ?_
      · exact fun hr => hcontrol (congrArg _ hr)
      · exact fun hr => htx (congrArg _ hr)
      · exact fun hr => hrx (congrArg _ hr)
  | _ => exact h.bridge

theorem onLine_step (o : Operation) (h : s.Looping mask) (ho : s.KeepsLoopback o) :
    SampleWord.nonIdle (s.produced o) ++ (s.step o).onLine = s.onLine ++ s.expected mask o := by
  obtain ⟨u, hu⟩ := h.valid.txFifo
  have hmask : s.bridge.link.loopbackMask = mask := h.bridge.mask_eq
  unfold expected
  cases o with
  | control =>
    rw [taken_control]
    unfold onLine
    show [] ++ SampleWord.nonIdle (s.bridge.link.inFlight ::
      (s.bridge.tickControl s.transport).1.crossings.txFifo.queued.map
        (·.masked s.bridge.link.loopbackMask)) = _
    rw [List.nil_append, Bridge.txFifo_tickControl, hu.queued_writeTick, hmask, List.map_append,
      ← List.cons_append, SampleWord.nonIdle_append]
  | link received =>
    obtain ⟨-, -, hflow⟩ := h.bridge.flow_tickLink ho
    have hqueue := hu.queued_readTick s.bridge.takes.isSome
    rw [Bridge.taken_takes] at hqueue
    rw [s.taken_other (by simp)]
    unfold onLine
    show SampleWord.nonIdle (s.bridge.rebuilt received).toList ++ SampleWord.nonIdle
      ((s.bridge.tickLink received).link.inFlight ::
        (s.bridge.tickLink received).crossings.txFifo.queued.map
          (·.masked s.bridge.link.loopbackMask)) = _ ++ []
    rw [Bridge.txFifo_tickLink, ← hqueue, hmask, List.map_append, ← List.cons_append,
      SampleWord.nonIdle_append _ (List.map _ (Fifo.queued _)), ← hflow,
      ← SampleWord.nonIdle_append, List.append_nil, ← SampleWord.nonIdle_append, List.append_assoc]
    rfl
  | write address value =>
    have hsame : (s.step (.write address value)).onLine = s.onLine := by
      unfold onLine
      rw [link_write, crossings_write]
    rw [s.taken_other (by simp), hsame]
    exact (List.append_nil _).symm
  | _ =>
    rw [s.taken_other (by simp)]
    exact (List.append_nil _).symm

theorem onLine_run (hs : s.Looping mask) {ops : List Operation}
    (hops : Trace.Along step KeepsLoopback s ops) :
    SampleWord.nonIdle (Trace.gather step produced s ops) ++ (s.run ops).onLine =
      s.onLine ++ SampleWord.nonIdle ((Trace.gather step taken s ops).map (·.masked mask)) := by
  have hmoved : Trace.gather step (fun s o => SampleWord.nonIdle (s.produced o)) s ops ++
      (s.run ops).onLine = s.onLine ++ Trace.gather step (expected mask) s ops :=
    Trace.gather_balance onLine (fun s o => looping_step o) (fun s o => onLine_step o) hs hops
  have hexpected : SampleWord.nonIdle ((Trace.gather step taken s ops).map (·.masked mask)) =
      Trace.gather step (expected mask) s ops :=
    Trace.gather_hom (f := fun words : List SampleWord =>
        SampleWord.nonIdle (words.map (·.masked mask)))
      rfl (fun a b => by rw [List.map_append, SampleWord.nonIdle_append]) s ops
  rw [Trace.gather_hom rfl SampleWord.nonIdle_append, hmoved, hexpected]

theorem onLine_length_le (s : Session) :
    s.onLine.length ≤ s.bridge.crossings.txFifo.queued.length + 1 := by
  refine Nat.le_trans (List.length_filter_le _ _) ?_
  rw [List.length_cons, List.length_map]

theorem looping_start {p : BridgeParams} {b : Bridge} (hb : Bridge.new p = .ok b)
    (t : Transport) {value : UInt32} (hvalue : (ControlReg.ofBits value).loopback = true) :
    (step ⟨b, t⟩ (.write Register.control.address value)).Looping p.loopbackMask := by
  refine ⟨valid_step _ _ (valid_new hb t), ?_⟩
  obtain rfl := Bridge.eq_ofParams hb
  exact Bridge.InLoopback.start hvalue

theorem onLine_start {p : BridgeParams} {b : Bridge} (hb : Bridge.new p = .ok b)
    (t : Transport) {value : UInt32} (hvalue : (ControlReg.ofBits value).loopback = true) :
    (step ⟨b, t⟩ (.write Register.control.address value)).onLine = [] := by
  have hlooping := looping_start hb t hvalue
  obtain rfl := Bridge.eq_ofParams hb
  have hquiet := hlooping.bridge.quiet (Chain.output_new _ _)
  unfold onLine
  rw [hquiet.inFlight_eq, SampleWord.nonIdle_cons_default, crossings_write]
  show SampleWord.nonIdle (List.map _ (Fifo.queued (Fifo.new _ _))) = []
  rw [Fifo.queued_new]
  rfl

/-- Whatever the order of cycles, accesses and calls of the transport, what comes back in loopback
is what was sent, masked, with idle words left out on both sides; a prefix of it, short of no more
than two queues and one word, unless words overflowed. -/
theorem loopback_delivers {p : BridgeParams} {b : Bridge} (hb : Bridge.new p = .ok b)
    (t : Transport) {value : UInt32} (hvalue : (ControlReg.ofBits value).loopback = true)
    {ops : List Operation}
    (hops : Trace.Along step KeepsLoopback
      (step ⟨b, t⟩ (.write Register.control.address value)) ops) :
    let start := step ⟨b, t⟩ (.write Register.control.address value)
    let sent := SampleWord.nonIdle
      ((Trace.gather step taken start ops).map (·.masked p.loopbackMask))
    let received := SampleWord.nonIdle (Trace.gather step delivered start ops)
    received.Sublist sent ∧
      ((start.run ops).bridge.link.overflows = 0 →
        received <+: sent ∧ sent.length ≤ received.length + (2 * p.fifoDepth + 1)) := by
  intro start sent received
  have hlooping : start.Looping p.loopbackMask := looping_start hb t hvalue
  obtain ⟨htxLength, hrxLength⟩ : _ ∧ _ :=
    queued_length_run hb t (.write Register.control.address value :: ops)
  obtain ⟨hqueued, hoverflows⟩ : start.bridge.crossings.rxFifo.queued = [] ∧
      start.bridge.link.overflows = 0 := by
    obtain rfl := Bridge.eq_ofParams hb
    exact ⟨Fifo.queued_new _ _, rfl⟩
  -- up to the receive converter nothing is lost
  have hline : SampleWord.nonIdle (Trace.gather step produced start ops) ++
      (start.run ops).onLine = sent := by
    have hmoved := onLine_run hlooping hops
    rw [onLine_start hb t hvalue] at hmoved
    exact hmoved
  -- behind it only overflows are
  have hstored : received ++ SampleWord.nonIdle (start.run ops).bridge.crossings.rxFifo.queued =
      SampleWord.nonIdle (Trace.gather step stored start ops) := by
    have hmoved := stored_run hlooping.valid ops
    rw [hqueued, List.nil_append] at hmoved
    rw [← hmoved, SampleWord.nonIdle_append]
  have hpart := stored_sublist_run hlooping.valid ops
  refine ⟨?_, ?_⟩
  · have hreceived : received.Sublist (SampleWord.nonIdle (Trace.gather step stored start ops)) :=
      hstored ▸ List.sublist_append_left _ _
    have hproduced : (SampleWord.nonIdle (Trace.gather step produced start ops)).Sublist sent :=
      hline ▸ List.sublist_append_left _ _
    exact (hreceived.trans (hpart.filter _)).trans hproduced
  · intro hnone
    have hlost := overflows_run hlooping.valid ops
    rw [hoverflows, hnone, Nat.add_zero, Nat.add_zero] at hlost
    rw [← hpart.eq_of_length hlost.symm, ← hstored, List.append_assoc] at hline
    refine ⟨⟨_, hline⟩, ?_⟩
    have hrx : (SampleWord.nonIdle (start.run ops).bridge.crossings.rxFifo.queued).length ≤
        p.fifoDepth := Nat.le_trans (List.length_filter_le _ _) hrxLength
    have htx : (start.run ops).onLine.length ≤ p.fifoDepth + 1 :=
      Nat.le_trans (onLine_length_le _) (Nat.succ_le_succ htxLength)
    have hlength := congrArg List.length hline
    rw [List.length_append, List.length_append] at hlength
    omega

/-- One word, and a sample from outside as soon as the bit has arrived. -/
theorem loopback_delivers_word :
    let p : BridgeParams := {}
    let value : UInt32 := 0x10000
    let t : Transport := { pending := [⟨0x12345678⟩] }
    let ops : List Operation :=
      [.control, .link default, .link (.framed ⟨1, 2⟩ frameFirst), .link default, .link default,
        .link default, .control, .control, .control]
    Bridge.new p = .ok (Bridge.ofParams p) ∧
      (ControlReg.ofBits value).loopback = true ∧
      Trace.Along step KeepsLoopback
        (step ⟨Bridge.ofParams p, t⟩ (.write Register.control.address value)) ops ∧
      let start := step ⟨Bridge.ofParams p, t⟩ (.write Register.control.address value)
      let sent := SampleWord.nonIdle
        ((Trace.gather step taken start ops).map (·.masked p.loopbackMask))
      let received := SampleWord.nonIdle (Trace.gather step delivered start ops)
      received.Sublist sent ∧
        ((start.run ops).bridge.link.overflows = 0 →
          received <+: sent ∧ sent.length ≤ received.length + (2 * p.fifoDepth + 1)) := by
  intro p value t ops
  have hb : Bridge.new {} = .ok (Bridge.ofParams {}) := rfl
  have hvalue : (ControlReg.ofBits value).loopback = true := by decide
  have hops : Trace.Along step KeepsLoopback
      (step ⟨Bridge.ofParams p, t⟩ (.write Register.control.address value)) ops := by
    refine ⟨trivial, fun _ => rfl, fun h => absurd h ?_, fun _ => rfl, fun _ => rfl,
      fun _ => rfl, trivial, trivial, trivial, trivial⟩
    decide
  refine ⟨hb, hvalue, hops, ?_⟩
  exact loopback_delivers (p := p) (b := Bridge.ofParams p) hb t hvalue hops

end Session
end LinkBridge
