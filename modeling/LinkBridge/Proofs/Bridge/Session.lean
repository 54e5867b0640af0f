import LinkBridge.Bridge.Access
import LinkBridge.Bridge.Tick
import LinkBridge.Proofs.Crossing.Fifo

/-!
Sessions with a bridge.

A session is a bridge with its transport.  An operation is a cycle of either domain, an access to a
register, or something that the owner of the transport does, and a run is a list of operations in
any order.  What a cycle does is stated once for each part of the state that it touches; everything
else about a cycle follows from these equations.
-/

namespace LinkBridge

open Crossing

attribute [ext] Bridge LinkSide Crossings

namespace Transport

@[simp] theorem ready_acceptOffered (t : Transport) : t.acceptOffered.ready = t.ready := by
  unfold acceptOffered
  split <;> rfl

@[simp] theorem received_acceptOffered (t : Transport) :
    t.acceptOffered.received = t.received := by
  unfold acceptOffered
  split <;> rfl

theorem sent_acceptOffered {t : Transport} {w : SampleWord} (h : t.offered = some w) :
    t.acceptOffered.sent = t.sent + 1 := by
  unfold offered at h
  unfold acceptOffered
  cases hp : t.pending with
  | nil => simp [hp] at h
  | cons v rest => rfl

/-- Words that left for the bridge between two states. -/
def takenBetween (before after : Transport) : List SampleWord :=
  before.pending.take (after.sent - before.sent)

def deliveredBetween (before after : Transport) : List SampleWord :=
  after.received.toList.drop before.received.size

end Transport

theorem Register.eq_address_of_ofAddress {address : UInt32} {r : Register}
    (h : ofAddress address = .ok r) : address = r.address := by
  unfold ofAddress at h
  split at h
  · rename_i found hfound
    obtain rfl : found = r := Except.ok.inj h
    have haddress := List.find?_some hfound
    exact (of_decide_eq_true haddress).symm
  · simp at h

/-- The limits of a bridge. -/
theorem BridgeParams.check_eq_ok_iff {p : BridgeParams} :
    p.check = .ok () ↔
      minStages ≤ p.syncStages ∧ goodDepth p.fifoDepth = true ∧ 0 < p.activityWindow := by
  rw [← Nat.not_lt, Nat.pos_iff_ne_zero]
  unfold BridgeParams.check
  by_cases hstages : p.syncStages < minStages
  · simp [hstages]
  · by_cases hdepth : goodDepth p.fifoDepth = true
    · by_cases hwindow : p.activityWindow = 0
      · simp [hstages, hdepth, hwindow]
      · simp [hstages, hdepth, hwindow]
    · simp [hstages, hdepth]

/-- A depth within the limits is the depth of the queues. -/
theorem BridgeParams.ceilPow2_fifoDepth {p : BridgeParams} (h : p.check = .ok ()) :
    ceilPow2 (max p.fifoDepth 2) = p.fifoDepth := by
  have hgood : goodDepth p.fifoDepth = true := (check_eq_ok_iff.mp h).2.1
  unfold goodDepth at hgood
  rw [Bool.and_eq_true, decide_eq_true_eq, beq_iff_eq] at hgood
  obtain ⟨htwo, hpower⟩ := hgood
  rw [Nat.max_eq_left htwo, ← hpower]
  exact ceilPow2_pow2 _

/-- Parameters within the limits have enough stages for a chain. -/
theorem BridgeParams.minStages_le {p : BridgeParams} (h : p.check = .ok ()) :
    minStages ≤ p.syncStages :=
  (check_eq_ok_iff.mp h).1

theorem BridgeParams.activityWindow_pos {p : BridgeParams} (h : p.check = .ok ()) :
    0 < p.activityWindow :=
  (check_eq_ok_iff.mp h).2.2

namespace Bridge

theorem eq_ofParams {p : BridgeParams} {b : Bridge} (h : Bridge.new p = .ok b) :
    b = ofParams p := by
  unfold Bridge.new at h
  split at h
  · exact (Except.ok.inj h).symm
  · simp at h

theorem check_of_new {p : BridgeParams} {b : Bridge} (h : Bridge.new p = .ok b) :
    p.check = .ok () := by
  unfold Bridge.new at h
  split at h
  · assumption
  · simp at h

/-! ### Accesses to registers -/

section Access

variable {b : Bridge} (r : Register) (value : UInt32)

theorem read_address (b : Bridge) : b.read r.address = .ok (b.readRegister r) := by
  rw [read, Register.ofAddress_address]
  rfl

theorem write_address (b : Bridge) :
    b.write r.address value = .ok (b.writeRegister r value) := by
  rw [write, Register.ofAddress_address]
  rfl

theorem errors_writeRegister : (b.writeRegister r value).control.errors = b.control.errors := by
  cases r <;> rfl

theorem cyclesSeen_writeRegister :
    (b.writeRegister r value).control.cyclesSeen = b.control.cyclesSeen := by
  cases r <;> rfl

end Access

/-! ### The control cycle -/

section Control

variable (b : Bridge) (t : Transport)

@[simp] theorem link_tickControl : (b.tickControl t).1.link = b.link := rfl

@[simp] theorem controlReg_tickControl :
    (b.tickControl t).1.control.control = b.control.control := rfl

@[simp] theorem txPatternReg_tickControl :
    (b.tickControl t).1.control.txPattern = b.control.txPattern := rfl

@[simp] theorem rxPatternReg_tickControl :
    (b.tickControl t).1.control.rxPattern = b.control.rxPattern := rfl

@[simp] theorem txFifo_tickControl :
    (b.tickControl t).1.crossings.txFifo = (b.crossings.txFifo.writeTick t.offered).1 := rfl

@[simp] theorem rxFifo_tickControl :
    (b.tickControl t).1.crossings.rxFifo = (b.crossings.rxFifo.readTick t.ready).1 := by
  show (b.crossings.rxFifo.readTick
    (if (b.crossings.txFifo.writeTick t.offered).2 then t.acceptOffered else t).ready).1 = _
  split
  · rw [Transport.ready_acceptOffered]
  · rfl

@[simp] theorem loopback_tickControl :
    (b.tickControl t).1.crossings.loopback =
      b.crossings.loopback.drive b.control.control.loopback := rfl

@[simp] theorem txPattern_tickControl :
    (b.tickControl t).1.crossings.txPattern =
      b.crossings.txPattern.drive b.control.txPattern := rfl

@[simp] theorem rxPattern_tickControl :
    (b.tickControl t).1.crossings.rxPattern =
      b.crossings.rxPattern.drive b.control.rxPattern := rfl

/-- The transport after a control cycle: the accepted word is gone, the word read has arrived. -/
theorem transport_tickControl :
    (b.tickControl t).2 =
      let u := if (b.crossings.txFifo.accepted t.offered).isSome then t.acceptOffered else t
      (b.crossings.rxFifo.taken t.ready).elim u u.deliver := by
  have hready : ∀ c : Bool, (if c then t.acceptOffered else t).ready = t.ready := by
    intro c
    cases c
    · rfl
    · exact t.ready_acceptOffered
  simp only [tickControl, Fifo.snd_writeTick, Fifo.snd_readTick, hready]
  cases b.crossings.rxFifo.taken t.ready <;> rfl

end Control

/-!
### The link cycle

What passes through a link cycle, in the order in which it is computed.
-/

section Link

variable (b : Bridge) (received : LinkSample)

/-- The controls that the coming link cycle works under. -/
def linkControls : LinkControls := b.crossings.tickControls.controls

def generated : Option LinkWord := (b.link.generate b.linkControls.tx).2

def takes : Option SampleWord := b.link.takes b.crossings.txFifo b.generated.isSome

def converted : Option LinkWord := (b.link.convert b.generated.isSome b.takes).2

def sending : LinkSample := .framed (Routing.txWord b.generated b.converted) b.link.frame

def boundary : LinkSample :=
  Routing.rxSample b.link.loopbackMask b.linkControls.loopback b.sending received

def rebuilt : Option SampleWord := (b.link.rebuild b.linkControls (b.boundary received)).2

@[simp] theorem control_tickLink : (b.tickLink received).control = b.control := rfl

@[simp] theorem frame_tickLink : (b.tickLink received).link.frame = !b.link.frame := rfl

@[simp] theorem txPads_tickLink : (b.tickLink received).link.txPads = b.sending := rfl

@[simp] theorem generator_tickLink :
    (b.tickLink received).link.generator = (b.link.generate b.linkControls.tx).1 := rfl

@[simp] theorem txConverter_tickLink :
    (b.tickLink received).link.txConverter =
      (b.link.convert b.generated.isSome b.takes).1 := rfl

@[simp] theorem loopbackMask_tickLink :
    (b.tickLink received).link.loopbackMask = b.link.loopbackMask := rfl

@[simp] theorem aligner_tickLink :
    (b.tickLink received).link.aligner =
      (b.link.aligner.tick (b.boundary received)).1 := rfl

@[simp] theorem checker_tickLink :
    (b.tickLink received).link.checker =
      b.link.checker.tick b.linkControls.rx.enable b.linkControls.rx.mode
        ((b.link.routed b.linkControls (b.boundary received)).bind Routing.Route.toChecker) := rfl

@[simp] theorem rxConverter_tickLink :
    (b.tickLink received).link.rxConverter =
      (b.link.rebuild b.linkControls (b.boundary received)).1 := rfl

@[simp] theorem overflows_tickLink :
    (b.tickLink received).link.overflows =
      if (b.rebuilt received).isSome && !b.crossings.rxFifo.writable then b.link.overflows + 1
      else b.link.overflows := rfl

@[simp] theorem txFifo_tickLink :
    (b.tickLink received).crossings.txFifo =
      (b.crossings.txFifo.readTick b.takes.isSome).1 := rfl

@[simp] theorem rxFifo_tickLink :
    (b.tickLink received).crossings.rxFifo =
      (b.crossings.rxFifo.writeTick (b.rebuilt received)).1 := rfl

@[simp] theorem loopback_tickLink :
    (b.tickLink received).crossings.loopback = b.crossings.loopback.tick := rfl

@[simp] theorem txPattern_tickLink :
    (b.tickLink received).crossings.txPattern = b.crossings.txPattern.tick := rfl

@[simp] theorem rxPattern_tickLink :
    (b.tickLink received).crossings.rxPattern = b.crossings.rxPattern.tick := rfl

@[simp] theorem errors_tickLink :
    (b.tickLink received).crossings.errors =
      b.crossings.errors.sourceTick (b.tickLink received).link.checker.errors := rfl

@[simp] theorem cycles_tickLink :
    (b.tickLink received).crossings.cycles =
      b.crossings.cycles.sourceTick (b.link.cycles + 1) := rfl

end Link
end Bridge

/-! ### Operations -/

@[ext]
structure Session where
  bridge : Bridge
  transport : Transport
deriving DecidableEq, Repr

inductive Operation where
  | control
  | link (received : LinkSample)
  | read (address : UInt32)
  | write (address value : UInt32)
  | send (words : List SampleWord)
  | take
deriving DecidableEq, Repr

namespace Operation

def isLink : Operation → Bool
  | .link _ => true
  | _ => false

theorem isLink_eq_false {o : Operation} (h : ∀ received, o ≠ .link received) :
    o.isLink = false := by
  cases o with
  | link received => exact absurd rfl (h received)
  | _ => rfl

/-- If the operation writes to the register, it writes such a value. -/
def WritesOnly (r : Register) (P : UInt32 → Prop) : Operation → Prop
  | .write address value => address = r.address → P value
  | _ => True

instance {r : Register} {P : UInt32 → Prop} [DecidablePred P] : DecidablePred (WritesOnly r P)
  | .write _ _ => inferInstanceAs (Decidable (_ → _))
  | .control | .link _ | .read _ | .send _ | .take => inferInstanceAs (Decidable True)

end Operation

namespace Session

/-- A read of a register changes nothing, and so does a write to an address without one. -/
def step (s : Session) : Operation → Session
  | .control =>
    let (bridge, transport) := s.bridge.tickControl s.transport
    { bridge, transport }
  | .link received => { s with bridge := s.bridge.tickLink received }
  | .read _ => s
  | .write address value =>
    match s.bridge.write address value with
    | .ok bridge => { s with bridge }
    | .error _ => s
  | .send words => { s with transport := s.transport.send words }
  | .take => { s with transport := s.transport.take.1 }

def run (s : Session) (ops : List Operation) : Session := Trace.final step s ops

def taken (s : Session) (o : Operation) : List SampleWord :=
  s.transport.takenBetween (s.step o).transport

def delivered (s : Session) (o : Operation) : List SampleWord :=
  s.transport.deliveredBetween (s.step o).transport

theorem taken_control (s : Session) :
    s.taken .control = (s.bridge.crossings.txFifo.accepted s.transport.offered).toList := by
  show s.transport.pending.take ((s.bridge.tickControl s.transport).2.sent - s.transport.sent) = _
  have hdeliver : ∀ (o : Option SampleWord) (u : Transport),
      (o.elim u u.deliver).sent = u.sent := by
    intro o u
    cases o <;> rfl
  rw [Bridge.transport_tickControl, hdeliver]
  cases h : s.bridge.crossings.txFifo.accepted s.transport.offered with
  | none => simp
  | some w =>
    have hoffered := (Fifo.accepted_some h).2
    rw [Option.isSome_some, if_pos rfl, Transport.sent_acceptOffered hoffered,
      Nat.add_sub_cancel_left, Transport.pending_of_offered hoffered]
    rfl

theorem delivered_control (s : Session) :
    s.delivered .control = (s.bridge.crossings.rxFifo.taken s.transport.ready).toList := by
  show (s.bridge.tickControl s.transport).2.received.toList.drop s.transport.received.size = _
  have haccept : ∀ c : Bool, (if c then s.transport.acceptOffered else s.transport).received =
      s.transport.received := by
    intro c
    cases c
    · rfl
    · exact s.transport.received_acceptOffered
  rw [Bridge.transport_tickControl]
  cases s.bridge.crossings.rxFifo.taken s.transport.ready with
  | none =>
    show (Transport.received (if _ then _ else _)).toList.drop _ = []
    rw [haccept, ← Array.length_toList, List.drop_length]
  | some w =>
    show ((Transport.received (if _ then _ else _)).push w).toList.drop _ = [w]
    rw [haccept, Array.toList_push, ← Array.length_toList, List.drop_left]

theorem taken_other (s : Session) {o : Operation} (h : o ≠ .control) : s.taken o = [] := by
  have hsent : (s.step o).transport.sent = s.transport.sent := by
    cases o with
    | control => exact absurd rfl h
    | write address value =>
      simp only [step]
      split <;> rfl
    | _ => rfl
  show s.transport.pending.take ((s.step o).transport.sent - s.transport.sent) = []
  rw [hsent, Nat.sub_self, List.take_zero]

theorem delivered_other (s : Session) {o : Operation} (h : o ≠ .control) :
    s.delivered o = [] := by
  have hsize : (s.step o).transport.received.toList.length ≤ s.transport.received.size := by
    cases o with
    | control => exact absurd rfl h
    | write address value =>
      simp only [step]
      split <;> exact Nat.le_refl _
    | take => exact Nat.zero_le _
    | _ => exact Nat.le_refl _
  exact List.drop_eq_nil_of_le hsize

theorem step_write (s : Session) (address value : UInt32) :
    s.step (.write address value) = s ∨
      ∃ r : Register, address = r.address ∧
        s.step (.write address value) = { s with bridge := s.bridge.writeRegister r value } := by
  simp only [step, Bridge.write]
  cases haddress : Register.ofAddress address with
  | error e => exact .inl rfl
  | ok r => exact .inr ⟨r, Register.eq_address_of_ofAddress haddress, rfl⟩

theorem link_write (s : Session) (address value : UInt32) :
    (s.step (.write address value)).bridge.link = s.bridge.link := by
  simp only [step, Bridge.write]
  cases Register.ofAddress address <;> rfl

theorem link_step_of_other (s : Session) {o : Operation} (h : o.isLink = false) :
    (s.step o).bridge.link = s.bridge.link := by
  cases o with
  | link received => exact nomatch h
  | write address value => exact s.link_write address value
  | _ => rfl

theorem crossings_write (s : Session) (address value : UInt32) :
    (s.step (.write address value)).bridge.crossings = s.bridge.crossings := by
  simp only [step, Bridge.write]
  cases Register.ofAddress address <;> rfl

/-- An operation that is not a cycle leaves all but the control side alone. -/
theorem bridge_other (s : Session) {o : Operation} (hcontrol : o ≠ .control)
    (hlink : ∀ received, o ≠ .link received) :
    ∃ control, (s.step o).bridge = { s.bridge with control } := by
  cases o with
  | control => exact absurd rfl hcontrol
  | link received => exact absurd rfl (hlink received)
  | write address value =>
    rcases s.step_write address value with hstep | ⟨r, -, hstep⟩
    · rw [hstep]
      exact ⟨s.bridge.control, rfl⟩
    · rw [hstep]
      cases r <;> exact ⟨_, rfl⟩
  | _ => exact ⟨s.bridge.control, rfl⟩

/-! ### Both queues stay valid -/

structure Valid (s : Session) : Prop where
  txFifo : s.bridge.crossings.txFifo.Valid
  rxFifo : s.bridge.crossings.rxFifo.Valid

theorem valid_new {p : BridgeParams} {b : Bridge} (h : Bridge.new p = .ok b) (t : Transport) :
    Valid ⟨b, t⟩ := by
  obtain rfl := Bridge.eq_ofParams h
  exact ⟨Fifo.valid_new _ _, Fifo.valid_new _ _⟩

theorem valid_step (s : Session) (o : Operation) (h : s.Valid) : (s.step o).Valid := by
  obtain ⟨htx, hrx⟩ := h
  cases o with
  | control =>
    refine ⟨Fifo.valid_tick htx (.write s.transport.offered), ?_⟩
    show (s.bridge.tickControl s.transport).1.crossings.rxFifo.Valid
    rw [Bridge.rxFifo_tickControl]
    exact Fifo.valid_tick hrx (.read s.transport.ready)
  | link received =>
    exact ⟨Fifo.valid_tick htx (.read s.bridge.takes.isSome),
      Fifo.valid_tick hrx (.write (s.bridge.rebuilt received))⟩
  | write address value =>
    constructor
    · rw [crossings_write]
      exact htx
    · rw [crossings_write]
      exact hrx
  | read address => exact ⟨htx, hrx⟩
  | send words => exact ⟨htx, hrx⟩
  | take => exact ⟨htx, hrx⟩

theorem valid_run {s : Session} (h : s.Valid) (ops : List Operation) : (s.run ops).Valid :=
  Trace.final_invariant (fun s o hs _ => valid_step s o hs) h (Trace.along_true s ops)

theorem depth_step (s : Session) (o : Operation) :
    (s.step o).bridge.crossings.txFifo.depth = s.bridge.crossings.txFifo.depth ∧
      (s.step o).bridge.crossings.rxFifo.depth = s.bridge.crossings.rxFifo.depth := by
  cases o with
  | control =>
    refine ⟨Fifo.depth_writeTick _ _, ?_⟩
    show (s.bridge.tickControl s.transport).1.crossings.rxFifo.depth = _
    rw [Bridge.rxFifo_tickControl, Fifo.depth_readTick]
  | link received => exact ⟨Fifo.depth_readTick _ _, Fifo.depth_writeTick _ _⟩
  | write address value =>
    rw [crossings_write]
    exact ⟨rfl, rfl⟩
  | _ => exact ⟨rfl, rfl⟩

theorem queued_length_run {p : BridgeParams} {b : Bridge} (hb : Bridge.new p = .ok b)
    (t : Transport) (ops : List Operation) :
    (run ⟨b, t⟩ ops).bridge.crossings.txFifo.queued.length ≤ p.fifoDepth ∧
      (run ⟨b, t⟩ ops).bridge.crossings.rxFifo.queued.length ≤ p.fifoDepth := by
  have hdepth := BridgeParams.ceilPow2_fifoDepth (Bridge.check_of_new hb)
  obtain ⟨⟨u, hu⟩, ⟨v, hv⟩⟩ := valid_run (valid_new hb t) ops
  obtain rfl := Bridge.eq_ofParams hb
  obtain ⟨htx, hrx⟩ :
      (run ⟨Bridge.ofParams p, t⟩ ops).bridge.crossings.txFifo.depth = p.fifoDepth ∧
        (run ⟨Bridge.ofParams p, t⟩ ops).bridge.crossings.rxFifo.depth = p.fifoDepth :=
    Trace.final_invariant
      (P := fun s => s.bridge.crossings.txFifo.depth = p.fifoDepth ∧
        s.bridge.crossings.rxFifo.depth = p.fifoDepth)
      (fun s o hs _ => ⟨(depth_step s o).1.trans hs.1, (depth_step s o).2.trans hs.2⟩)
      ⟨hdepth, hdepth⟩ (Trace.along_true _ ops)
  exact ⟨htx ▸ hu.queued_length_le, hrx ▸ hv.queued_length_le⟩

end Session
end LinkBridge
