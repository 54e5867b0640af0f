import LinkBridge.Proofs.Bridge.Session

/-!
The transmit path.

Words wait in the queue, cross the link as two halves, and the converter may hold the second half
for as long as the generator owns the link.  Peeking, popping, converting and the override by the
generator are decided apart from each other, but they agree in every cycle: the converter takes a
word exactly when the queue gives one up, and what it puts on the pads is what leaves its store.
So the halves sent, the half held and the words queued are always the words accepted.
-/

namespace LinkBridge

open Crossing

/-- A sample word as the link carries it. -/
def SampleWord.halves (w : SampleWord) : List LinkSample :=
  [.framed w.split.1 frameFirst, .framed w.split.2 (!frameFirst)]

/-- The half that the converter holds, as the link will carry it. -/
def TxConverter.held (c : TxConverter) : List LinkSample :=
  (c.pending.map fun half => LinkSample.framed half (!frameFirst)).toList

/-! ### One cycle of the converter -/

namespace LinkSide

variable (l : LinkSide) (fifo : Fifo SampleWord)

/-- A word is taken only when the converter starts it in the same cycle. -/
theorem takes_some {generating : Bool} {w : SampleWord}
    (h : l.takes fifo generating = some w) :
    generating = false ∧ l.frame = frameFirst ∧ l.txConverter.pending = none ∧
      fifo.peek = some w := by
  unfold takes Routing.converterReady TxConverter.ready firstSlot at h
  split at h
  · rename_i hready
    simp only [Bool.and_eq_true, Bool.not_eq_true', beq_iff_eq, Option.isNone_iff_eq_none]
      at hready
    exact ⟨hready.2, hready.1.1, hready.1.2, h⟩
  · simp at h

/-- What the converter sends and holds afterwards is what it held and took. -/
theorem convert_balance (generating : Bool) :
    let input := l.takes fifo generating
    ((l.convert generating input).2.map fun half => LinkSample.framed half l.frame).toList ++
        (l.convert generating input).1.held =
      l.txConverter.held ++ input.toList.flatMap SampleWord.halves := by
  intro input
  cases hinput : input with
  | some w =>
    obtain ⟨hfree, hframe, hpending, -⟩ := l.takes_some fifo hinput
    simp [convert, TxConverter.tick, TxConverter.held, firstSlot, SampleWord.halves, hfree,
      hframe, hpending]
  | none =>
    cases hgen : generating with
    | true => simp [convert]
    | false =>
      cases hpending : l.txConverter.pending with
      | none => simp [convert, TxConverter.tick, TxConverter.held, hpending]
      | some half =>
        by_cases hframe : l.frame = frameFirst
        · simp [convert, TxConverter.tick, TxConverter.held, firstSlot, hframe, hpending]
        · have hsecond : l.frame = !frameFirst := Bool.eq_not_of_ne hframe
          simp [convert, TxConverter.tick, TxConverter.held, firstSlot, hsecond, hpending]

end LinkSide

namespace Bridge

theorem taken_takes (b : Bridge) :
    b.crossings.txFifo.taken b.takes.isSome = b.takes := by
  cases h : b.takes with
  | none => rfl
  | some w =>
    obtain ⟨-, -, -, hpeek⟩ := b.link.takes_some b.crossings.txFifo h
    exact hpeek

theorem tracks_tickLink {b : Bridge} {t : Totals} (h : b.crossings.txFifo.Tracks t)
    (received : LinkSample) :
    (b.tickLink received).crossings.txFifo.Tracks (t.take b.takes.isSome) := by
  have hnext := h.readTick b.takes.isSome
  rw [taken_takes] at hnext
  exact hnext

theorem sending_of_converted {b : Bridge} {half : LinkWord} (h : b.converted = some half) :
    b.sending = .framed half b.link.frame := by
  cases hgen : b.generated with
  | none =>
    unfold sending Routing.txWord
    rw [hgen, h]
    rfl
  | some w =>
    unfold converted LinkSide.convert at h
    rw [hgen] at h
    simp at h

/-- Accepted words that are not on the link yet: the half that the converter holds, then the
queue. -/
def backlog (b : Bridge) : List LinkSample :=
  b.link.txConverter.held ++ b.crossings.txFifo.queued.flatMap SampleWord.halves

theorem backlog_tickLink {b : Bridge} (h : b.crossings.txFifo.Valid) (received : LinkSample) :
    (b.converted.map fun half => LinkSample.framed half b.link.frame).toList ++
      (b.tickLink received).backlog = b.backlog := by
  obtain ⟨t, ht⟩ := h
  have hqueue := ht.queued_readTick b.takes.isSome
  have hconverter := b.link.convert_balance b.crossings.txFifo b.generated.isSome
  rw [taken_takes] at hqueue
  unfold backlog
  rw [txConverter_tickLink, txFifo_tickLink, ← hqueue, List.flatMap_append,
    ← List.append_assoc, ← List.append_assoc]
  exact congrArg (· ++ _) hconverter

theorem backlog_tickControl {b : Bridge} (h : b.crossings.txFifo.Valid) (t : Transport) :
    (b.tickControl t).1.backlog =
      b.backlog ++
        (b.crossings.txFifo.accepted t.offered).toList.flatMap SampleWord.halves := by
  obtain ⟨u, hu⟩ := h
  unfold backlog
  rw [link_tickControl, txFifo_tickControl, hu.queued_writeTick, List.flatMap_append,
    List.append_assoc]

theorem backlog_new {p : BridgeParams} {b : Bridge} (h : Bridge.new p = .ok b) :
    b.backlog = [] := by
  obtain rfl := eq_ofParams h
  unfold backlog
  show [] ++ (Fifo.queued (Fifo.new _ _)).flatMap SampleWord.halves = []
  rw [Fifo.queued_new]
  rfl

end Bridge

/-! ### Runs -/

namespace Session

/-- The samples that the converter puts on the pads. -/
def converterSamples (s : Session) : Operation → List LinkSample
  | .link received =>
    if s.bridge.converted.isSome then [(s.bridge.tickLink received).txPads] else []
  | _ => []

theorem converterSamples_link (s : Session) (received : LinkSample) :
    s.converterSamples (.link received) =
      (s.bridge.converted.map fun half => LinkSample.framed half s.bridge.link.frame).toList := by
  cases h : s.bridge.converted with
  | none => simp [converterSamples, h]
  | some half =>
    simp only [converterSamples, h, Option.isSome_some, if_true, Option.map_some,
      Option.toList_some]
    rw [Bridge.txPads, Bridge.txPads_tickLink, Bridge.sending_of_converted h]

theorem backlog_step (s : Session) (o : Operation) (h : s.Valid) :
    s.converterSamples o ++ (s.step o).bridge.backlog =
      s.bridge.backlog ++ (s.taken o).flatMap SampleWord.halves := by
  cases o with
  | control =>
    rw [taken_control]
    exact Bridge.backlog_tickControl h.txFifo s.transport
  | link received =>
    rw [converterSamples_link, s.taken_other (by simp), List.flatMap_nil, List.append_nil]
    exact Bridge.backlog_tickLink h.txFifo received
  | write address value =>
    have hsame : (s.step (.write address value)).bridge.backlog = s.bridge.backlog := by
      unfold Bridge.backlog
      rw [link_write, crossings_write]
    rw [s.taken_other (by simp), hsame, List.flatMap_nil, List.append_nil]
    rfl
  | _ =>
    rw [s.taken_other (by simp), List.flatMap_nil, List.append_nil]
    rfl

/-- Whatever the order of cycles, accesses and sends, the halves that the converter put on the
pads, the half that it holds and the words still queued are the words taken from the transport,
each as a first half in a first frame and a second half in a second frame. -/
theorem transmit_conserves {p : BridgeParams} {b : Bridge} (hb : Bridge.new p = .ok b)
    (t : Transport) (ops : List Operation) :
    let start : Session := ⟨b, t⟩
    let last := (start.run ops).bridge
    Trace.gather step converterSamples start ops ++ last.link.txConverter.held ++
        last.crossings.txFifo.queued.flatMap SampleWord.halves =
      (Trace.gather step taken start ops).flatMap SampleWord.halves := by
  intro start last
  have hfree : Trace.Along step (fun _ _ => True) start ops :=
    Trace.along_true start ops
  have hempty : start.bridge.backlog = [] := Bridge.backlog_new hb
  have hbalance : Trace.gather step converterSamples start ops ++ last.backlog =
      start.bridge.backlog ++
        Trace.gather step (fun s o => (s.taken o).flatMap SampleWord.halves) start ops :=
    Trace.gather_balance (fun s => s.bridge.backlog)
      (fun s o hs _ => valid_step s o hs) (fun s o hs _ => backlog_step s o hs)
      (valid_new hb t) hfree
  rw [hempty, List.nil_append] at hbalance
  rw [Trace.gather_hom List.flatMap_nil (fun _ _ => List.flatMap_append), List.append_assoc]
  exact hbalance

/-- A word whose second half waits for the generator. -/
theorem transmit_conserves_interrupted :
    let ops : List Operation :=
      [.control, .link default, .link default, .write Register.txPattern.address 1, .control,
        .link default, .link default]
    let start : Session := ⟨Bridge.ofParams {}, { pending := [⟨0x12345678⟩] }⟩
    let last := (start.run ops).bridge
    Bridge.new {} = .ok (Bridge.ofParams {}) ∧
      Trace.gather step converterSamples start ops ++ last.link.txConverter.held ++
          last.crossings.txFifo.queued.flatMap SampleWord.halves =
        (Trace.gather step taken start ops).flatMap SampleWord.halves :=
  ⟨rfl, transmit_conserves (p := {}) rfl _ _⟩

end Session
end LinkBridge
