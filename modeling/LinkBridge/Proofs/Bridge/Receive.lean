import LinkBridge.Proofs.Bridge.Session

/-!
The receive path.

The overflow counter and the queue each ask whether there is room, and both see the reader late.
They ask about the same state, so a word of the receive converter is either counted or stored, and
a word that is counted leaves the queue alone.  What the transport gets and what is still queued is
therefore everything produced, less the words counted.
-/

namespace LinkBridge

open Crossing

namespace Bridge

variable (b : Bridge) (received : LinkSample)

/-- The word of the receive converter that the queue stores in the coming link cycle. -/
def stored : Option SampleWord := b.crossings.rxFifo.accepted (b.rebuilt received)

theorem stored_sublist : (b.stored received).toList.Sublist (b.rebuilt received).toList := by
  unfold stored Fifo.accepted
  split
  · exact List.Sublist.refl _
  · exact List.nil_sublist _

theorem overflows_balance :
    (b.rebuilt received).toList.length + b.link.overflows =
      (b.stored received).toList.length + (b.tickLink received).link.overflows := by
  rw [overflows_tickLink]
  unfold stored Fifo.accepted
  cases b.crossings.rxFifo.writable with
  | true => simp
  | false =>
    cases b.rebuilt received with
    | none => simp
    | some w => simp [Nat.add_comm]

theorem stored_of_overflow
    (h : (b.tickLink received).link.overflows ≠ b.link.overflows) :
    b.stored received = none := by
  have hbalance := b.overflows_balance received
  have hlength := (b.stored_sublist received).length_le
  cases hs : b.stored received with
  | none => rfl
  | some w =>
    have hle : (b.rebuilt received).toList.length ≤ 1 := Option.length_toList_le
    rw [hs] at hbalance hlength
    simp only [Option.toList_some, List.length_singleton] at hbalance hlength
    omega

variable {b}

theorem rxQueued_tickLink (h : b.crossings.rxFifo.Valid) :
    (b.tickLink received).crossings.rxFifo.queued =
      b.crossings.rxFifo.queued ++ (b.stored received).toList := by
  obtain ⟨t, ht⟩ := h
  rw [rxFifo_tickLink]
  exact ht.queued_writeTick _

theorem rxQueued_tickControl (h : b.crossings.rxFifo.Valid) (t : Transport) :
    (b.crossings.rxFifo.taken t.ready).toList ++
      (b.tickControl t).1.crossings.rxFifo.queued = b.crossings.rxFifo.queued := by
  obtain ⟨u, hu⟩ := h
  rw [rxFifo_tickControl]
  exact hu.queued_readTick _

end Bridge

namespace Session

/-- The words that the receive converter completes. -/
def produced (s : Session) : Operation → List SampleWord
  | .link received => (s.bridge.rebuilt received).toList
  | _ => []

def stored (s : Session) : Operation → List SampleWord
  | .link received => (s.bridge.stored received).toList
  | _ => []

theorem rxQueued_step (s : Session) (o : Operation) (h : s.Valid) :
    s.delivered o ++ (s.step o).bridge.crossings.rxFifo.queued =
      s.bridge.crossings.rxFifo.queued ++ s.stored o := by
  cases o with
  | control =>
    rw [delivered_control]
    show _ ++ (s.bridge.tickControl s.transport).1.crossings.rxFifo.queued = _ ++ []
    rw [Bridge.rxQueued_tickControl h.rxFifo, List.append_nil]
  | link received =>
    rw [s.delivered_other (by simp)]
    exact Bridge.rxQueued_tickLink received h.rxFifo
  | write address value =>
    rw [s.delivered_other (by simp), crossings_write]
    exact (List.append_nil _).symm
  | _ =>
    rw [s.delivered_other (by simp)]
    exact (List.append_nil _).symm

theorem stored_sublist (s : Session) (o : Operation) : (s.stored o).Sublist (s.produced o) := by
  cases o with
  | link received => exact s.bridge.stored_sublist received
  | _ => exact List.Sublist.refl _

theorem overflows_step (s : Session) (o : Operation) :
    (s.produced o).length + s.bridge.link.overflows =
      (s.stored o).length + (s.step o).bridge.link.overflows := by
  cases o with
  | link received => exact s.bridge.overflows_balance received
  | write address value =>
    rw [link_write]
    rfl
  | _ => rfl

section Runs

variable {s : Session} (hs : s.Valid) (ops : List Operation)

include hs

theorem stored_run :
    Trace.gather step delivered s ops ++ (s.run ops).bridge.crossings.rxFifo.queued =
      s.bridge.crossings.rxFifo.queued ++ Trace.gather step stored s ops := by
  have hfree : Trace.Along step (fun _ _ => True) s ops := Trace.along_true s ops
  exact Trace.gather_balance (fun s => s.bridge.crossings.rxFifo.queued)
    (fun s o hs _ => valid_step s o hs) (fun s o hs _ => rxQueued_step s o hs) hs hfree

theorem stored_sublist_run :
    (Trace.gather step stored s ops).Sublist (Trace.gather step produced s ops) := by
  have hfree : Trace.Along step (fun _ _ => True) s ops := Trace.along_true s ops
  exact Trace.gather_sublist (fun s o hs _ => valid_step s o hs)
    (fun s o _ _ => stored_sublist s o) hs hfree

theorem overflows_run :
    (Trace.gather step produced s ops).length + s.bridge.link.overflows =
      (Trace.gather step stored s ops).length + (s.run ops).bridge.link.overflows := by
  have hfree : Trace.Along step (fun _ _ => True) s ops := Trace.along_true s ops
  exact Trace.gather_length (fun s => s.bridge.link.overflows)
    (fun s o hs _ => valid_step s o hs) (fun s o _ _ => overflows_step s o) hs hfree

end Runs

/-- Whatever the order of cycles, accesses and calls of the transport, the words delivered and the
words still queued are the words of the receive converter, in order, without exactly as many as the
overflow counter says; and a cycle that counts one leaves the queue as it was. -/
theorem receive_conserves {p : BridgeParams} {b : Bridge} (hb : Bridge.new p = .ok b)
    (t : Transport) (ops : List Operation) :
    let start : Session := ⟨b, t⟩
    let last := (start.run ops).bridge
    let produced := Trace.gather step produced start ops
    let delivered := Trace.gather step delivered start ops
    (delivered ++ last.crossings.rxFifo.queued).Sublist produced ∧
      produced.length =
        delivered.length + last.crossings.rxFifo.queued.length + last.link.overflows ∧
      ∀ received, (last.tickLink received).link.overflows ≠ last.link.overflows →
        (last.tickLink received).crossings.rxFifo.queued = last.crossings.rxFifo.queued := by
  intro start last produced delivered
  have hvalid : start.Valid := valid_new hb t
  obtain ⟨hqueued, hoverflows⟩ : b.crossings.rxFifo.queued = [] ∧ b.link.overflows = 0 := by
    obtain rfl := Bridge.eq_ofParams hb
    exact ⟨Fifo.queued_new _ _, rfl⟩
  have hstored : delivered ++ last.crossings.rxFifo.queued =
      Trace.gather step stored start ops := by
    have hmoved : delivered ++ last.crossings.rxFifo.queued =
        b.crossings.rxFifo.queued ++ Trace.gather step stored start ops := stored_run hvalid ops
    rw [hmoved, hqueued, List.nil_append]
  have hlost : produced.length + b.link.overflows =
      (Trace.gather step stored start ops).length + last.link.overflows :=
    overflows_run hvalid ops
  refine ⟨?_, ?_, ?_⟩
  · rw [hstored]
    exact stored_sublist_run hvalid ops
  · rw [hoverflows, Nat.add_zero, ← hstored, List.length_append] at hlost
    exact hlost
  · intro received hcounted
    have hlast : (start.run ops).Valid := valid_run hvalid ops
    rw [Bridge.rxQueued_tickLink received hlast.rxFifo, last.stored_of_overflow received hcounted]
    exact List.append_nil _

/-- Four words for two places, and a transport that takes none. -/
theorem receive_conserves_stalled :
    let word : List Operation :=
      [.link (.framed ⟨1, 2⟩ frameFirst), .link (.framed ⟨3, 4⟩ (!frameFirst))]
    let ops := word ++ word ++ word ++ word ++ [.link default, .control]
    let p : BridgeParams := { fifoDepth := 2 }
    let start : Session := ⟨Bridge.ofParams p, { limit := some 0 }⟩
    let last := (start.run ops).bridge
    let produced := Trace.gather step produced start ops
    let delivered := Trace.gather step delivered start ops
    Bridge.new p = .ok (Bridge.ofParams p) ∧
      (delivered ++ last.crossings.rxFifo.queued).Sublist produced ∧
      produced.length =
        delivered.length + last.crossings.rxFifo.queued.length + last.link.overflows ∧
      ∀ received, (last.tickLink received).link.overflows ≠ last.link.overflows →
        (last.tickLink received).crossings.rxFifo.queued = last.crossings.rxFifo.queued :=
  ⟨rfl, receive_conserves (p := { fifoDepth := 2 }) rfl _ _⟩

end Session
end LinkBridge
