import LinkBridge.Proofs.Bridge.Loopback

/-!
What the transport holds.

The words that wait in the transport are those given to it that the bridge has not taken, and until
they are fetched the words received are those delivered.  So in loopback, where what is delivered is
what was taken, the words received are a prefix of the words given.
-/

namespace LinkBridge.Session

variable {mask : UInt32} {s : Session}

/-- The words that an operation gives to the transport. -/
def given : Operation → List SampleWord
  | .send words => words
  | _ => []

theorem pending_step (s : Session) (o : Operation) :
    s.taken o ++ (s.step o).transport.pending = s.transport.pending ++ given o := by
  cases o with
  | control =>
    have hdeliver : ∀ (w : Option SampleWord) (t : Transport),
        (w.elim t t.deliver).pending = t.pending := by
      intro w t
      cases w <;> rfl
    show _ ++ (s.bridge.tickControl s.transport).2.pending = _ ++ []
    rw [taken_control, Bridge.transport_tickControl, hdeliver, List.append_nil]
    cases haccepted : s.bridge.crossings.txFifo.accepted s.transport.offered with
    | none => rfl
    | some w =>
      have hoffered := (Crossing.Fifo.accepted_some haccepted).2
      exact (Transport.pending_of_offered hoffered).symm
  | write address value =>
    rw [s.taken_other (by simp), step]
    cases s.bridge.write address value <;> exact (List.append_nil _).symm
  | send words =>
    rw [s.taken_other (by simp)]
    rfl
  | _ =>
    rw [s.taken_other (by simp)]
    exact (List.append_nil _).symm

theorem received_step (s : Session) {o : Operation} (ho : o ≠ .take) :
    (s.step o).transport.received.toList = s.transport.received.toList ++ s.delivered o := by
  by_cases hcontrol : o = .control
  · obtain rfl := hcontrol
    have haccept : ∀ c : Bool, (if c then s.transport.acceptOffered else s.transport).received =
        s.transport.received := by
      intro c
      cases c
      · rfl
      · exact s.transport.received_acceptOffered
    rw [delivered_control]
    show (s.bridge.tickControl s.transport).2.received.toList = _
    rw [Bridge.transport_tickControl]
    cases s.bridge.crossings.rxFifo.taken s.transport.ready with
    | none =>
      show (Transport.received (if _ then _ else _)).toList = _ ++ []
      rw [haccept, List.append_nil]
    | some w =>
      show ((Transport.received (if _ then _ else _)).push w).toList = _
      rw [haccept, Array.toList_push]
      rfl
  · rw [s.delivered_other hcontrol, List.append_nil]
    cases o with
    | control => exact absurd rfl hcontrol
    | take => exact absurd rfl ho
    | write address value =>
      rw [step]
      cases s.bridge.write address value <;> rfl
    | _ => rfl

theorem pending_run (s : Session) (ops : List Operation) :
    Trace.gather step taken s ops ++ (s.run ops).transport.pending =
      s.transport.pending ++ Trace.gather step (fun _ => given) s ops :=
  Trace.gather_balance (P := fun _ => True) (A := fun _ _ => True) (fun s => s.transport.pending)
    (fun _ _ _ _ => trivial) (fun s o _ _ => pending_step s o) trivial (Trace.along_true s ops)

theorem received_run (s : Session) {ops : List Operation} (hops : ∀ o ∈ ops, o ≠ .take) :
    (s.run ops).transport.received.toList =
      s.transport.received.toList ++ Trace.gather step delivered s ops := by
  have hstep : ∀ seen (u : Session) (o : Operation),
      u.transport.received.toList = s.transport.received.toList ++ seen → o ≠ .take →
      (u.step o).transport.received.toList =
        s.transport.received.toList ++ (seen ++ u.delivered o) := by
    intro seen u o hu ho
    rw [received_step u ho, hu, List.append_assoc]
  exact Trace.gather_invariant
    (R := fun seen (u : Session) =>
      u.transport.received.toList = s.transport.received.toList ++ seen)
    hstep (List.append_nil _).symm (Trace.along_of_forall s fun o ho _ => hops o ho)

/-- With an empty path at the start and no overflow, what is delivered in loopback is a prefix of
what was taken. -/
theorem delivered_prefix_taken (hs : s.Looping mask) (honLine : s.onLine = [])
    (hqueued : s.bridge.crossings.rxFifo.queued = []) (hzero : s.bridge.link.overflows = 0)
    {ops : List Operation} (hops : Trace.Along step KeepsLoopback s ops)
    (hnone : (s.run ops).bridge.link.overflows = 0) :
    SampleWord.nonIdle (Trace.gather step delivered s ops) <+:
      SampleWord.nonIdle ((Trace.gather step taken s ops).map (·.masked mask)) := by
  have hline := onLine_run hs hops
  have hstored := stored_run hs.valid ops
  have hlost := overflows_run hs.valid ops
  rw [hzero, hnone, Nat.add_zero, Nat.add_zero] at hlost
  have hall := (stored_sublist_run hs.valid ops).eq_of_length hlost.symm
  rw [hqueued, List.nil_append, hall] at hstored
  rw [honLine, List.nil_append, ← hstored, SampleWord.nonIdle_append, List.append_assoc] at hline
  exact ⟨_, hline⟩

/-- In loopback the transport gets a prefix of the words that it was given, masked and without idle
words. -/
theorem received_prefix_given (hs : s.Looping mask) (honLine : s.onLine = [])
    (hqueued : s.bridge.crossings.rxFifo.queued = []) (hzero : s.bridge.link.overflows = 0)
    (hreceived : s.transport.received = #[]) {ops : List Operation}
    (hops : Trace.Along step KeepsLoopback s ops) (htake : ∀ o ∈ ops, o ≠ .take)
    (hnone : (s.run ops).bridge.link.overflows = 0) :
    SampleWord.nonIdle (s.run ops).transport.received.toList <+:
      SampleWord.nonIdle ((s.transport.pending ++
        Trace.gather step (fun _ => given) s ops).map (·.masked mask)) := by
  have hdelivered := delivered_prefix_taken hs honLine hqueued hzero hops hnone
  have htaken : Trace.gather step taken s ops <+:
      s.transport.pending ++ Trace.gather step (fun _ => given) s ops := ⟨_, pending_run s ops⟩
  rw [received_run s htake, hreceived]
  exact hdelivered.trans ((htaken.map _).filter _)

end LinkBridge.Session
