import LinkBridge.Proofs.Bridge.Receive
import LinkBridge.Proofs.Crossing.Turnaround

/-!
Sizing of the receive queue.

The receive converter completes at most one word in two link cycles, and a transport that is always
ready takes every word that the control domain sees.  With a control cycle between any two link
cycles the queue is then as prompt as `Prompt` asks for, and a depth above the number of stages is
enough: no word is ever dropped.
-/

namespace LinkBridge

open Crossing

/-- A converter that completes a word starts the next one from nothing. -/
theorem RxConverter.tick_some {c : RxConverter} {sample : Option LinkSample} {w : SampleWord}
    (h : (c.tick sample).2 = some w) : c.first.isSome ∧ (c.tick sample).1.first = none := by
  cases sample with
  | none => simp [tick] at h
  | some s =>
    cases hfirst : s.isFirst with
    | true => simp [tick, hfirst] at h
    | false =>
      cases hc : c.first with
      | none => simp [tick, hfirst, hc] at h
      | some first => simp [tick, hfirst]

theorem Bridge.rebuilt_some {b : Bridge} {received : LinkSample} {w : SampleWord}
    (h : b.rebuilt received = some w) :
    b.link.rxConverter.first.isSome ∧ (b.tickLink received).link.rxConverter.first = none := by
  rw [rxConverter_tickLink]
  exact RxConverter.tick_some h

namespace Operation

/-- Any two link cycles have a control cycle between them.  `clocked` says that the next link cycle
needs none before it. -/
def paced : Bool → List Operation → Bool
  | _, [] => true
  | _, .control :: rest => paced true rest
  | clocked, .link _ :: rest => clocked && paced false rest
  | clocked, _ :: rest => paced clocked rest

end Operation

@[simp] theorem Transport.limit_acceptOffered (t : Transport) :
    t.acceptOffered.limit = t.limit := by
  unfold acceptOffered
  split <;> rfl

namespace Session

/-- Nothing has overflowed, and the receive queue will let nothing overflow. -/
structure Roomy (stages depth : Nat) (clocked : Bool) (s : Session) : Prop where
  prompt : ∃ t past, s.bridge.crossings.rxFifo.Tracks t ∧
    Prompt stages t past (if clocked then 0 else 1) ∧
    (s.bridge.link.rxConverter.first.isSome → past 0 = past 1)
  depth_eq : s.bridge.crossings.rxFifo.depth = depth
  overflows_eq : s.bridge.link.overflows = 0

namespace Roomy

variable {stages depth : Nat} {clocked : Bool} {s : Session}

theorem control (h : s.Roomy stages depth clocked) (hready : s.transport.ready = true) :
    (s.step .control).Roomy stages depth true := by
  obtain ⟨t, past, ht, hprompt, hfirst⟩ := h.prompt
  have htaken : (s.bridge.crossings.rxFifo.taken true).isSome = true ↔
      t.read < t.toReader.output := ht.isSome_peek_iff
  have hfifo : (s.step .control).bridge.crossings.rxFifo =
      (s.bridge.crossings.rxFifo.readTick true).1 := by
    show (s.bridge.tickControl s.transport).1.crossings.rxFifo = _
    rw [Bridge.rxFifo_tickControl, hready]
  refine ⟨⟨_, past, ?_, hprompt.take htaken.mpr, hfirst⟩, ?_, h.overflows_eq⟩
  · rw [hfifo]
    exact ht.readTick true
  · rw [hfifo, Fifo.depth_readTick]
    exact h.depth_eq

theorem link (h : s.Roomy stages depth true) (hdepth : stages < depth) (received : LinkSample) :
    (s.step (.link received)).Roomy stages depth false := by
  obtain ⟨t, past, ht, hprompt, hfirst⟩ := h.prompt
  have hwritable : s.bridge.crossings.rxFifo.writable = true := by
    have hroom := hprompt.written_le
    rw [ht.writable_iff, h.depth_eq]
    omega
  have haccepted : s.bridge.crossings.rxFifo.accepted (s.bridge.rebuilt received) =
      s.bridge.rebuilt received := by
    rw [Fifo.accepted, hwritable, if_pos rfl]
  have hrest : (s.bridge.rebuilt received).isSome = true → past 0 = past 1 := by
    intro hsome
    obtain ⟨w, hw⟩ := Option.isSome_iff_exists.mp hsome
    exact hfirst (Bridge.rebuilt_some hw).1
  have hnext := ht.writeTick (s.bridge.rebuilt received)
  rw [haccepted] at hnext
  refine ⟨⟨_, _, hnext, hprompt.write hrest, ?_⟩, ?_, ?_⟩
  · intro hsome
    cases hrebuilt : s.bridge.rebuilt received with
    | none => rfl
    | some w =>
      have hnone := (Bridge.rebuilt_some hrebuilt).2
      exact absurd hsome (by
        show ¬ (s.bridge.tickLink received).link.rxConverter.first.isSome
        rw [hnone]
        simp)
  · show (s.bridge.tickLink received).crossings.rxFifo.depth = depth
    rw [Bridge.rxFifo_tickLink, Fifo.depth_writeTick]
    exact h.depth_eq
  · show (s.bridge.tickLink received).link.overflows = 0
    rw [Bridge.overflows_tickLink, hwritable, h.overflows_eq]
    simp

theorem other (h : s.Roomy stages depth clocked) {o : Operation} (hcontrol : o ≠ .control)
    (hlink : ∀ received, o ≠ .link received) : (s.step o).Roomy stages depth clocked := by
  obtain ⟨control, hbridge⟩ := s.bridge_other hcontrol hlink
  constructor
  · rw [hbridge]
    exact h.prompt
  · rw [hbridge]
    exact h.depth_eq
  · rw [hbridge]
    exact h.overflows_eq

theorem new {p : BridgeParams} {b : Bridge} (hb : Bridge.new p = .ok b) (t : Transport) :
    Roomy p.syncStages p.fifoDepth true ⟨b, t⟩ := by
  have hcheck := Bridge.check_of_new hb
  obtain rfl := Bridge.eq_ofParams hb
  refine ⟨⟨_, _, Fifo.tracks_new _ _, Prompt.new (BridgeParams.minStages_le hcheck), ?_⟩, ?_, rfl⟩
  · exact fun _ => rfl
  · exact BridgeParams.ceilPow2_fifoDepth hcheck

end Roomy

/-- The transport is ready in a control cycle. -/
def ReadyInControl (s : Session) (o : Operation) : Prop :=
  o = .control → s.transport.ready = true

theorem limit_step (s : Session) (o : Operation) :
    (s.step o).transport.limit = s.transport.limit := by
  cases o with
  | control =>
    have haccept : ∀ c : Bool, (if c then s.transport.acceptOffered else s.transport).limit =
        s.transport.limit := by
      intro c
      cases c with
      | false => rfl
      | true => exact s.transport.limit_acceptOffered
    show (s.bridge.tickControl s.transport).2.limit = _
    rw [Bridge.transport_tickControl]
    cases s.bridge.crossings.rxFifo.taken s.transport.ready with
    | none => exact haccept _
    | some w => exact haccept _
  | write address value =>
    simp only [step]
    split <;> rfl
  | _ => rfl

/-- A transport without a limit is always ready. -/
theorem ready_of_unlimited {s : Session} (h : s.transport.limit = none) (ops : List Operation) :
    Trace.Along step ReadyInControl s ops := by
  induction ops generalizing s with
  | nil => exact trivial
  | cons o rest ih =>
    refine ⟨fun _ => ?_, ih ((limit_step s o).trans h)⟩
    unfold Transport.ready
    rw [h]

theorem roomy_run {stages depth : Nat} (hdepth : stages < depth) {ops : List Operation}
    {clocked : Bool} {s : Session} (hs : s.Roomy stages depth clocked)
    (hpaced : Operation.paced clocked ops = true) (hready : Trace.Along step ReadyInControl s ops) :
    (s.run ops).bridge.link.overflows = 0 := by
  induction ops generalizing clocked s with
  | nil => exact hs.overflows_eq
  | cons o rest ih =>
    obtain ⟨ho, hrest⟩ := hready
    cases o with
    | control => exact ih (hs.control (ho rfl)) hpaced hrest
    | link received =>
      cases clocked with
      | false => simp [Operation.paced] at hpaced
      | true => exact ih (hs.link hdepth received) hpaced hrest
    | _ => exact ih (hs.other (by simp) (by simp)) hpaced hrest

/-- With more places than stages, a control cycle between any two link cycles and a transport that
is ready in each of them, the receive queue never drops a word, whatever is received, written and
sent. -/
theorem receive_never_overflows {p : BridgeParams} {b : Bridge} (hb : Bridge.new p = .ok b)
    (hdepth : p.syncStages < p.fifoDepth) (t : Transport) {ops : List Operation}
    (hpaced : Operation.paced true ops = true)
    (hready : Trace.Along step ReadyInControl ⟨b, t⟩ ops) :
    (run ⟨b, t⟩ ops).bridge.link.overflows = 0 :=
  roomy_run hdepth (Roomy.new hb t) hpaced hready

/-- Four places for three stages, and words without a pause. -/
theorem receive_never_overflows_back_to_back :
    let p : BridgeParams := { syncStages := 3, fifoDepth := 4 }
    let word : List Operation :=
      [.link (.framed ⟨1, 2⟩ frameFirst), .control, .link (.framed ⟨3, 4⟩ (!frameFirst)), .control]
    let ops := word ++ word ++ word ++ word ++ word ++ word
    Bridge.new p = .ok (Bridge.ofParams p) ∧ p.syncStages < p.fifoDepth ∧
      Operation.paced true ops = true ∧
      Trace.Along step ReadyInControl ⟨Bridge.ofParams p, {}⟩ ops ∧
      (run ⟨Bridge.ofParams p, {}⟩ ops).bridge.link.overflows = 0 := by
  intro p word ops
  have hb : Bridge.new p = .ok (Bridge.ofParams p) := by
    show Bridge.new { syncStages := 3, fifoDepth := 4 } = _
    rfl
  have hpaced : Operation.paced true ops = true := rfl
  have hready : Trace.Along step ReadyInControl ⟨Bridge.ofParams p, {}⟩ ops :=
    ready_of_unlimited rfl ops
  exact ⟨hb, by decide, hpaced, hready,
    receive_never_overflows hb (by decide) {} hpaced hready⟩

/-- As many places as stages are too few. -/
example :
    let word : List Operation :=
      [.link (.framed ⟨1, 2⟩ frameFirst), .control, .link (.framed ⟨3, 4⟩ (!frameFirst)), .control]
    let ops := word ++ word ++ word ++ word
    Operation.paced true ops = true ∧
      (run ⟨Bridge.ofParams { fifoDepth := 2 }, {}⟩ ops).bridge.link.overflows = 1 := by
  decide +kernel

end Session
end LinkBridge
