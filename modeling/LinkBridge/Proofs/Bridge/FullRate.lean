import LinkBridge.Proofs.Bridge.Pipeline
import LinkBridge.Proofs.Bridge.Setting
import LinkBridge.Proofs.Bridge.Sizing
import LinkBridge.Proofs.Crossing.Places

/-!
Full rate of the transmit path.

With the generator off the converter sends a half in each link cycle as long as it finds a word in
each first slot.  A run begins with the queue filling up (`Starting`): the first word needs as many
link cycles as there are stages to be seen, and one more if it is seen in a second slot.  From the
cycle that takes it on (`Flowing`) the converter reads in every other cycle, and a transport that
always has a word writes whenever it sees a place.  That is the queue with its ends exchanged, so
what `Prompt` says of a slow writer holds of places: one more than stages, and the queue is never
seen empty.
-/

namespace LinkBridge

open Crossing

namespace Bridge

variable {b : Bridge}

/-! ### The two slots -/

/-- In a first slot the converter sends one half of the next word and holds the other. -/
theorem first_slot (hoff : b.linkControls.tx.enable = false) (hframe : b.link.frame = frameFirst)
    (hpending : b.link.txConverter.pending = none) (received : LinkSample) :
    b.takes = b.crossings.txFifo.peek ∧
      b.converted = b.crossings.txFifo.peek.map (·.split.1) ∧
      (b.tickLink received).link.txConverter.pending =
        b.crossings.txFifo.peek.map (·.split.2) := by
  have htakes : b.takes = b.crossings.txFifo.peek := by
    unfold takes LinkSide.takes Routing.converterReady TxConverter.ready LinkSide.firstSlot
    rw [generated_of_disabled hoff, hframe, hpending]
    rfl
  refine ⟨htakes, ?_, ?_⟩
  · rw [converted_of_disabled hoff, LinkSide.convert_first hframe hpending, htakes]
  · rw [txConverter_of_disabled hoff, LinkSide.convert_first hframe hpending, htakes]

/-- In a second slot the converter sends the half that it holds. -/
theorem second_slot (hoff : b.linkControls.tx.enable = false)
    (hframe : b.link.frame ≠ frameFirst) (received : LinkSample) :
    b.takes = none ∧ b.converted = b.link.txConverter.pending ∧
      (b.tickLink received).link.txConverter.pending = none := by
  refine ⟨b.link.takes_second hframe _ _, ?_, ?_⟩
  · rw [converted_of_disabled hoff, LinkSide.convert_second hframe]
  · rw [txConverter_of_disabled hoff, LinkSide.convert_second hframe]

/-- A converter that holds nothing and sees nothing is idle. -/
theorem idle_slot (hoff : b.linkControls.tx.enable = false)
    (hpending : b.link.txConverter.pending = none)
    (hunseen : b.link.frame = frameFirst → b.crossings.txFifo.peek = none)
    (received : LinkSample) :
    b.takes = none ∧ b.converted = none ∧
      (b.tickLink received).link.txConverter.pending = none := by
  by_cases hframe : b.link.frame = frameFirst
  · obtain ⟨htakes, hconverted, hheld⟩ := first_slot hoff hframe hpending received
    rw [hunseen hframe] at htakes hconverted hheld
    exact ⟨htakes, hconverted, hheld⟩
  · obtain ⟨htakes, hconverted, hheld⟩ := second_slot hoff hframe received
    exact ⟨htakes, hconverted.trans hpending, hheld⟩

/-! ### The converter at full rate -/

/-- The converter has sent a half in the last link cycle, and will do so in the next one. -/
structure Flowing (stages depth : Nat) (clocked : Bool) (b : Bridge) : Prop where
  queue : ∃ t past, b.crossings.txFifo.Tracks t ∧
    Prompt stages (t.places (stages + 1)) past (if clocked then 0 else 1) ∧
    (b.link.frame = frameFirst → past 0 = past 1)
  depth_eq : b.crossings.txFifo.depth = depth
  first : b.link.frame = frameFirst → b.link.txConverter.pending = none
  second : b.link.frame ≠ frameFirst → b.link.txConverter.pending.isSome = true

variable {stages depth left : Nat} {clocked : Bool}

/-- A first slot with a word in sight. -/
theorem flowing_of_first {t : Totals} {past : History} (ht : b.crossings.txFifo.Tracks t)
    (hprompt : Prompt stages (t.places (stages + 1)) past 0) (hrest : past 0 = past 1)
    (hdepth : b.crossings.txFifo.depth = depth) (hframe : b.link.frame = frameFirst)
    (hpending : b.link.txConverter.pending = none) (hoff : b.linkControls.tx.enable = false)
    (received : LinkSample) :
    b.converted.isSome = true ∧ (b.tickLink received).Flowing stages depth false := by
  obtain ⟨htakes, hconverted, hheld⟩ := first_slot hoff hframe hpending received
  have hpeek := ht.isSome_peek_iff.mpr hprompt.read_lt
  have hnext := frame_after_first hframe received
  refine ⟨by rw [hconverted, Option.isSome_map, hpeek], ?_, ?_, ?_, ?_⟩
  · exact ⟨_, _, tracks_tickLink ht received, hprompt.takePlaces fun _ => hrest,
      fun h => absurd h hnext⟩
  · exact (Fifo.depth_readTick _ _).trans hdepth
  · exact fun h => absurd h hnext
  · intro _
    rw [hheld, Option.isSome_map, hpeek]

namespace Flowing

theorem tickControl (h : b.Flowing stages depth clocked) (hdepth : stages < depth)
    {t : Transport} (hoffered : t.offered.isSome = true) :
    (b.tickControl t).1.Flowing stages depth true := by
  obtain ⟨u, past, hu, hprompt, hrest⟩ := h.queue
  refine ⟨⟨_, past, hu.writeTick t.offered, hprompt.writePlaces fun hseen => ?_, hrest⟩, ?_,
    h.first, h.second⟩
  · refine hu.isSome_accepted hoffered ?_
    rw [h.depth_eq]
    omega
  · exact (Fifo.depth_writeTick _ _).trans h.depth_eq

theorem tickLink (h : b.Flowing stages depth true) (hoff : b.linkControls.tx.enable = false)
    (received : LinkSample) :
    b.converted.isSome = true ∧ (b.tickLink received).Flowing stages depth false := by
  obtain ⟨t, past, ht, hprompt, hrest⟩ := h.queue
  by_cases hframe : b.link.frame = frameFirst
  · exact flowing_of_first ht hprompt (hrest hframe) h.depth_eq hframe (h.first hframe) hoff
      received
  · obtain ⟨htakes, hconverted, hheld⟩ := second_slot hoff hframe received
    have hnext := frame_after_second hframe received
    refine ⟨by rw [hconverted, h.second hframe], ?_, ?_, ?_, ?_⟩
    · refine ⟨_, _, tracks_tickLink ht received, hprompt.takePlaces fun htaken => ?_, fun _ => ?_⟩
      · rw [htakes] at htaken
        simp at htaken
      · rw [htakes]
        rfl
    · exact (Fifo.depth_readTick _ _).trans h.depth_eq
    · exact fun _ => hheld
    · exact fun h => absurd hnext h

end Flowing

/-! ### The first word -/

/-- The converter has sent nothing yet, and will be idle for at most `left` more cycles. -/
structure Starting (stages depth left : Nat) (clocked : Bool) (b : Bridge) : Prop where
  queue : ∃ t reached, b.crossings.txFifo.Tracks t ∧
    Filling stages t reached (if clocked then 0 else 1) ∧
    (clocked = true → t.written = 0 → stages + 2 ≤ left) ∧
    (reached = stages ∧ b.link.frame = frameFirst ∨ stages + 1 ≤ left + reached)
  depth_eq : b.crossings.txFifo.depth = depth
  pending_eq : b.link.txConverter.pending = none

namespace Starting

theorem new {p : BridgeParams} (hb : Bridge.new p = .ok b) :
    b.Starting p.syncStages p.fifoDepth (p.syncStages + 2) true := by
  have hcheck := check_of_new hb
  obtain rfl := eq_ofParams hb
  refine ⟨⟨_, 0, Fifo.tracks_new _ _, Filling.new (BridgeParams.minStages_le hcheck), ?_, ?_⟩, ?_,
    rfl⟩
  · exact fun _ _ => Nat.le_refl _
  · exact .inr (by omega)
  · exact BridgeParams.ceilPow2_fifoDepth hcheck

theorem tickControl (h : b.Starting stages depth left clocked) (hdepth : stages < depth)
    {t : Transport} (hoffered : t.offered.isSome = true) :
    (b.tickControl t).1.Starting stages depth left true := by
  obtain ⟨u, reached, hu, hfilling, -, hsoon⟩ := h.queue
  have haccepted : u.written ≤ stages →
      (b.crossings.txFifo.accepted t.offered).isSome = true := by
    intro hroom
    refine hu.isSome_accepted hoffered ?_
    rw [h.depth_eq]
    omega
  obtain ⟨hnext, hwritten⟩ := hfilling.write haccepted
  refine ⟨⟨_, reached, hu.writeTick t.offered, hnext, ?_, hsoon⟩, ?_, h.pending_eq⟩
  · exact fun _ hzero => absurd hzero hwritten
  · exact (Fifo.depth_writeTick _ _).trans h.depth_eq

/-- A link cycle is one idle cycle less, or the first that sends. -/
theorem tickLink (h : b.Starting stages depth left true) (hoff : b.linkControls.tx.enable = false)
    (received : LinkSample) :
    (b.converted = none ∧
      ∃ fewer < left, (b.tickLink received).Starting stages depth fewer false) ∨
    (b.converted.isSome = true ∧ (b.tickLink received).Flowing stages depth false) := by
  obtain ⟨t, reached, ht, hfilling, hfresh, hsoon⟩ := h.queue
  by_cases hnow : reached = stages ∧ b.link.frame = frameFirst
  · obtain ⟨rfl, hframe⟩ := hnow
    exact .inr (flowing_of_first ht hfilling.prompt (by simp) h.depth_eq hframe h.pending_eq hoff
      received)
  · refine .inl ?_
    have hunseen : b.link.frame = frameFirst → b.crossings.txFifo.peek = none := by
      intro hframe
      rw [← Option.not_isSome_iff_eq_none, ht.isSome_peek_iff, hfilling.read_eq,
        hfilling.output_pos_iff]
      exact fun hreached => hnow ⟨hreached, hframe⟩
    obtain ⟨htakes, hconverted, hheld⟩ := idle_slot hoff h.pending_eq hunseen received
    have hnext := tracks_tickLink ht received
    rw [htakes] at hnext
    have hreached := hfilling.reached_le
    have hlater : stages + 1 ≤ left + reached := hsoon.resolve_left hnow
    refine ⟨hconverted, left - 1, by omega, ⟨_, _, hnext, hfilling.take, by simp, ?_⟩,
      (Fifo.depth_readTick _ _).trans h.depth_eq, hheld⟩
    by_cases hwritten : t.written = 0
    · have hall := hfresh rfl hwritten
      rw [if_pos hwritten]
      exact .inr (by omega)
    · rw [if_neg hwritten]
      by_cases hseen : reached = stages
      · have hframe : b.link.frame ≠ frameFirst := fun h => hnow ⟨hseen, h⟩
        exact .inl ⟨by omega, frame_after_second hframe received⟩
      · exact .inr (by omega)

end Starting
end Bridge

theorem Transport.length_pending_acceptOffered (t : Transport) :
    t.pending.length ≤ t.acceptOffered.pending.length + 1 := by
  simp only [acceptOffered]
  cases hpending : t.pending with
  | nil => simp
  | cons w rest => exact Nat.le_refl _

abbrev Operation.KeepsGeneratorOff : Operation → Prop :=
  WritesOnly .txPattern fun value => (PatternControl.ofBits value).enable = false

namespace Session

/-- The pads of each link cycle, if they carry a half from the converter. -/
def converterPads (s : Session) : Operation → List (Option LinkSample)
  | .link received =>
    [if s.bridge.converted.isSome then some (s.bridge.tickLink received).txPads else none]
  | _ => []

/-- The transport offers a word in a control cycle, and the generator is off in a link cycle. -/
def Supplied (s : Session) : Operation → Prop
  | .control => s.transport.offered.isSome = true
  | .link _ => s.bridge.linkControls.tx.enable = false
  | _ => True

variable {stages depth left : Nat} {clocked : Bool} {s : Session}

/-! ### A supply of words -/

/-- The generator is neither enabled nor about to be. -/
abbrev GeneratorOff (s : Session) : Prop := Setting.txPattern.Keeps (·.enable = false) s.bridge

theorem generatorOff_new {p : BridgeParams} {b : Bridge} (hb : Bridge.new p = .ok b)
    (t : Transport) : GeneratorOff ⟨b, t⟩ := by
  obtain rfl := Bridge.eq_ofParams hb
  exact ⟨rfl, Chain.Holds.new (P := fun c : PatternControl => c.enable = false) rfl p.syncStages⟩

/-- A control cycle takes at most one word from the transport, and nothing else takes any. -/
theorem length_pending_step (s : Session) (o : Operation) :
    s.transport.pending.length ≤
      (s.step o).transport.pending.length + if o = .control then 1 else 0 := by
  cases o with
  | control =>
    have haccept : ∀ c : Bool, s.transport.pending.length ≤
        (if c then s.transport.acceptOffered else s.transport).pending.length + 1 := by
      intro c
      cases c with
      | false => exact Nat.le_succ _
      | true => exact s.transport.length_pending_acceptOffered
    show _ ≤ (s.bridge.tickControl s.transport).2.pending.length + 1
    rw [Bridge.transport_tickControl]
    cases s.bridge.crossings.rxFifo.taken s.transport.ready with
    | none => exact haccept _
    | some w => exact haccept _
  | write address value =>
    rcases s.step_write address value with hstep | ⟨r, -, hstep⟩
    · rw [hstep]
      exact Nat.le_add_right _ _
    · rw [hstep]
      exact Nat.le_add_right _ _
  | send words =>
    show _ ≤ (s.transport.pending ++ words).length + _
    rw [List.length_append]
    omega
  | _ => exact Nat.le_add_right _ _

/-- A word for each control cycle, and no write that enables the generator. -/
theorem supplied_of_pending {ops : List Operation} (hs : s.GeneratorOff)
    (hoff : ∀ o ∈ ops, o.KeepsGeneratorOff)
    (hpending : ops.count .control ≤ s.transport.pending.length) :
    Trace.Along step Supplied s ops := by
  induction ops generalizing s with
  | nil => exact trivial
  | cons o rest ih =>
    have hstep := s.length_pending_step o
    rw [List.count_cons] at hpending
    refine ⟨?_, ih (Setting.Keeps.step hs (hoff o List.mem_cons_self))
      (fun u hu => hoff u (List.mem_cons_of_mem o hu)) ?_⟩
    · cases o with
      | control =>
        show s.transport.pending.head?.isSome = true
        cases hwords : s.transport.pending with
        | nil => simp [hwords] at hpending
        | cons w words => rfl
      | link received => exact hs.inForce
      | _ => exact trivial
    · simp only [beq_iff_eq] at hpending
      omega

/-! ### Runs -/

theorem flowing_other (hs : s.bridge.Flowing stages depth clocked) {o : Operation}
    (hcontrol : o ≠ .control) (hlink : ∀ received, o ≠ .link received) :
    (s.step o).bridge.Flowing stages depth clocked := by
  obtain ⟨control, hbridge⟩ := s.bridge_other hcontrol hlink
  rw [hbridge]
  exact ⟨hs.queue, hs.depth_eq, hs.first, hs.second⟩

theorem starting_other (hs : s.bridge.Starting stages depth left clocked) {o : Operation}
    (hcontrol : o ≠ .control) (hlink : ∀ received, o ≠ .link received) :
    (s.step o).bridge.Starting stages depth left clocked := by
  obtain ⟨control, hbridge⟩ := s.bridge_other hcontrol hlink
  rw [hbridge]
  exact ⟨hs.queue, hs.depth_eq, hs.pending_eq⟩

theorem flowing_run (hdepth : stages < depth) {ops : List Operation}
    (hs : s.bridge.Flowing stages depth clocked) (hpaced : Operation.paced clocked ops = true)
    (hsupplied : Trace.Along step Supplied s ops) :
    ∃ halves : List LinkSample, Trace.gather step converterPads s ops = halves.map some := by
  induction ops generalizing clocked s with
  | nil => exact ⟨[], rfl⟩
  | cons o rest ih =>
    obtain ⟨ho, hrest⟩ := hsupplied
    cases o with
    | control => exact ih (hs.tickControl hdepth ho) hpaced hrest
    | link received =>
      cases clocked with
      | false => simp [Operation.paced] at hpaced
      | true =>
        obtain ⟨hsends, hnext⟩ := hs.tickLink ho received
        obtain ⟨halves, hhalves⟩ := ih hnext hpaced hrest
        refine ⟨(s.bridge.tickLink received).txPads :: halves, ?_⟩
        simp only [Trace.gather, converterPads, if_pos hsends, hhalves]
        rfl
    | _ => exact ih (flowing_other hs (by simp) (by simp)) hpaced hrest

theorem starting_run (hdepth : stages < depth) {ops : List Operation}
    (hs : s.bridge.Starting stages depth left clocked)
    (hpaced : Operation.paced clocked ops = true) (hsupplied : Trace.Along step Supplied s ops) :
    ∃ (idle : Nat) (halves : List LinkSample), idle ≤ left ∧
      Trace.gather step converterPads s ops = List.replicate idle none ++ halves.map some := by
  induction ops generalizing clocked left s with
  | nil => exact ⟨0, [], Nat.zero_le _, rfl⟩
  | cons o rest ih =>
    obtain ⟨ho, hrest⟩ := hsupplied
    cases o with
    | control => exact ih (hs.tickControl hdepth ho) hpaced hrest
    | link received =>
      cases clocked with
      | false => simp [Operation.paced] at hpaced
      | true =>
        rcases hs.tickLink ho received with ⟨hidles, fewer, hfewer, hnext⟩ | ⟨hsends, hnext⟩
        · obtain ⟨idle, halves, hle, hhalves⟩ := ih hnext hpaced hrest
          refine ⟨idle + 1, halves, by omega, ?_⟩
          simp only [Trace.gather, converterPads, hidles, hhalves]
          rfl
        · obtain ⟨halves, hhalves⟩ : ∃ halves : List LinkSample,
              Trace.gather step converterPads (s.step (.link received)) rest = halves.map some :=
            flowing_run hdepth hnext hpaced hrest
          refine ⟨0, (s.bridge.tickLink received).txPads :: halves, Nat.zero_le _, ?_⟩
          simp only [Trace.gather, converterPads, if_pos hsends, hhalves]
          rfl
    | _ => exact ih (starting_other hs (by simp) (by simp)) hpaced hrest

/-- As many places as stages are too few. -/
example :
    let t : Transport := { pending := List.replicate 8 ⟨0x12345678⟩ }
    let cycle : List Operation := [.control, .link default]
    let ops := cycle ++ cycle ++ cycle ++ cycle ++ cycle ++ cycle ++ cycle ++ cycle
    let pads := Trace.gather step converterPads ⟨Bridge.ofParams { fifoDepth := 2 }, t⟩ ops
    pads.map Option.isSome = [false, false, true, true, true, true, false, false] := by
  decide +kernel

end Session
end LinkBridge
