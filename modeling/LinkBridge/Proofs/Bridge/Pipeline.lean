import LinkBridge.Proofs.Bridge.Transmit
import LinkBridge.Proofs.Sample.Aligner

/-!
The link side in internal loopback.

With no pattern about, the masked word on the pads comes back in the same cycle, the aligner holds
it for one cycle, and the receive converter joins two halves.  At any time at most one word is
between the two converters.  `Looped` names the three situations: zeros everywhere, a first half in
the aligner with its second half still to be sent, and both halves received.  A cycle leads from
each to a known one, and `inFlight` is the word between the converters, zero if there is none.
-/

namespace LinkBridge

open Crossing

/-! ### Zeros and masks -/

theorem LinkWord.masked_default (m : UInt32) : (default : LinkWord).masked m = default := by
  have h : (default : LinkWord).packed = 0 := rfl
  show LinkWord.ofPacked ((default : LinkWord).packed &&& m) = default
  rw [h, UInt32.zero_and]
  rfl

namespace SampleWord

theorem join_default : join default default = default := rfl

/-- What comes back of a word when both halves are masked on the way. -/
def masked (w : SampleWord) (m : UInt32) : SampleWord :=
  join (w.split.1.masked m) (w.split.2.masked m)

/-- The words that are not idle, which means zero. -/
def nonIdle (words : List SampleWord) : List SampleWord := words.filter (· ≠ default)

theorem nonIdle_append (a b : List SampleWord) : nonIdle (a ++ b) = nonIdle a ++ nonIdle b :=
  List.filter_append ..

theorem nonIdle_cons_default (words : List SampleWord) :
    nonIdle (default :: words) = nonIdle words := rfl

theorem nonIdle_getD (w : Option SampleWord) : nonIdle [w.getD default] = nonIdle w.toList := by
  cases w <;> rfl

theorem nonIdle_of_getD {w : Option SampleWord} (h : w.getD default = default) :
    nonIdle w.toList = [] := by
  rw [← nonIdle_getD, h]
  rfl

end SampleWord

/-! ### Aligner and receive converter -/

theorem Aligner.tick_of_zero {a : Aligner} {s : LinkSample}
    (ha : (a.last.map LinkSample.word).getD default = default) (hs : s.word = default) :
    ((a.tick s).2.map LinkSample.word).getD default = default := by
  cases hlast : a.last with
  | none => simp [Aligner.tick, hlast]
  | some last =>
    have hword : last.word = default := by simpa [hlast] using ha
    cases haligned : s.isAligned with
    | true => simp [Aligner.tick, hlast, haligned, hword]
    | false =>
      simp only [Aligner.tick, hlast, haligned, Option.map_some, Option.getD_some,
        Bool.false_eq_true, if_false, LinkSample.late, hword, hs]
      rfl

theorem RxConverter.tick_of_zero {c : RxConverter} {sample : Option LinkSample}
    (hc : c.first.getD default = default)
    (hs : (sample.map LinkSample.word).getD default = default) :
    (c.tick sample).1.first.getD default = default ∧
      (c.tick sample).2.getD default = default := by
  cases sample with
  | none => exact ⟨rfl, rfl⟩
  | some s =>
    have hword : s.word = default := by simpa using hs
    cases hfirst : s.isFirst with
    | true => simp [RxConverter.tick, hfirst, hword]
    | false =>
      cases hc' : c.first with
      | none => simp [RxConverter.tick, hfirst, hc']
      | some first =>
        have hzero : first = default := by simpa [hc'] using hc
        simp [RxConverter.tick, hfirst, hc', hzero, hword, SampleWord.join_default]

namespace LinkSide

variable {l : LinkSide}

theorem rebuild_of_disabled {c : LinkControls} (h : c.rx.enable = false)
    (boundary : LinkSample) :
    l.rebuild c boundary = l.rxConverter.tick (l.aligner.tick boundary).2 := by
  have hready : l.checker.ready c.rx.enable = false := by
    rw [h]
    rfl
  unfold rebuild routed
  rw [hready]
  cases (l.aligner.tick boundary).2 <;> rfl

theorem convert_first (hframe : l.frame = frameFirst) (hpending : l.txConverter.pending = none)
    (input : Option SampleWord) :
    l.convert false input = ({ pending := input.map (·.split.2) }, input.map (·.split.1)) := by
  have hconverter : l.txConverter = {} := congrArg TxConverter.mk hpending
  cases input <;> simp [convert, TxConverter.tick, firstSlot, hframe, hconverter]

theorem convert_second (hframe : l.frame ≠ frameFirst) (input : Option SampleWord) :
    l.convert false input = ({}, l.txConverter.pending) := by
  have hslot : l.firstSlot = false := beq_eq_false_iff_ne.mpr hframe
  cases hpending : l.txConverter.pending with
  | none =>
    have hconverter : l.txConverter = {} := congrArg TxConverter.mk hpending
    simp [convert, TxConverter.tick, hslot, hconverter]
  | some half => simp [convert, TxConverter.tick, hslot, hpending]

theorem takes_second (hframe : l.frame ≠ frameFirst) (fifo : Fifo SampleWord)
    (generating : Bool) : l.takes fifo generating = none := by
  cases h : l.takes fifo generating with
  | none => rfl
  | some w => exact absurd (l.takes_some fifo h).2.1 hframe

/-! ### What is on the way -/

def history (l : LinkSide) : LinkWord := (l.aligner.last.map LinkSample.word).getD default

def firstHalf (l : LinkSide) : LinkWord := l.rxConverter.first.getD default

def heldHalf (l : LinkSide) : LinkWord := l.txConverter.pending.getD default

/-- The word between the converters. -/
def inFlight (l : LinkSide) : SampleWord :=
  if l.frame = frameFirst then .join l.firstHalf l.history
  else .join l.history (l.heldHalf.masked l.loopbackMask)

structure Quiet (l : LinkSide) : Prop where
  history_eq : l.history = default
  firstHalf_eq : l.firstHalf = default
  pending_eq : l.txConverter.pending = none

inductive Looped (l : LinkSide) : Prop where
  | quiet (h : l.Quiet)
  | starting (first : LinkWord) (hframe : l.frame ≠ frameFirst)
      (hlast : l.aligner.last = some (.framed first frameFirst))
  | finishing (first second : LinkWord) (hframe : l.frame = frameFirst)
      (hlast : l.aligner.last = some (.framed second (!frameFirst)))
      (hfirst : l.rxConverter.first = some first)
      (hpending : l.txConverter.pending = none)

theorem Quiet.inFlight_eq (h : l.Quiet) : l.inFlight = default := by
  have hheld : l.heldHalf = default := by
    unfold heldHalf
    rw [h.pending_eq]
    rfl
  unfold inFlight
  rw [h.history_eq, h.firstHalf_eq, hheld, LinkWord.masked_default, SampleWord.join_default]
  split <;> rfl

end LinkSide

/-! ### One cycle -/

namespace Bridge

theorem last_tickLink (b : Bridge) (received : LinkSample) :
    (b.tickLink received).link.aligner.last = some (b.boundary received) := by
  rw [aligner_tickLink, Aligner.last_tick]

theorem history_tickLink (b : Bridge) (received : LinkSample) :
    (b.tickLink received).link.history = (b.boundary received).word := by
  unfold LinkSide.history
  rw [last_tickLink]
  rfl

variable {b : Bridge}

theorem frame_after_first (h : b.link.frame = frameFirst) (received : LinkSample) :
    (b.tickLink received).link.frame ≠ frameFirst := by
  rw [frame_tickLink, h]
  decide

theorem frame_after_second (h : b.link.frame ≠ frameFirst) (received : LinkSample) :
    (b.tickLink received).link.frame = frameFirst := by
  rw [frame_tickLink, Bool.eq_not_of_ne h]
  rfl

/-! ### Without the generator -/

theorem generated_of_disabled (h : b.linkControls.tx.enable = false) : b.generated = none := by
  unfold generated LinkSide.generate Generator.tick
  rw [h]
  rfl

theorem converted_of_disabled (h : b.linkControls.tx.enable = false) :
    b.converted = (b.link.convert false b.takes).2 := by
  unfold converted
  rw [generated_of_disabled h]
  rfl

theorem txConverter_of_disabled (h : b.linkControls.tx.enable = false) (received : LinkSample) :
    (b.tickLink received).link.txConverter = (b.link.convert false b.takes).1 := by
  rw [txConverter_tickLink, generated_of_disabled h]
  rfl

/-- In the coming link cycle neither generator nor checker is in the way. -/
structure Unpatterned (b : Bridge) : Prop where
  tx : b.linkControls.tx.enable = false
  rx : b.linkControls.rx.enable = false

namespace Unpatterned

theorem generated_eq (h : b.Unpatterned) : b.generated = none := generated_of_disabled h.tx

theorem convert_eq (h : b.Unpatterned) :
    b.converted = (b.link.convert false b.takes).2 := converted_of_disabled h.tx

theorem txConverter_eq (h : b.Unpatterned) (received : LinkSample) :
    (b.tickLink received).link.txConverter = (b.link.convert false b.takes).1 :=
  txConverter_of_disabled h.tx received

theorem rebuilt_eq (h : b.Unpatterned) (received : LinkSample) :
    b.rebuilt received =
      (b.link.rxConverter.tick (b.link.aligner.tick (b.boundary received)).2).2 := by
  unfold rebuilt
  rw [LinkSide.rebuild_of_disabled h.rx]

theorem rxConverter_eq (h : b.Unpatterned) (received : LinkSample) :
    (b.tickLink received).link.rxConverter =
      (b.link.rxConverter.tick (b.link.aligner.tick (b.boundary received)).2).1 := by
  rw [rxConverter_tickLink, LinkSide.rebuild_of_disabled h.rx]

theorem boundary_eq (h : b.Unpatterned) (hloop : b.linkControls.loopback = true)
    (received : LinkSample) :
    b.boundary received =
      .framed ((b.converted.getD default).masked b.link.loopbackMask) b.link.frame := by
  unfold boundary Routing.rxSample sending Routing.txWord
  rw [hloop, h.generated_eq]
  rfl

end Unpatterned

theorem quiet_tickLink (h : b.Unpatterned) (hq : b.link.Quiet) (htakes : b.takes = none)
    {received : LinkSample} (hzero : (b.boundary received).word = default) :
    (b.tickLink received).link.Quiet ∧ (b.rebuilt received).getD default = default := by
  have hword := Aligner.tick_of_zero hq.history_eq hzero
  obtain ⟨hfirst, hrebuilt⟩ := RxConverter.tick_of_zero hq.firstHalf_eq hword
  have hpending : (b.link.convert false b.takes).1.pending = none := by
    rw [htakes]
    by_cases hframe : b.link.frame = frameFirst
    · rw [LinkSide.convert_first hframe hq.pending_eq]
      rfl
    · rw [LinkSide.convert_second hframe]
  refine ⟨⟨?_, ?_, ?_⟩, ?_⟩
  · rw [history_tickLink]
    exact hzero
  · unfold LinkSide.firstHalf
    rw [h.rxConverter_eq]
    exact hfirst
  · rw [h.txConverter_eq]
    exact hpending
  · rw [h.rebuilt_eq]
    exact hrebuilt

/-- In a first slot with no half held, the aligner gives out what it held, and the first half of a
word that is taken goes into it. -/
theorem first_tickLink (h : b.Unpatterned) (hloop : b.linkControls.loopback = true)
    (hframe : b.link.frame = frameFirst) (hpending : b.link.txConverter.pending = none)
    (received : LinkSample) :
    (b.tickLink received).link.Looped ∧
      (b.tickLink received).link.inFlight =
        (b.takes.map (·.masked b.link.loopbackMask)).getD default ∧
      b.rebuilt received = (b.link.rxConverter.tick b.link.aligner.last).2 := by
  have hconvert := LinkSide.convert_first hframe hpending b.takes
  have hboundary := h.boundary_eq hloop received
  have hconverted : b.converted = b.takes.map (·.split.1) := by rw [h.convert_eq, hconvert]
  have hnext := frame_after_first hframe received
  have hheld : (b.tickLink received).link.heldHalf = (b.takes.map (·.split.2)).getD default := by
    unfold LinkSide.heldHalf
    rw [h.txConverter_eq, hconvert]
  have hlast := b.last_tickLink received
  rw [hboundary, hframe] at hlast
  refine ⟨.starting _ hnext hlast, ?_, ?_⟩
  · have hhistory : (b.tickLink received).link.history =
        (b.converted.getD default).masked b.link.loopbackMask := by
      rw [history_tickLink, hboundary]
      rfl
    unfold LinkSide.inFlight
    rw [if_neg hnext, hhistory, hheld, hconverted, loopbackMask_tickLink]
    cases b.takes with
    | some w => rfl
    | none =>
      show SampleWord.join ((default : LinkWord).masked _) ((default : LinkWord).masked _) = default
      rw [LinkWord.masked_default, SampleWord.join_default]
  · rw [h.rebuilt_eq, hboundary, Aligner.tick_of_aligned _ (beq_self_eq_true _)]

/-- In a second slot the receive converter gets the first half, and the aligner the second one. -/
theorem second_tickLink (h : b.Unpatterned) (hloop : b.linkControls.loopback = true)
    {first : LinkWord} (hframe : b.link.frame ≠ frameFirst)
    (hlast : b.link.aligner.last = some (.framed first frameFirst)) (received : LinkSample) :
    (b.tickLink received).link.Looped ∧
      (b.tickLink received).link.inFlight = b.link.inFlight ∧
      b.rebuilt received = none := by
  have hboundary := h.boundary_eq hloop received
  rw [h.convert_eq, LinkSide.convert_second hframe, Bool.eq_not_of_ne hframe] at hboundary
  have houtput : (b.link.aligner.tick (b.boundary received)).2 =
      some (.framed first frameFirst) := by
    rw [hboundary, Aligner.tick_of_aligned _ (beq_self_eq_true _), hlast]
  have hnext := frame_after_second hframe received
  have hfirst : (b.tickLink received).link.rxConverter.first = some first := by
    rw [h.rxConverter_eq, houtput]
    rfl
  have hpending : (b.tickLink received).link.txConverter.pending = none := by
    rw [h.txConverter_eq, LinkSide.convert_second hframe]
  have hheld := b.last_tickLink received
  rw [hboundary] at hheld
  refine ⟨.finishing first _ hnext hheld hfirst hpending, ?_, ?_⟩
  · have hhistory : (b.tickLink received).link.history =
        b.link.heldHalf.masked b.link.loopbackMask := by
      rw [history_tickLink, hboundary]
      rfl
    have hold : b.link.history = first := by
      unfold LinkSide.history
      rw [hlast]
      rfl
    unfold LinkSide.inFlight
    rw [if_pos hnext, if_neg hframe, hhistory, hold]
    unfold LinkSide.firstHalf
    rw [hfirst]
    rfl
  · rw [h.rebuilt_eq, houtput]
    rfl

/-- In loopback a cycle takes a word in, moves the word on the way, or gives it out. -/
theorem looped_tickLink (h : b.Unpatterned) (hloop : b.linkControls.loopback = true)
    (hlooped : b.link.Looped) (received : LinkSample) :
    (b.tickLink received).link.Looped ∧
      SampleWord.nonIdle
          ((b.rebuilt received).toList ++ [(b.tickLink received).link.inFlight]) =
        SampleWord.nonIdle
          (b.link.inFlight :: b.takes.toList.map (·.masked b.link.loopbackMask)) := by
  cases hlooped with
  | quiet hq =>
    rw [hq.inFlight_eq, SampleWord.nonIdle_cons_default, SampleWord.nonIdle_append]
    by_cases hframe : b.link.frame = frameFirst
    · obtain ⟨hnext, hin, hrebuilt⟩ := first_tickLink h hloop hframe hq.pending_eq received
      have hzero : (b.rebuilt received).getD default = default := by
        rw [hrebuilt]
        exact (RxConverter.tick_of_zero hq.firstHalf_eq hq.history_eq).2
      refine ⟨hnext, ?_⟩
      rw [SampleWord.nonIdle_of_getD hzero, hin, SampleWord.nonIdle_getD, Option.toList_map]
      rfl
    · have htakes : b.takes = none := b.link.takes_second hframe _ _
      have hboundary : (b.boundary received).word = default := by
        rw [h.boundary_eq hloop, h.convert_eq, LinkSide.convert_second hframe, hq.pending_eq]
        exact LinkWord.masked_default _
      obtain ⟨hnext, hzero⟩ := quiet_tickLink h hq htakes hboundary
      refine ⟨.quiet hnext, ?_⟩
      rw [SampleWord.nonIdle_of_getD hzero, hnext.inFlight_eq, htakes]
      rfl
  | starting first hframe hlast =>
    have htakes : b.takes = none := b.link.takes_second hframe _ _
    obtain ⟨hnext, hin, hrebuilt⟩ := second_tickLink h hloop hframe hlast received
    refine ⟨hnext, ?_⟩
    rw [hrebuilt, hin, htakes]
    rfl
  | finishing first second hframe hlast hfirst hpending =>
    obtain ⟨hnext, hin, hrebuilt⟩ := first_tickLink h hloop hframe hpending received
    have hwhole : b.rebuilt received = some b.link.inFlight := by
      unfold LinkSide.inFlight LinkSide.firstHalf LinkSide.history
      rw [hrebuilt, if_pos hframe, hlast, hfirst]
      unfold RxConverter.tick
      rw [hfirst]
      rfl
    refine ⟨hnext, ?_⟩
    rw [hwhole, hin, SampleWord.nonIdle_append, SampleWord.nonIdle_getD, Option.toList_map,
      ← SampleWord.nonIdle_append]
    rfl

end Bridge
end LinkBridge
