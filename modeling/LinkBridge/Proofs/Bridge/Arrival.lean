import LinkBridge.Proofs.Bridge.Loopback
import LinkBridge.Proofs.Sample.Word

/-!
Where the words of the receive converter come from.

In internal loopback each link cycle brings one link word to the receive path: a half of a word of
the transport, or something else, from the generator, from an idle link or from outside.  The
receive converter joins the two that came last, whatever they are.  A word of the transport comes
out whole as long as its halves come one right after the other, and the only thing that can come
between them is the generator.  So words are torn only if it takes the link from a converter that
holds a half, and the link cycle after that completes the torn word
(`words_whole_iff_uninterrupted`).
-/

namespace LinkBridge

open Crossing

/-- What a link cycle brings to the receive path. -/
inductive Arrival where
  /-- The first half of a word that the converter has just taken. -/
  | first (word : SampleWord)
  /-- A half that the converter held. -/
  | second (half : LinkWord)
  /-- A link word that is no half of a word of the transport. -/
  | other (word : LinkWord)
deriving DecidableEq, Repr

namespace Arrival

def word : Arrival → LinkWord
  | .first w => w.split.1
  | .second half => half
  | .other w => w

/-- The half that is still to come. -/
def opens : Arrival → Option LinkWord
  | .first w => some w.split.2
  | _ => none

/-- The half that came late. -/
def closes : Arrival → Option LinkWord
  | .second half => some half
  | _ => none

/-- Both halves of one of the words, or no half at all. -/
def Whole (words : List SampleWord) : Arrival → Arrival → Prop
  | .first w, .second half => w ∈ words ∧ half = w.split.2
  | .other _, .other _ => True
  | _, _ => False

instance (words : List SampleWord) : ∀ a c, Decidable (Whole words a c)
  | .first _, .second _ => inferInstanceAs (Decidable (_ ∧ _))
  | .other _, .other _ => inferInstanceAs (Decidable True)
  | .first _, .first _ | .first _, .other _ | .second _, _ | .other _, .first _
  | .other _, .second _ => inferInstanceAs (Decidable False)

theorem whole_of_opens {words : List SampleWord} {a c : Arrival} (h : a.opens = c.closes)
    (ha : a.closes = none) (hc : c.opens = none) (hwords : ∀ w, a = .first w → w ∈ words) :
    a.Whole words c := by
  cases a with
  | first w =>
    cases c with
    | second half => exact ⟨hwords w rfl, (Option.some.inj h).symm⟩
    | first v => simp [opens, closes] at h
    | other v => simp [opens, closes] at h
  | second half => simp [closes] at ha
  | other v =>
    cases c with
    | first w => simp [opens] at hc
    | second half => simp [opens, closes] at h
    | other v => exact trivial

/-- Something else behind a first half makes no whole word with it. -/
theorem not_whole_of_cut {words : List SampleWord} {front before : List Arrival}
    {older newest : Arrival} {w : SampleWord} {g : LinkWord}
    (h : front ++ [older, newest] = before ++ [.first w, .other g]) :
    ¬older.Whole words newest := by
  intro hpair
  obtain ⟨-, hends⟩ := List.append_inj' h rfl
  obtain ⟨rfl, hnewest⟩ := List.cons.inj hends
  obtain ⟨rfl, -⟩ := List.cons.inj hnewest
  exact hpair

/-- How an arrival shows on the link side right after its cycle. -/
def Shown (l : LinkSide) : Arrival → Prop
  | .first w =>
    l.aligner.last = some (.framed w.split.1 frameFirst) ∧ l.frame ≠ frameFirst ∧
      l.txConverter.pending = some w.split.2
  | .second half => l.aligner.last = some (.framed half (!frameFirst))
  | .other w => ∃ s, l.aligner.last = some s ∧ s.word = w

theorem Shown.exists_last {l : LinkSide} {a : Arrival} (h : a.Shown l) :
    ∃ s, l.aligner.last = some s ∧ s.word = a.word ∧ (s.isFirst = true → a.closes = none) ∧
      (s.isFirst = false → a.opens = none) := by
  cases a with
  | first w =>
    refine ⟨_, h.1, rfl, fun _ => rfl, fun hsecond => ?_⟩
    simp [LinkSample.isFirst, LinkSample.framed] at hsecond
  | second half =>
    refine ⟨_, h, rfl, fun hfirst => ?_, fun _ => rfl⟩
    simp [LinkSample.isFirst, LinkSample.framed] at hfirst
  | other w =>
    obtain ⟨s, hs, hword⟩ := h
    exact ⟨s, hs, hword, fun _ => rfl, fun _ => rfl⟩

end Arrival

/-! ### The converter in one cycle -/

namespace Bridge

variable {b : Bridge}

/-- A word is taken and its first half sent, a held half is sent, or the converter rests. -/
inductive Converts (b : Bridge) : Prop where
  | starts (w : SampleWord) (htakes : b.takes = some w) (hgenerated : b.generated = none)
      (hframe : b.link.frame = frameFirst) (hpending : b.link.txConverter.pending = none)
      (hconverts : b.link.convert b.generated.isSome b.takes =
        ({ pending := some w.split.2 }, some w.split.1))
  | finishes (half : LinkWord) (htakes : b.takes = none) (hgenerated : b.generated = none)
      (hframe : b.link.frame ≠ frameFirst) (hpending : b.link.txConverter.pending = some half)
      (hconverts : b.link.convert b.generated.isSome b.takes = ({}, some half))
  | rests (htakes : b.takes = none)
      (hwaits : ∀ half, b.link.txConverter.pending = some half →
        b.generated.isSome ∨ b.link.frame = frameFirst)
      (hconverts : b.link.convert b.generated.isSome b.takes = (b.link.txConverter, none))

theorem converts (b : Bridge) : b.Converts := by
  cases htakes : b.takes with
  | some w =>
    obtain ⟨hfree, hframe, hpending, -⟩ := b.link.takes_some b.crossings.txFifo htakes
    refine .starts w htakes (Option.not_isSome_iff_eq_none.mp (by simp [hfree])) hframe hpending ?_
    rw [hfree, htakes, LinkSide.convert_first hframe hpending]
    rfl
  | none =>
    cases hgenerated : b.generated with
    | some g =>
      refine .rests htakes (fun _ _ => .inl (by simp [hgenerated])) ?_
      simp [LinkSide.convert, hgenerated]
    | none =>
      by_cases hframe : b.link.frame = frameFirst
      · refine .rests htakes (fun _ _ => .inr hframe) ?_
        have hslot : b.link.firstSlot = true := beq_iff_eq.mpr hframe
        rw [hgenerated, htakes]
        cases hpending : b.link.txConverter.pending <;>
          simp [LinkSide.convert, TxConverter.tick, hslot, hpending]
      · have hconvert := LinkSide.convert_second hframe b.takes
        cases hpending : b.link.txConverter.pending with
        | some half =>
          refine .finishes half htakes hgenerated hframe hpending ?_
          rw [hgenerated, ← hpending]
          exact hconvert
        | none =>
          refine .rests htakes (fun half hhalf => by simp [hpending] at hhalf) ?_
          have hrest : b.link.txConverter = {} := congrArg TxConverter.mk hpending
          rw [hpending] at hconvert
          rw [hgenerated, hrest]
          exact hconvert

/-- What the coming link cycle brings to the receive path. -/
def arrival (b : Bridge) (received : LinkSample) : Arrival :=
  match b.takes, b.converted with
  | some w, _ => .first w
  | none, some half => .second half
  | none, none => .other (b.boundary received).word

/-! ### Loopback with the checker off -/

/-- Loopback is set, nothing is masked and the checker is off, and no word has come further towards
the link side than the loopback bit. -/
structure Unchecked (b : Bridge) : Prop where
  control_eq : b.control.control.loopback = true
  rxPattern_eq : b.control.rxPattern.enable = false
  rxPatterns : b.crossings.rxPattern.Holds (·.enable = false)
  mask_eq : b.link.loopbackMask = 0xffffffff
  led : ∃ t, b.Led t
  rising : b.crossings.loopback.Follows true

namespace Unchecked

theorem tickControl (h : b.Unchecked) (t : Transport) : (b.tickControl t).1.Unchecked where
  control_eq := h.control_eq
  rxPattern_eq := h.rxPattern_eq
  rxPatterns := by
    rw [rxPattern_tickControl]
    exact h.rxPatterns.drive h.rxPattern_eq
  mask_eq := h.mask_eq
  led := by
    obtain ⟨u, hu⟩ := h.led
    exact ⟨_, hu.tickControl h.control_eq t⟩
  rising := by
    rw [loopback_tickControl, h.control_eq]
    exact h.rising.drive

theorem tickLink (h : b.Unchecked) (received : LinkSample) : (b.tickLink received).Unchecked where
  control_eq := h.control_eq
  rxPattern_eq := h.rxPattern_eq
  rxPatterns := by
    rw [rxPattern_tickLink]
    exact h.rxPatterns.tick
  mask_eq := h.mask_eq
  led := by
    obtain ⟨t, ht⟩ := h.led
    exact ⟨_, ht.tickLink received⟩
  rising := by
    rw [loopback_tickLink]
    exact h.rising.tick

/-- A write that leaves the loopback bit and the checker's enable alone. -/
theorem writeRegister (h : b.Unchecked) {r : Register} {value : UInt32}
    (hcontrol : r = .control → (ControlReg.ofBits value).loopback = true)
    (hrx : r = .rxPattern → (PatternControl.ofBits value).enable = false) :
    (b.writeRegister r value).Unchecked where
  control_eq := by
    cases r with
    | control => exact hcontrol rfl
    | _ => exact h.control_eq
  rxPattern_eq := by
    cases r with
    | rxPattern => exact hrx rfl
    | _ => exact h.rxPattern_eq
  rxPatterns := h.rxPatterns
  mask_eq := h.mask_eq
  led := h.led.imp fun _ ht => ⟨ht.tracks, ht.source, ht.alongside⟩
  rising := h.rising

theorem start {p : BridgeParams} (hmask : p.loopbackMask = 0xffffffff) {value : UInt32}
    (hvalue : (ControlReg.ofBits value).loopback = true) :
    ((ofParams p).writeRegister .control value).Unchecked where
  control_eq := hvalue
  rxPattern_eq := rfl
  rxPatterns := Chain.Holds.new (P := fun c : PatternControl => c.enable = false) rfl p.syncStages
  mask_eq := hmask
  led := (InLoopback.start hvalue).led
  rising := (Chain.Follows.new p.syncStages false).mono (Bool.false_le true)

/-- Up to a cycle without loopback there was none. -/
theorem output_eq_false (h : b.Unchecked) (hloop : b.linkControls.loopback = false) :
    b.crossings.loopback.output = false := by
  have hle := h.rising.output_le_tick
  have hnow : b.crossings.loopback.tick.output = false := hloop
  rw [hnow] at hle
  exact le_bot_iff.mp hle

theorem takes_eq_none (h : b.Unchecked) (hloop : b.linkControls.loopback = false) :
    b.takes = none := by
  obtain ⟨t, ht⟩ := h.led
  exact ht.takes_eq_none (h.output_eq_false hloop)

theorem boundary_eq (h : b.Unchecked) (hloop : b.linkControls.loopback = true)
    (received : LinkSample) : b.boundary received = b.sending := by
  have hmasked : b.sending.word.masked b.link.loopbackMask = b.sending.word := by
    have hall : b.sending.word.packed &&& 0xffffffff = b.sending.word.packed := UInt32.and_neg_one
    rw [h.mask_eq, LinkWord.masked, hall, LinkWord.ofPacked_packed]
  unfold boundary Routing.rxSample
  rw [hloop, hmasked]
  rfl

theorem rebuild_eq (h : b.Unchecked) (received : LinkSample) :
    b.link.rebuild b.linkControls (b.boundary received) =
      b.link.rxConverter.tick (b.link.aligner.tick (b.boundary received)).2 :=
  LinkSide.rebuild_of_disabled h.rxPatterns.tick.output _

end Unchecked

/-! ### All that has arrived -/

/-- The link side after some arrivals: the aligner holds the last one, and a half that the receive
converter holds is the last but one. -/
structure Arrived (history : List Arrival) (b : Bridge) : Prop extends b.Unchecked where
  fresh : history = [] → b.link.aligner.last = none
  shown : ∀ before newest, history = before ++ [newest] → newest.Shown b.link
  held : ∀ half, b.link.rxConverter.first = some half →
    ∃ before older newest, history = before ++ [older, newest] ∧ half = older.word ∧
      older.closes = none
  quiet : b.crossings.loopback.output = false →
    b.link.Quiet ∧ ∀ a ∈ history, a = .other default

namespace Arrived

variable {history : List Arrival} {received : LinkSample}

/-- Without loopback neither the transport nor the generator is heard. -/
theorem arrival_of_quiet (h : Arrived history b) (hloop : b.linkControls.loopback = false)
    (hzero : received.word = default) :
    b.boundary received = received ∧ b.arrival received = .other default ∧
      b.link.convert b.generated.isSome b.takes = (b.link.txConverter, none) := by
  have hboundary : b.boundary received = received := by
    unfold boundary Routing.rxSample
    rw [hloop]
    rfl
  have htakes := h.takes_eq_none hloop
  obtain ⟨hquiet, -⟩ := h.quiet (h.output_eq_false hloop)
  cases b.converts with
  | starts w hw => simp [htakes] at hw
  | finishes half _ _ _ hpending => simp [hquiet.pending_eq] at hpending
  | rests _ _ hconverts =>
    refine ⟨hboundary, ?_, hconverts⟩
    unfold arrival converted
    rw [htakes, ← htakes, hconverts, hboundary, hzero, htakes]

theorem shown_arrival (h : b.Unchecked) (hloop : b.linkControls.loopback = true)
    (received : LinkSample) : (b.arrival received).Shown (b.tickLink received).link := by
  have hlast := b.last_tickLink received
  have hboundary := h.boundary_eq hloop received
  have hframe : (b.tickLink received).link.frame = !b.link.frame := rfl
  have hconverter : (b.tickLink received).link.txConverter =
      (b.link.convert b.generated.isSome b.takes).1 := rfl
  rw [hboundary] at hlast
  cases b.converts with
  | starts w htakes hgenerated hfirst hpending hconverts =>
    have hconverted : b.converted = some w.split.1 := by rw [converted, hconverts]
    have harrival : b.arrival received = .first w := by rw [arrival, htakes]
    rw [harrival]
    refine ⟨?_, ?_, ?_⟩
    · rw [hlast, sending_of_converted hconverted, hfirst]
    · rw [hframe, hfirst]
      decide
    · rw [hconverter, hconverts]
  | finishes half htakes hgenerated hsecond hpending hconverts =>
    have hconverted : b.converted = some half := by rw [converted, hconverts]
    have harrival : b.arrival received = .second half := by rw [arrival, htakes, hconverted]
    rw [harrival]
    show (b.tickLink received).link.aligner.last = _
    rw [hlast, sending_of_converted hconverted, Bool.eq_not_of_ne hsecond]
  | rests htakes hwaits hconverts =>
    have hconverted : b.converted = none := by rw [converted, hconverts]
    have harrival : b.arrival received = .other (b.boundary received).word := by
      rw [arrival, htakes, hconverted]
    rw [harrival, hboundary]
    exact ⟨_, hlast, rfl⟩

/-- What the aligner gives out is what arrived last. -/
theorem aligned (h : Arrived history b)
    (hzero : b.linkControls.loopback = false → received.word = default) {s : LinkSample}
    (hs : (b.link.aligner.tick (b.boundary received)).2 = some s) :
    ∃ before newest, history = before ++ [newest] ∧ s.word = newest.word ∧
      (s.isFirst = true → newest.closes = none) ∧ (s.isFirst = false → newest.opens = none) := by
  rcases List.eq_nil_or_concat' history with hnil | ⟨before, newest, hhistory⟩
  · simp [Aligner.tick, h.fresh hnil] at hs
  · obtain ⟨last, hlast, hword, hfirst, hsecond⟩ := (h.shown _ _ hhistory).exists_last
    refine ⟨before, newest, hhistory, ?_⟩
    cases hloop : b.linkControls.loopback with
    | true =>
      have haligned : (b.boundary received).isAligned = true := by
        rw [h.boundary_eq hloop]
        exact beq_self_eq_true _
      rw [Aligner.tick_of_aligned _ haligned, hlast] at hs
      obtain rfl := Option.some.inj hs
      exact ⟨hword, hfirst, hsecond⟩
    | false =>
      obtain ⟨hquiet, hothers⟩ := h.quiet (h.output_eq_false hloop)
      obtain ⟨hboundary, -, -⟩ := h.arrival_of_quiet hloop (hzero hloop)
      obtain rfl : newest = .other default := hothers newest (by simp [hhistory])
      have hout := Aligner.tick_of_zero hquiet.history_eq
        (show (b.boundary received).word = default by rw [hboundary, hzero hloop])
      rw [hs] at hout
      exact ⟨hout, fun _ => rfl, fun _ => rfl⟩

theorem tickLink (h : Arrived history b)
    (hzero : b.linkControls.loopback = false → received.word = default) :
    Arrived (history ++ [b.arrival received]) (b.tickLink received) where
  toUnchecked := h.toUnchecked.tickLink received
  fresh hnil := by simp at hnil
  shown before newest hhistory := by
    obtain ⟨-, rfl⟩ := List.append_singleton_inj.mp hhistory
    cases hloop : b.linkControls.loopback with
    | true => exact shown_arrival h.toUnchecked hloop received
    | false =>
      obtain ⟨hboundary, harrival, -⟩ := h.arrival_of_quiet hloop (hzero hloop)
      rw [harrival]
      refine ⟨received, ?_, hzero hloop⟩
      rw [last_tickLink, hboundary]
  held half hhalf := by
    rw [rxConverter_tickLink, h.rebuild_eq] at hhalf
    unfold RxConverter.tick at hhalf
    cases hs : (b.link.aligner.tick (b.boundary received)).2 with
    | none => simp [hs] at hhalf
    | some s =>
      obtain ⟨before, newest, rfl, hword, hcloses, -⟩ := h.aligned hzero hs
      cases hfirst : s.isFirst with
      | false => simp [hs, hfirst] at hhalf
      | true =>
        simp only [hs, hfirst, if_true, Option.some.injEq] at hhalf
        exact ⟨before, newest, b.arrival received, List.append_assoc .., hhalf.symm.trans hword,
          hcloses hfirst⟩
  quiet hoff := by
    have hloop : b.linkControls.loopback = false := hoff
    obtain ⟨hquiet, hothers⟩ := h.quiet (h.output_eq_false hloop)
    obtain ⟨hboundary, harrival, hconverts⟩ := h.arrival_of_quiet hloop (hzero hloop)
    have hword : (b.boundary received).word = default := by rw [hboundary, hzero hloop]
    refine ⟨⟨?_, ?_, ?_⟩, ?_⟩
    · rw [history_tickLink]
      exact hword
    · unfold LinkSide.firstHalf
      rw [rxConverter_tickLink, h.rebuild_eq]
      exact (RxConverter.tick_of_zero hquiet.firstHalf_eq
        (Aligner.tick_of_zero hquiet.history_eq hword)).1
    · rw [txConverter_tickLink, hconverts]
      exact hquiet.pending_eq
    · intro a ha
      rcases List.mem_append.mp ha with hold | hnew
      · exact hothers a hold
      · rw [List.mem_singleton.mp hnew, harrival]

/-- The control side does not touch what has arrived. -/
theorem congr {c : Bridge} (h : Arrived history b) (hc : c.Unchecked) (hlink : c.link = b.link)
    (houtput : c.crossings.loopback.output = false → b.crossings.loopback.output = false) :
    Arrived history c where
  toUnchecked := hc
  fresh := hlink ▸ h.fresh
  shown := hlink ▸ h.shown
  held := hlink ▸ h.held
  quiet hoff := hlink ▸ h.quiet (houtput hoff)

theorem tickControl (h : Arrived history b) (t : Transport) :
    Arrived history (b.tickControl t).1 := by
  refine h.congr (h.toUnchecked.tickControl t) rfl fun hoff => ?_
  have hle := h.rising.output_le_drive
  rw [loopback_tickControl, h.control_eq] at hoff
  rw [hoff] at hle
  exact le_bot_iff.mp hle

/-- The receive converter joins the last two arrivals; the older one is no late half, and the newer
one does not begin a word. -/
theorem rebuilt_eq (h : Arrived history b)
    (hzero : b.linkControls.loopback = false → received.word = default) {x : SampleWord}
    (hx : b.rebuilt received = some x) :
    ∃ before older newest, history = before ++ [older, newest] ∧
      x = .join older.word newest.word ∧ older.closes = none ∧ newest.opens = none := by
  unfold rebuilt at hx
  rw [h.rebuild_eq] at hx
  unfold RxConverter.tick at hx
  cases hs : (b.link.aligner.tick (b.boundary received)).2 with
  | none => simp [hs] at hx
  | some s =>
    obtain ⟨front, last, hhistory, hword, -, hopens⟩ := h.aligned hzero hs
    cases hfirst : s.isFirst with
    | true => simp [hs, hfirst] at hx
    | false =>
      cases hheld : b.link.rxConverter.first with
      | none => simp [hs, hfirst, hheld] at hx
      | some half =>
        simp only [hs, hfirst, hheld, Bool.false_eq_true, if_false, Option.map_some,
          Option.some.injEq] at hx
        obtain ⟨before, older, newest, hsplit, hhalf, hcloses⟩ := h.held half hheld
        have hsame : newest = last := by
          have hends := congrArg List.getLast? (hsplit.symm.trans hhistory)
          simpa using hends
        subst hsame
        exact ⟨before, older, newest, hsplit, by rw [← hx, hhalf, hword], hcloses, hopens hfirst⟩

end Arrived
end Bridge
end LinkBridge
