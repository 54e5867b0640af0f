import LinkBridge.Proofs.Bridge.Arrival
import Mathlib.Data.List.Chain

/-!
When words are torn.

While nothing interrupts the converter, a half that it holds is always the other half of what
arrived last, so the halves of a word arrive in two cycles that follow each other (`Resumed`).  The
first time that the generator takes the link from a converter with a half in hand, the word that is
completed next has one half of a word of the transport and one link word of the generator (`Torn`).
It is completed in the next link cycle, so the words of a run do not show what the generator does in
the last one (`UninterruptedBeforeLast`).
-/

namespace LinkBridge

open Crossing

namespace Bridge

variable {b : Bridge} {history : List Arrival}

/-- All that arrived so far, each first half with its second half right behind it. -/
structure Resumed (history : List Arrival) (b : Bridge) : Prop extends Arrived history b where
  pending_eq : b.link.txConverter.pending = history.getLast?.bind Arrival.opens
  chain : history.IsChain fun older newer => older.opens = newer.closes

/-- What arrived last is the first half of a word, and something else came behind it. -/
structure Torn (history : List Arrival) (b : Bridge) : Prop extends Arrived history b where
  loopback_eq : b.crossings.loopback.output = true
  cut : ∃ before w g half, history = before ++ [.first w, .other g] ∧
    b.link.rxConverter.first = some half ∧
    b.link.aligner.last = some (.framed g (!frameFirst))

namespace Resumed

/-- A held half is that of the word that arrived last, and its slot comes next. -/
theorem first_of_pending (h : Resumed history b) {half : LinkWord}
    (hpending : b.link.txConverter.pending = some half) :
    ∃ before w, history = before ++ [.first w] ∧ half = w.split.2 ∧
      b.link.frame ≠ frameFirst ∧
      b.link.aligner.last = some (.framed w.split.1 frameFirst) := by
  have hopens := h.pending_eq.symm.trans hpending
  rcases List.eq_nil_or_concat' history with hnil | ⟨before, newest, hhistory⟩
  · simp [hnil] at hopens
  · rw [hhistory, List.getLast?_concat] at hopens
    cases newest with
    | first w =>
      obtain ⟨hlast, hframe, -⟩ := h.shown _ _ hhistory
      exact ⟨before, w, hhistory, (Option.some.inj hopens).symm, hframe, hlast⟩
    | second v => simp [Arrival.opens] at hopens
    | other v => simp [Arrival.opens] at hopens

theorem chain_concat (h : Resumed history b) {a : Arrival}
    (ha : b.link.txConverter.pending = a.closes) :
    (history ++ [a]).IsChain fun older newer => older.opens = newer.closes := by
  rw [List.isChain_append]
  refine ⟨h.chain, List.isChain_singleton a, fun older holder newer hnewer => ?_⟩
  have hopens := h.pending_eq
  rw [Option.mem_def.mp holder] at hopens
  obtain rfl : a = newer := by simpa using hnewer
  exact hopens.symm.trans ha

/-- What arrives in a cycle without interruption closes the held half, and leaves the half that it
opens in the converter. -/
theorem pending_tickLink (h : Resumed history b) (received : LinkSample)
    (hfree : b.generated.isSome → b.link.txConverter.pending = none) :
    b.link.txConverter.pending = (b.arrival received).closes ∧
      (b.tickLink received).link.txConverter.pending = (b.arrival received).opens := by
  rw [txConverter_tickLink]
  cases b.converts with
  | starts w htakes hgenerated hframe hnone hconverts =>
    rw [hconverts, hnone, arrival, htakes]
    exact ⟨rfl, rfl⟩
  | finishes half htakes hgenerated hframe hsome hconverts =>
    have hconverted : b.converted = some half := by rw [converted, hconverts]
    rw [hconverts, hsome, arrival, htakes, hconverted]
    exact ⟨rfl, rfl⟩
  | rests htakes hwaits hconverts =>
    have hconverted : b.converted = none := by rw [converted, hconverts]
    have hnone : b.link.txConverter.pending = none := by
      by_contra hsome
      obtain ⟨half, hhalf⟩ := Option.ne_none_iff_exists'.mp hsome
      obtain ⟨-, -, -, -, hframe, -⟩ := h.first_of_pending hhalf
      rcases hwaits half hhalf with hgenerated | hfirst
      · exact hsome (hfree hgenerated)
      · exact hframe hfirst
    rw [hconverts, hnone, arrival, htakes, hconverted]
    exact ⟨rfl, rfl⟩

theorem tickLink (h : Resumed history b) {received : LinkSample}
    (hzero : b.linkControls.loopback = false → received.word = default)
    (hfree : b.generated.isSome → b.link.txConverter.pending = none) :
    Resumed (history ++ [b.arrival received]) (b.tickLink received) := by
  obtain ⟨hcloses, hopens⟩ := h.pending_tickLink received hfree
  refine ⟨h.toArrived.tickLink hzero, ?_, h.chain_concat hcloses⟩
  rw [hopens, List.getLast?_concat]
  rfl

/-- Words produced without interruption are whole. -/
theorem whole (h : Resumed history b) {received : LinkSample}
    (hzero : b.linkControls.loopback = false → received.word = default) {words : List SampleWord}
    (hwords : ∀ w, .first w ∈ history → w ∈ words) {x : SampleWord}
    (hx : b.rebuilt received = some x) :
    ∃ before older newest, history = before ++ [older, newest] ∧
      x = .join older.word newest.word ∧ older.Whole words newest := by
  obtain ⟨before, older, newest, hhistory, hjoin, hcloses, hopens⟩ :=
    h.toArrived.rebuilt_eq hzero hx
  refine ⟨before, older, newest, hhistory, hjoin, ?_⟩
  have hchain := h.chain
  rw [hhistory, List.isChain_append] at hchain
  have hmeets : older.opens = newest.closes := by simpa using hchain.2.1
  refine Arrival.whole_of_opens hmeets hcloses hopens fun w hw => ?_
  exact hwords w (by simp [hhistory, hw])

/-- The generator takes the link from a converter that holds a half. -/
theorem torn_tickLink (h : Resumed history b) {received : LinkSample}
    (hzero : b.linkControls.loopback = false → received.word = default)
    (hgenerated : b.generated.isSome) (hpending : b.link.txConverter.pending ≠ none) :
    Torn (history ++ [b.arrival received]) (b.tickLink received) := by
  obtain ⟨half, hhalf⟩ := Option.ne_none_iff_exists'.mp hpending
  obtain ⟨before, w, hhistory, -, hframe, hlast⟩ := h.first_of_pending hhalf
  have hloop : b.linkControls.loopback = true := by
    by_contra hoff
    obtain ⟨-, hothers⟩ := h.quiet (h.output_eq_false (Bool.eq_false_iff.mpr hoff))
    exact nomatch hothers (.first w) (by simp [hhistory])
  obtain ⟨g, hg⟩ := Option.isSome_iff_exists.mp hgenerated
  have hsending : b.sending = .framed g (!frameFirst) := by
    unfold sending Routing.txWord
    rw [hg, Bool.eq_not_of_ne hframe]
    rfl
  have hboundary := (h.boundary_eq hloop received).trans hsending
  have harrival : b.arrival received = .other g := by
    have htakes : b.takes = none := b.link.takes_second hframe _ _
    have hconverted : b.converted = none := by
      unfold converted LinkSide.convert
      rw [hg]
      rfl
    rw [arrival, htakes, hconverted, hboundary]
    rfl
  refine ⟨h.toArrived.tickLink hzero, hloop, before, w, g, w.split.1, ?_, ?_, ?_⟩
  · rw [hhistory, harrival]
    exact List.append_assoc ..
  · rw [rxConverter_tickLink, h.rebuild_eq, hboundary,
      Aligner.tick_of_aligned _ (beq_self_eq_true _), hlast]
    rfl
  · rw [last_tickLink, hboundary]

end Resumed

namespace Torn

theorem linkControls_eq (h : Torn history b) : b.linkControls.loopback = true := by
  have hle := h.rising.output_le_tick
  rw [h.loopback_eq] at hle
  exact top_le_iff.mp hle

theorem rebuilt_isSome (h : Torn history b) (received : LinkSample) :
    (b.rebuilt received).isSome := by
  obtain ⟨-, -, g, half, -, hfirst, hlast⟩ := h.cut
  have haligned : (b.boundary received).isAligned = true := by
    rw [h.boundary_eq h.linkControls_eq]
    exact beq_self_eq_true _
  unfold rebuilt
  rw [h.rebuild_eq, Aligner.tick_of_aligned _ haligned, hlast]
  unfold RxConverter.tick
  rw [hfirst]
  rfl

end Torn
end Bridge

namespace Session

variable {s : Session} {history : List Arrival}

/-- What each link cycle brings to the receive path. -/
def arrivals (s : Session) : Operation → List Arrival
  | .link received => [s.bridge.arrival received]
  | _ => []

/-- Loopback stays set and the checker off, and until the bit has reached the link side nothing but
zeros is received. -/
def KeepsUnchecked (s : Session) : Operation → Prop
  | .link received => s.bridge.linkControls.loopback = false → received.word = default
  | .write address value =>
    (address = Register.control.address → (ControlReg.ofBits value).loopback = true) ∧
      (address = Register.rxPattern.address → (PatternControl.ofBits value).enable = false)
  | _ => True

instance (s : Session) : DecidablePred s.KeepsUnchecked
  | .link _ => inferInstanceAs (Decidable (_ → _))
  | .write _ _ => inferInstanceAs (Decidable (_ ∧ _))
  | .control | .read _ | .send _ | .take => inferInstanceAs (Decidable True)

/-- The generator does not take the link while the converter holds a half. -/
def Uninterrupted (s : Session) : Operation → Prop
  | .link _ => s.bridge.generated.isSome → s.bridge.link.txConverter.pending = none
  | _ => True

instance (s : Session) : DecidablePred s.Uninterrupted
  | .link _ => inferInstanceAs (Decidable (_ → _))
  | .control | .read _ | .write _ _ | .send _ | .take => inferInstanceAs (Decidable True)

/-- In no link cycle before the last one does the generator take the link while the converter holds
a half: nothing interrupts it in front of any link cycle. -/
def UninterruptedBeforeLast (s : Session) (ops : List Operation) : Prop :=
  ∀ earlier received later, ops = earlier ++ .link received :: later →
    Trace.Along step Uninterrupted s earlier

/-- Each word that the receive converter completes joins the last two arrivals, and these are both
halves of one word taken from the transport, or no halves at all. -/
def ProducesWhole (s : Session) (ops : List Operation) : Prop :=
  ∀ earlier received later x, ops = earlier ++ .link received :: later →
    (s.run earlier).bridge.rebuilt received = some x →
      ∃ before older newest, Trace.gather step arrivals s earlier = before ++ [older, newest] ∧
        x = .join older.word newest.word ∧ older.Whole (Trace.gather step taken s earlier) newest

/-! ### Steps -/

theorem unchecked_step (o : Operation) (h : s.bridge.Unchecked) (ho : s.KeepsUnchecked o) :
    (s.step o).bridge.Unchecked := by
  cases o with
  | control => exact h.tickControl s.transport
  | link received => exact h.tickLink received
  | write address value =>
    obtain ⟨hcontrol, hrx⟩ := ho
    rcases s.step_write address value with hstep | ⟨r, rfl, hstep⟩
    · rw [hstep]
      exact h
    · rw [hstep]
      exact h.writeRegister (fun hr => hcontrol (congrArg _ hr)) fun hr => hrx (congrArg _ hr)
  | _ => exact h

/-- What is no link cycle leaves alone what has arrived, and does not take loopback back. -/
theorem arrived_other {o : Operation} (h : s.bridge.Arrived history) (ho : s.KeepsUnchecked o)
    (hother : ∀ received, o ≠ .link received) :
    (s.step o).bridge.Arrived history ∧
      s.bridge.crossings.loopback.output ≤ (s.step o).bridge.crossings.loopback.output := by
  cases o with
  | control =>
    refine ⟨h.tickControl s.transport, ?_⟩
    have hle := h.rising.output_le_drive
    show _ ≤ (s.bridge.tickControl s.transport).1.crossings.loopback.output
    rw [Bridge.loopback_tickControl, h.control_eq]
    exact hle
  | link received => exact absurd rfl (hother received)
  | write address value =>
    have hcrossings := s.crossings_write address value
    refine ⟨h.congr (unchecked_step _ h.toUnchecked ho) (s.link_write address value) ?_, ?_⟩
    · rw [hcrossings]
      exact id
    · rw [hcrossings]
  | _ => exact ⟨h, le_refl _⟩

theorem arrivals_other {o : Operation} (hother : ∀ received, o ≠ .link received) :
    s.arrivals o = [] := by
  cases o with
  | link received => exact absurd rfl (hother received)
  | _ => rfl

theorem resumed_step (o : Operation) (h : s.bridge.Resumed history) (ho : s.KeepsUnchecked o)
    (hfree : s.Uninterrupted o) : (s.step o).bridge.Resumed (history ++ s.arrivals o) := by
  by_cases hlink : ∃ received, o = .link received
  · obtain ⟨received, rfl⟩ := hlink
    exact h.tickLink ho hfree
  · have hother : ∀ received, o ≠ .link received := fun received hr => hlink ⟨received, hr⟩
    rw [arrivals_other hother, List.append_nil]
    refine ⟨(arrived_other h.toArrived ho hother).1, ?_, h.chain⟩
    rw [s.link_step_of_other (Operation.isLink_eq_false hother)]
    exact h.pending_eq

theorem torn_other {o : Operation} (h : s.bridge.Torn history) (ho : s.KeepsUnchecked o)
    (hother : ∀ received, o ≠ .link received) : (s.step o).bridge.Torn history := by
  obtain ⟨harrived, hle⟩ := arrived_other h.toArrived ho hother
  refine ⟨harrived, ?_, ?_⟩
  · rw [h.loopback_eq] at hle
    exact top_le_iff.mp hle
  · rw [s.link_step_of_other (Operation.isLink_eq_false hother)]
    exact h.cut

/-! ### Runs -/

theorem resumed_run (h : s.bridge.Resumed history) {ops : List Operation}
    (hops : Trace.Along step KeepsUnchecked s ops) (hfree : Trace.Along step Uninterrupted s ops) :
    (s.run ops).bridge.Resumed (history ++ Trace.gather step arrivals s ops) := by
  induction ops generalizing s history with
  | nil =>
    rw [Trace.gather, List.append_nil]
    exact h
  | cons o rest ih =>
    rw [Trace.gather, ← List.append_assoc]
    exact ih (resumed_step o h hops.1 hfree.1) hops.2 hfree.2

/-- All words in the queue have been taken from the transport. -/
theorem mem_taken_of_queued (hs : s.Valid) (hqueue : s.bridge.crossings.txFifo.queued = [])
    (ops : List Operation) {w : SampleWord}
    (hw : w ∈ (s.run ops).bridge.crossings.txFifo.queued) :
    w ∈ Trace.gather step taken s ops := by
  have hkeeps : ∀ (seen : List SampleWord) (u : Session) (o : Operation),
      u.Valid ∧ (∀ v ∈ u.bridge.crossings.txFifo.queued, v ∈ seen) →
        (u.step o).Valid ∧ ∀ v ∈ (u.step o).bridge.crossings.txFifo.queued,
          v ∈ seen ++ u.taken o := by
    intro seen u o ⟨hvalid, hseen⟩
    refine ⟨valid_step u o hvalid, fun v hv => ?_⟩
    obtain ⟨t, ht⟩ := hvalid.txFifo
    cases o with
    | control =>
      rw [taken_control, List.mem_append]
      have hqueued : v ∈ (u.bridge.tickControl u.transport).1.crossings.txFifo.queued := hv
      rw [Bridge.txFifo_tickControl, ht.queued_writeTick, List.mem_append] at hqueued
      exact hqueued.imp_left (hseen v)
    | link received =>
      have hqueued := ht.queued_readTick u.bridge.takes.isSome
      refine List.mem_append_left _ (hseen v ?_)
      rw [← hqueued]
      exact List.mem_append_right _ hv
    | write address value =>
      rw [crossings_write] at hv
      exact List.mem_append_left _ (hseen v hv)
    | _ => exact List.mem_append_left _ (hseen v hv)
  have hstart : s.Valid ∧ ∀ v ∈ s.bridge.crossings.txFifo.queued, v ∈ ([] : List SampleWord) :=
    ⟨hs, fun v hv => by simp [hqueue] at hv⟩
  have hrun := Trace.gather_invariant (A := fun _ _ => True)
    (R := fun seen u => u.Valid ∧ ∀ v ∈ u.bridge.crossings.txFifo.queued, v ∈ seen)
    (fun seen u o hu _ => hkeeps seen u o hu) hstart (Trace.along_true s ops)
  exact hrun.2 w hw

theorem mem_taken_of_arrived (hs : s.Valid) (hqueue : s.bridge.crossings.txFifo.queued = [])
    (ops : List Operation) {w : SampleWord}
    (hw : .first w ∈ Trace.gather step arrivals s ops) : w ∈ Trace.gather step taken s ops := by
  obtain ⟨earlier, o, later, rfl, ho⟩ := Trace.exists_of_mem_gather hw
  rw [Trace.gather_append]
  apply List.mem_append_left
  refine mem_taken_of_queued hs hqueue earlier ?_
  cases o with
  | link received =>
    generalize hu : Trace.final step s earlier = u at ho
    have htakes : u.bridge.takes = some w := by
      have harrival : u.bridge.arrival received = .first w := (List.mem_singleton.mp ho).symm
      unfold Bridge.arrival at harrival
      split at harrival
      · next v hv =>
        rw [hv, Arrival.first.inj harrival]
      · exact nomatch harrival
      · exact nomatch harrival
    obtain ⟨t, ht⟩ := (hu ▸ valid_run hs earlier : u.Valid).txFifo
    have hqueued := ht.queued_readTick u.bridge.takes.isSome
    rw [Bridge.taken_takes, htakes] at hqueued
    show w ∈ (Trace.final step s earlier).bridge.crossings.txFifo.queued
    rw [hu, ← hqueued]
    exact List.mem_append_left _ (List.mem_singleton_self w)
  | _ => exact nomatch ho

theorem prefix_of_split {α : Type} {a b later : List α} {i last : α}
    (h : a ++ [last] = b ++ i :: later) : b <+: a := by
  have hsplit : b <+: a ++ [last] := ⟨i :: later, h.symm⟩
  rcases List.prefix_concat_iff.mp hsplit with rfl | hprefix
  · simp at h
  · exact hprefix

/-- In a run that ends in a link cycle, that is all but this cycle. -/
theorem uninterruptedBeforeLast_concat {ops : List Operation} {received : LinkSample} :
    s.UninterruptedBeforeLast (ops ++ [.link received]) ↔ Trace.Along step Uninterrupted s ops := by
  constructor
  · intro h
    exact h ops received [] rfl
  · intro h earlier sample later hsplit
    obtain ⟨rest, rfl⟩ := prefix_of_split hsplit
    exact ((Trace.along_append _ _ _).mp h).1

theorem producesWhole_of_uninterrupted (h : s.bridge.Resumed []) (hs : s.Valid)
    (hqueue : s.bridge.crossings.txFifo.queued = []) {ops : List Operation}
    (hops : Trace.Along step KeepsUnchecked s ops) (hfree : s.UninterruptedBeforeLast ops) :
    s.ProducesWhole ops := by
  intro earlier received later x hsplit hx
  rw [hsplit] at hops
  obtain ⟨hearlier, hnow, -⟩ := (Trace.along_append _ _ _).mp hops
  have hresumed := resumed_run h hearlier (hfree earlier received later hsplit)
  exact hresumed.whole hnow (fun w hw => mem_taken_of_arrived hs hqueue earlier hw) hx

/-- The link cycle after an interruption completes a torn word. -/
theorem exists_of_torn (h : s.bridge.Torn history) {ops : List Operation} {received : LinkSample}
    (hops : Trace.Along step KeepsUnchecked s (ops ++ [.link received])) :
    ∃ earlier sample later x, ops ++ [.link received] = earlier ++ .link sample :: later ∧
      (s.run earlier).bridge.rebuilt sample = some x ∧
      Trace.gather step arrivals s earlier = [] := by
  induction ops generalizing s with
  | nil =>
    obtain ⟨x, hx⟩ := Option.isSome_iff_exists.mp (h.rebuilt_isSome received)
    exact ⟨[], received, [], x, rfl, hx, rfl⟩
  | cons o rest ih =>
    by_cases hlink : ∃ sample, o = .link sample
    · obtain ⟨sample, rfl⟩ := hlink
      obtain ⟨x, hx⟩ := Option.isSome_iff_exists.mp (h.rebuilt_isSome sample)
      exact ⟨[], sample, _, x, rfl, hx, rfl⟩
    · have hother : ∀ sample, o ≠ .link sample := fun sample hr => hlink ⟨sample, hr⟩
      obtain ⟨earlier, sample, later, x, hsplit, hx, hnone⟩ :=
        ih (torn_other h hops.1 hother) hops.2
      refine ⟨o :: earlier, sample, later, x, congrArg (List.cons o) hsplit, hx, ?_⟩
      rw [Trace.gather, hnone, arrivals_other hother]
      rfl

theorem exists_of_interrupted (h : s.bridge.Resumed history) {ops : List Operation}
    {received : LinkSample}
    (hops : Trace.Along step KeepsUnchecked s (ops ++ [.link received]))
    (hfree : ¬Trace.Along step Uninterrupted s ops) :
    ∃ earlier sample later x before w g,
      ops ++ [.link received] = earlier ++ .link sample :: later ∧
      (s.run earlier).bridge.rebuilt sample = some x ∧
      history ++ Trace.gather step arrivals s earlier = before ++ [.first w, .other g] := by
  induction ops generalizing s history with
  | nil => exact absurd trivial hfree
  | cons o rest ih =>
    by_cases hnow : s.Uninterrupted o
    · have hlater : ¬Trace.Along step Uninterrupted (s.step o) rest := fun hl => hfree ⟨hnow, hl⟩
      obtain ⟨earlier, sample, later, x, before, w, g, hsplit, hx, hlast⟩ :=
        ih (resumed_step o h hops.1 hnow) hops.2 hlater
      refine ⟨o :: earlier, sample, later, x, before, w, g, congrArg (List.cons o) hsplit, hx, ?_⟩
      rw [Trace.gather, ← List.append_assoc]
      exact hlast
    · cases o with
      | link sample =>
        obtain ⟨hgenerated, hpending⟩ := Classical.not_imp.mp hnow
        have htorn := h.torn_tickLink hops.1 hgenerated hpending
        obtain ⟨before, w, g, -, hcut, -, -⟩ := htorn.cut
        obtain ⟨earlier, next, later, x, hsplit, hx, hnone⟩ :=
          exists_of_torn (s := s.step (.link sample)) htorn hops.2
        refine ⟨.link sample :: earlier, next, later, x, before, w, g, ?_, hx, ?_⟩
        · rw [List.cons_append, hsplit, List.cons_append]
        · rw [Trace.gather, hnone, List.append_nil]
          exact hcut
      | _ => exact absurd trivial hnow

theorem uninterrupted_of_producesWhole (h : s.bridge.Resumed []) {ops : List Operation}
    (hops : Trace.Along step KeepsUnchecked s ops) (hwhole : s.ProducesWhole ops) :
    s.UninterruptedBeforeLast ops := by
  intro front received behind hsplit
  by_contra hfree
  have happend : ops = (front ++ [.link received]) ++ behind := by
    rw [hsplit, List.append_assoc, List.singleton_append]
  rw [happend] at hops
  obtain ⟨earlier, sample, later, x, before, w, g, hcut, hx, hlast⟩ :=
    exists_of_interrupted h ((Trace.along_append _ _ _).mp hops).1 hfree
  have htorn : ops = earlier ++ .link sample :: (later ++ behind) := by
    rw [happend, hcut, List.append_assoc, List.cons_append]
  obtain ⟨_, older, newest, hhistory, -, hpair⟩ := hwhole earlier sample _ x htorn hx
  rw [List.nil_append, hhistory] at hlast
  exact Arrival.not_whole_of_cut hlast hpair

theorem resumed_start {p : BridgeParams} {b : Bridge} (hb : Bridge.new p = .ok b)
    (hmask : p.loopbackMask = 0xffffffff) (t : Transport) {value : UInt32}
    (hvalue : (ControlReg.ofBits value).loopback = true) :
    (step ⟨b, t⟩ (.write Register.control.address value)).bridge.Resumed [] := by
  obtain rfl := Bridge.eq_ofParams hb
  exact {
    toUnchecked := Bridge.Unchecked.start hmask hvalue
    fresh := fun _ => rfl
    shown := fun before newest hhistory => by simp at hhistory
    held := fun half hhalf => nomatch hhalf
    quiet := fun _ => ⟨⟨rfl, rfl, rfl⟩, fun a ha => nomatch ha⟩
    pending_eq := rfl
    chain := List.isChain_nil }

/-- Whatever the order of cycles, sends and switches of the generator, in loopback all words come
out whole exactly if the generator does not take the link while the converter holds a half, in a
link cycle before the last one. -/
theorem words_whole_iff_uninterrupted {p : BridgeParams} {b : Bridge} (hb : Bridge.new p = .ok b)
    (hmask : p.loopbackMask = 0xffffffff) (t : Transport) {value : UInt32}
    (hvalue : (ControlReg.ofBits value).loopback = true) {ops : List Operation}
    (hops : Trace.Along step KeepsUnchecked
      (step ⟨b, t⟩ (.write Register.control.address value)) ops) :
    let start := step ⟨b, t⟩ (.write Register.control.address value)
    start.ProducesWhole ops ↔ start.UninterruptedBeforeLast ops := by
  intro start
  have hresumed : start.bridge.Resumed [] := resumed_start hb hmask t hvalue
  have hvalid : start.Valid := valid_step _ _ (valid_new hb t)
  have hqueue : start.bridge.crossings.txFifo.queued = [] := by
    obtain rfl := Bridge.eq_ofParams hb
    exact Fifo.queued_new _ _
  exact ⟨uninterrupted_of_producesWhole hresumed hops,
    producesWhole_of_uninterrupted hresumed hvalid hqueue hops⟩

/-- The generator comes between two words, and again between the halves of the second one, but only
in the last cycle: all words are whole so far. -/
theorem words_whole_up_to_interruption :
    let p : BridgeParams := { loopbackMask := 0xffffffff }
    let value : UInt32 := 0x10300
    let t : Transport := { pending := [⟨0xaabbccddeeff0011⟩, ⟨0x1234567812345678⟩] }
    let ops : List Operation :=
      [.control, .link default, .link default, .control, .link default,
        .write Register.txPattern.address 1, .control, .link default, .link default, .link default,
        .write Register.txPattern.address 0, .control, .link default, .link default,
        .write Register.txPattern.address 1, .control, .link default]
    let start := step ⟨Bridge.ofParams p, t⟩ (.write Register.control.address value)
    Bridge.new p = .ok (Bridge.ofParams p) ∧ p.loopbackMask = 0xffffffff ∧
      (ControlReg.ofBits value).loopback = true ∧
      Trace.Along step KeepsUnchecked start (ops ++ [.link default]) ∧
      Trace.gather step arrivals start ops =
        [.other default, .other default, .first ⟨0xaabbccddeeff0011⟩, .second ⟨0xaabb, 0x11⟩,
          .other ⟨0, 0⟩, .other ⟨1, 1⟩, .other ⟨2, 2⟩, .other default,
          .first ⟨0x1234567812345678⟩] ∧
      ¬(start.run ops).Uninterrupted (.link default) ∧
      start.UninterruptedBeforeLast (ops ++ [.link default]) ∧
      start.ProducesWhole (ops ++ [.link default]) := by
  intro p value t ops start
  have hb : Bridge.new { loopbackMask := 0xffffffff } =
      .ok (Bridge.ofParams { loopbackMask := 0xffffffff }) := rfl
  have hvalue : (ControlReg.ofBits value).loopback = true := by decide
  have hops : Trace.Along step KeepsUnchecked start (ops ++ [.link default]) := by decide +kernel
  have harrivals : Trace.gather step arrivals start ops =
      [.other default, .other default, .first ⟨0xaabbccddeeff0011⟩, .second ⟨0xaabb, 0x11⟩,
        .other ⟨0, 0⟩, .other ⟨1, 1⟩, .other ⟨2, 2⟩, .other default,
        .first ⟨0x1234567812345678⟩] := by decide +kernel
  have hlast : ¬(start.run ops).Uninterrupted (.link default) := by decide +kernel
  have hfree : start.UninterruptedBeforeLast (ops ++ [.link default]) :=
    uninterruptedBeforeLast_concat.mpr (by decide +kernel)
  exact ⟨hb, rfl, hvalue, hops, harrivals, hlast, hfree,
    (words_whole_iff_uninterrupted hb rfl t hvalue hops).mpr hfree⟩

/-- The generator comes on between the halves of a word, and the receive converter joins the first
of them with a count. -/
theorem word_torn_by_generator :
    let p : BridgeParams := { loopbackMask := 0xffffffff }
    let value : UInt32 := 0x10300
    let t : Transport := { pending := [⟨0xaabbccddeeff0011⟩] }
    let ops : List Operation :=
      [.control, .link default, .link default, .write Register.txPattern.address 1, .control,
        .link default, .link default]
    let start := step ⟨Bridge.ofParams p, t⟩ (.write Register.control.address value)
    Bridge.new p = .ok (Bridge.ofParams p) ∧ (ControlReg.ofBits value).loopback = true ∧
      Trace.Along step KeepsUnchecked start (ops ++ [.link default]) ∧
      (start.run ops).bridge.rebuilt default = some ⟨0xccddeeff0000⟩ ∧
      ¬start.ProducesWhole (ops ++ [.link default]) := by
  intro p value t ops start
  have hrebuilt : (start.run ops).bridge.rebuilt default = some ⟨0xccddeeff0000⟩ := by
    decide +kernel
  have harrivals : Trace.gather step arrivals start ops =
      [.other default, .other default] ++ [.first ⟨0xaabbccddeeff0011⟩, .other ⟨0, 0⟩] := by
    decide +kernel
  have hb : Bridge.new { loopbackMask := 0xffffffff } =
      .ok (Bridge.ofParams { loopbackMask := 0xffffffff }) := rfl
  refine ⟨hb, by decide, by decide +kernel, hrebuilt, fun hwhole => ?_⟩
  obtain ⟨before, older, newest, hhistory, -, hpair⟩ := hwhole ops default [] _ rfl hrebuilt
  exact Arrival.not_whole_of_cut (hhistory.symm.trans harrivals) hpair

end Session
end LinkBridge
