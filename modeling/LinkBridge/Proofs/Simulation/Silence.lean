import LinkBridge.Proofs.Bridge.Loopback
import LinkBridge.Proofs.Simulation.Operations
import LinkBridge.Proofs.Transceiver

/-!
Silence before loopback.

The loopback bit reaches the link side some link cycles late, and until then the receive path takes
what the transceiver drives.  Nothing but zeros is on the pads in that time.  A transceiver in
loopback that latches and sends inside both eyes has nothing but zeros to give back.
-/

namespace LinkBridge

open Crossing

/-! ### Zeros through the transceiver -/

namespace Transceiver

variable {x : Transceiver} {pins : Pins} {tx latched : LinkSample} {txTap rxTap : DelayTap}

/-- A transceiver in loopback with nothing but zeros on its way. -/
structure Blank (x : Transceiver) : Prop where
  mode_eq : x.params.mode = .loopback
  line_eq : ∀ sample ∈ x.line, sample.word = default
  previous_eq : x.previous.word = default

theorem blank_new {p : TransceiverParams} (h : p.mode = .loopback) : (new p).Blank where
  mode_eq := h
  line_eq := by
    intro sample hsample
    rw [List.eq_of_mem_replicate hsample]
    rfl
  previous_eq := rfl

theorem latch_of_zero (htx : tx.word = default) (heye : x.params.txEye.contains txTap = true)
    (pins : Pins) :
    (x.latch pins tx txTap).1 = x ∧ (x.latch pins tx txTap).2.word = default := by
  cases henable : x.params.polarity.txEnable.asserted pins.txEnable with
  | true =>
    rw [latch_of_eye henable heye]
    refine ⟨rfl, ?_⟩
    show tx.word.masked nativeMask = default
    rw [htx]
    exact LinkWord.masked_default _
  | false =>
    unfold latch
    rw [henable]
    exact ⟨rfl, rfl⟩

theorem word_drive (hprevious : x.previous.word = default) {sample : LinkSample}
    (hsample : sample.word = default) (pins : Pins) :
    (x.drive pins sample).1.previous.word = default ∧
      (x.drive pins sample).2.word = default := by
  unfold drive
  have hdriven : (if x.params.polarity.rxEnable.asserted pins.rxEnable then sample
      else default).word = default := by
    split
    · exact hsample
    · rfl
  generalize (if x.params.polarity.rxEnable.asserted pins.rxEnable then sample
    else default) = driven at hdriven
  refine ⟨hdriven, ?_⟩
  show (if x.params.phaseInverted then x.previous.late driven else driven).word = default
  split
  · simp only [LinkSample.late, hprevious, hdriven]
    rfl
  · exact hdriven

/-- Zeros in, zeros out. -/
theorem Blank.tick (h : x.Blank) (htx : tx.word = default)
    (htxEye : x.params.txEye.contains txTap = true)
    (hrxEye : x.params.rxEye.contains rxTap = true) (pins : Pins) :
    (x.tick pins tx txTap rxTap).1.Blank ∧ (x.tick pins tx txTap rxTap).2.word = default := by
  obtain ⟨hsame, hlatched⟩ := latch_of_zero htx htxEye pins
  obtain ⟨oldest, line, hline⟩ := exists_oldest x.line (x.latch pins tx txTap).2
  have hzero : ∀ sample ∈ oldest :: line, sample.word = default := by
    intro sample hsample
    rw [← hline] at hsample
    rcases List.mem_append.mp hsample with hheld | hnew
    · exact h.line_eq sample hheld
    · rw [List.mem_singleton.mp hnew]
      exact hlatched
  have hsource := source_loopback h.mode_eq hline
  obtain ⟨hprevious, hout⟩ := word_drive (x := { x with line }) h.previous_eq
    (hzero oldest List.mem_cons_self) pins
  unfold Transceiver.tick
  simp only [hsame, hsource]
  have hcapture : capture (drive { x with line } pins oldest).1
      (drive { x with line } pins oldest).2 rxTap = drive { x with line } pins oldest := by
    unfold capture
    exact if_pos hrxEye
  rw [hcapture]
  exact ⟨⟨h.mode_eq, fun sample hs => hzero sample (List.mem_cons_of_mem _ hs), hprevious⟩, hout⟩

end Transceiver

/-! ### Zeros on the pads -/

namespace Bridge

variable {b : Bridge} {mask : UInt32}

/-- Without loopback on the link side, the pads carry no word. -/
theorem InLoopback.sending_eq (h : InLoopback mask b)
    (hoff : b.crossings.loopback.output = false) : b.sending.word = default := by
  obtain ⟨t, ht⟩ := h.led
  have hconverted : b.converted = none := by
    rw [h.unpatterned.convert_eq, ht.takes_eq_none hoff]
    by_cases hframe : b.link.frame = frameFirst
    · rw [LinkSide.convert_first hframe (h.quiet hoff).pending_eq]
      rfl
    · rw [LinkSide.convert_second hframe]
      exact (h.quiet hoff).pending_eq
  unfold sending Routing.txWord
  rw [h.unpatterned.generated_eq, hconverted]
  rfl

theorem InLoopback.output_eq_false (h : InLoopback mask b)
    (hoff : b.linkControls.loopback = false) : b.crossings.loopback.output = false := by
  have hle := h.rising.output_le_tick
  have hnext : b.crossings.loopback.tick.output = false := hoff
  rw [hnext] at hle
  exact le_bot_iff.mp hle

end Bridge

/-! ### Silent sessions -/

namespace Simulation

variable {s u : Simulation} {p : SimulationParams} {mask : UInt32}

/-- In the link cycles before the loopback bit nothing but zeros is received. -/
def Silent (s : Simulation) (actions : List Action) : Prop :=
  ∀ u ∈ s.cycles actions, u.bridge.linkControls.loopback = false → u.exchange.2.word = default

instance (s : Simulation) (actions : List Action) : Decidable (s.Silent actions) :=
  inferInstanceAs (Decidable (∀ u ∈ s.cycles actions, _ → _))

/-- Whatever is written leaves the taps, the loopback bit and both patterns alone. -/
def Action.KeepsSilence : Action → Prop
  | .write address value =>
    address ≠ Register.delay.address ∧
      (address = Register.control.address → (ControlReg.ofBits value).loopback = true) ∧
      (address = Register.txPattern.address → (PatternControl.ofBits value).enable = false) ∧
      (address = Register.rxPattern.address → (PatternControl.ofBits value).enable = false)
  | _ => True

/-- Both taps lie in the eyes of a transceiver in loopback, and up to the loopback bit there are
zeros everywhere. -/
structure Hushed (mask : UInt32) (p : TransceiverParams) (u : Simulation) : Prop where
  bridge : u.bridge.InLoopback mask
  params_eq : u.transceiver.params = p
  txEye : p.txEye.contains u.bridge.taps.1 = true
  rxEye : p.rxEye.contains u.bridge.taps.2 = true
  zero : u.bridge.crossings.loopback.output = false →
    u.bridge.txPads.word = default ∧ u.transceiver.Blank

namespace Hushed

variable {x : TransceiverParams}

theorem exchange_eq (h : Hushed mask x u) (hoff : u.bridge.linkControls.loopback = false) :
    u.exchange.1.Blank ∧ u.exchange.2.word = default := by
  obtain ⟨hpads, hblank⟩ := h.zero (h.bridge.output_eq_false hoff)
  refine hblank.tick hpads ?_ ?_ _
  · rw [h.params_eq]
    exact h.txEye
  · rw [h.params_eq]
    exact h.rxEye

theorem step (h : Hushed mask x u) : Hushed mask x u.step := by
  cases hdue : u.schedule.due with
  | control =>
    obtain ⟨r, hr⟩ := step_control hdue
    rw [hr]
    refine ⟨h.bridge.tickControl u.transport, h.params_eq, h.txEye, h.rxEye, fun hoff => ?_⟩
    have hle := h.bridge.rising.output_le_drive
    rw [Bridge.loopback_tickControl, h.bridge.control_eq] at hoff
    rw [hoff] at hle
    exact h.zero (le_bot_iff.mp hle)
  | link =>
    obtain ⟨r, hr⟩ := step_link hdue
    rw [hr]
    cases u.runsLink with
    | false => exact ⟨h.bridge, h.params_eq, h.txEye, h.rxEye, h.zero⟩
    | true =>
      refine ⟨h.bridge.tickLink fun hoff => (h.exchange_eq hoff).2, ?_, h.txEye, h.rxEye,
        fun hoff => ?_⟩
      · exact (u.transceiver.tick_keeps _ _ _ _).1.trans h.params_eq
      · have hcontrols : u.bridge.linkControls.loopback = false := hoff
        exact ⟨h.bridge.sending_eq (h.bridge.output_eq_false hcontrols),
          (h.exchange_eq hcontrols).1⟩

theorem conclude (h : Hushed mask x u) (start : Time) {a : Action} (ha : a.KeepsSilence) :
    Hushed mask x (u.conclude start a) := by
  obtain ⟨-, hcrossings, htransceiver, -⟩ := u.conclude_keeps start a
  rcases u.bridge_conclude start a with hsame | ⟨r, value, rfl, hwrite⟩
  · refine ⟨?_, ?_, ?_, ?_, ?_⟩
    · rw [hsame]
      exact h.bridge
    · rw [htransceiver]
      exact h.params_eq
    · rw [hsame]
      exact h.txEye
    · rw [hsame]
      exact h.rxEye
    · rw [hsame, htransceiver]
      exact h.zero
  · obtain ⟨hdelay, hcontrol, htx, hrx⟩ := ha
    have htaps : (u.bridge.writeRegister r value).taps = u.bridge.taps := by
      cases r with
      | delay => exact absurd rfl hdelay
      | _ => rfl
    refine ⟨?_, ?_, ?_, ?_, ?_⟩
    · rw [hwrite]
      refine h.bridge.writeRegister ?_ ?_ ?_
      · exact fun hr => hcontrol (congrArg _ hr)
      · exact fun hr => htx (congrArg _ hr)
      · exact fun hr => hrx (congrArg _ hr)
    · rw [htransceiver]
      exact h.params_eq
    · rw [hwrite, htaps]
      exact h.txEye
    · rw [hwrite, htaps]
      exact h.rxEye
    · rw [hwrite, htransceiver]
      exact h.zero

end Hushed

theorem hushed_start {t : Transport} (hnew : Simulation.new p t = .ok s)
    (hmode : p.transceiver.mode = .loopback)
    (htx : p.transceiver.txEye.contains p.bridge.txDelay = true)
    (hrx : p.transceiver.rxEye.contains p.bridge.rxDelay = true) {value : UInt32}
    (hvalue : (ControlReg.ofBits value).loopback = true) :
    Hushed p.bridge.loopbackMask p.transceiver (s.writeRegister .control value) := by
  obtain ⟨controlPeriod, linkPeriod, -, -, -, rfl⟩ := eq_of_new hnew
  exact ⟨.start hvalue, rfl, htx, hrx, fun _ => ⟨rfl, Transceiver.blank_new hmode⟩⟩

theorem silent_of_hushed {x : TransceiverParams} (h : Hushed mask x s) {actions : List Action}
    (hactions : ∀ a ∈ actions, a.KeepsSilence) : s.Silent actions := by
  obtain ⟨hall, -⟩ := forall_timeline (P := Hushed mask x) (K := Action.KeepsSilence)
    (fun _ hu => hu.step) (fun _ start _ hu ha => hu.conclude start ha) h hactions
  intro u hu
  rw [cycles_eq] at hu
  exact fun hoff => ((hall u (List.mem_of_mem_filter hu)).exchange_eq hoff).2

end Simulation
end LinkBridge
