import LinkBridge.Proofs.Sample.Aligner
import LinkBridge.Transceiver

/-!
A link cycle of the transceiver.

A cycle latches a sample, sends the oldest one held or the next of the ramp, and captures it at the
bridge.  What the bridge takes inside the receive eye is what was sent in this cycle and in the one
before, in time or half a cycle late.
-/

namespace LinkBridge.Transceiver

open LinkSample

variable {x y z : Transceiver} {pins : Pins} {tx latched sample : LinkSample}
  {txTap rxTap : DelayTap}

/-! ### What every cycle keeps -/

theorem latch_keeps (x : Transceiver) (pins : Pins) (tx : LinkSample) (tap : DelayTap) :
    (x.latch pins tx tap).1.params = x.params ∧ (x.latch pins tx tap).1.line = x.line := by
  unfold latch
  split
  · split <;> exact ⟨rfl, rfl⟩
  · exact ⟨rfl, rfl⟩

/-- A line with a sample latched into it has an oldest sample. -/
theorem exists_oldest (line : List LinkSample) (latched : LinkSample) :
    ∃ sample rest, line ++ [latched] = sample :: rest :=
  List.exists_cons_of_ne_nil (by simp)

theorem source_loopback (hmode : x.params.mode = .loopback) {line : List LinkSample}
    (hline : x.line ++ [latched] = sample :: line) :
    x.source latched = ({ x with line }, sample) := by
  unfold source
  rw [hmode]
  simp only [hline]

theorem source_ramp (hmode : x.params.mode = .ramp) (latched : LinkSample) :
    x.source latched =
      ({ x with ramp := (x.ramp + 1) &&& 0x0fff, rampFrame := !x.rampFrame },
        .framed ⟨x.ramp, x.ramp⟩ x.rampFrame) := by
  unfold source
  rw [hmode]

theorem source_keeps (x : Transceiver) (latched : LinkSample) :
    (x.source latched).1.params = x.params ∧
      (x.source latched).1.line.length = x.line.length := by
  cases hmode : x.params.mode with
  | ramp =>
    rw [source_ramp hmode]
    exact ⟨rfl, rfl⟩
  | loopback =>
    obtain ⟨sample, line, hline⟩ := exists_oldest x.line latched
    have hlength := congrArg List.length hline
    rw [source_loopback hmode hline]
    rw [List.length_append, List.length_cons] at hlength
    exact ⟨rfl, (Nat.succ.inj hlength).symm⟩

theorem capture_keeps (x : Transceiver) (out : LinkSample) (tap : DelayTap) :
    (x.capture out tap).1.params = x.params ∧ (x.capture out tap).1.line = x.line := by
  unfold capture
  split <;> exact ⟨rfl, rfl⟩

theorem tick_keeps (x : Transceiver) (pins : Pins) (tx : LinkSample) (txTap rxTap : DelayTap) :
    (x.tick pins tx txTap rxTap).1.params = x.params ∧
      (x.tick pins tx txTap rxTap).1.line.length = x.line.length := by
  have hlatched := x.latch_keeps pins tx txTap
  cases hlatch : x.latch pins tx txTap with
  | mk y latched =>
    have hsent := y.source_keeps latched
    cases hsource : y.source latched with
    | mk z sample =>
      have hcaptured := capture_keeps (z.drive pins sample).1 (z.drive pins sample).2 rxTap
      rw [hlatch] at hlatched
      rw [hsource] at hsent
      unfold tick
      rw [hlatch]
      simp only [hsource]
      refine ⟨hcaptured.1.trans (hsent.1.trans hlatched.1), ?_⟩
      rw [hcaptured.2, ← hlatched.2]
      exact hsent.2

/-! ### Enabled and inside the eyes -/

theorem latch_of_enabled (x : Transceiver) (tx : LinkSample) (txTap : DelayTap)
    (h : x.params.polarity.txEnable.asserted pins.txEnable = true) :
    ∃ random word, x.latch pins tx txTap = ({ x with random }, { tx with word }) := by
  unfold latch
  rw [if_pos h]
  split
  · exact ⟨x.random, _, rfl⟩
  · exact ⟨_, _, rfl⟩

theorem latch_of_eye (h : x.params.polarity.txEnable.asserted pins.txEnable = true)
    (heye : x.params.txEye.contains txTap = true) :
    x.latch pins tx txTap = (x, { tx with word := tx.word.masked nativeMask }) := by
  unfold latch
  rw [if_pos h, if_pos heye]

theorem tick_of_eye (hlatch : x.latch pins tx txTap = (y, latched))
    (hsource : y.source latched = (z, sample))
    (hrx : z.params.polarity.rxEnable.asserted pins.rxEnable = true)
    (heye : z.params.rxEye.contains rxTap = true) :
    x.tick pins tx txTap rxTap =
      ({ z with previous := sample }, seen z.params.phaseInverted z.previous sample) := by
  unfold tick
  rw [hlatch]
  simp only [hsource, drive, capture, hrx, heye, if_true]
  rfl

/-! ### The samples held -/

/-- The sample driven last, then those on their way. -/
def held (x : Transceiver) : List LinkSample :=
  match x.params.mode with
  | .loopback => x.previous :: x.line
  | .ramp => [x.previous]

/-- The frame level of the sample that joins in the coming cycle, given the one on the pads. -/
def joining (x : Transceiver) (pads : Bool) : Bool :=
  match x.params.mode with
  | .loopback => pads
  | .ramp => x.rampFrame

theorem held_eq (x : Transceiver) : x.held = x.previous :: x.held.tail := by
  unfold held
  cases x.params.mode <;> rfl

/-- A cycle with framed samples on the pads. -/
theorem tick_of_framed (x : Transceiver) (txTap : DelayTap) {word : LinkWord} {frame : Bool}
    (hpads : tx = .framed word frame)
    (htx : x.params.polarity.txEnable.asserted pins.txEnable = true)
    (hrx : x.params.polarity.rxEnable.asserted pins.rxEnable = true)
    (heye : x.params.rxEye.contains rxTap = true) :
    ∃ w current rest, x.held.tail ++ [.framed w (x.joining frame)] = current :: rest ∧
      (x.tick pins tx txTap rxTap).2 = seen x.params.phaseInverted x.previous current ∧
      (x.tick pins tx txTap rxTap).1.held = current :: rest ∧
      (x.tick pins tx txTap rxTap).1.joining (!frame) = !x.joining frame := by
  obtain ⟨random, w, hlatch⟩ := x.latch_of_enabled tx txTap htx
  cases hmode : x.params.mode with
  | loopback =>
    obtain ⟨current, line, hline⟩ := exists_oldest x.line { tx with word := w }
    have hsource : source { x with random } { tx with word := w } =
        ({ x with random, line }, current) := source_loopback (x := { x with random }) hmode hline
    rw [tick_of_eye hlatch hsource hrx heye]
    subst hpads
    refine ⟨w, current, line, ?_, rfl, ?_, ?_⟩
    · simp only [held, joining, hmode]
      exact hline
    · simp only [held, hmode]
    · simp only [joining, hmode]
  | ramp =>
    have hsource := source_ramp (x := { x with random }) hmode { tx with word := w }
    rw [tick_of_eye hlatch hsource hrx heye]
    refine ⟨⟨x.ramp, x.ramp⟩, .framed ⟨x.ramp, x.ramp⟩ x.rampFrame, [], ?_, rfl, ?_, ?_⟩
    · simp only [held, joining, hmode]
      rfl
    · simp only [held, hmode]
    · simp only [joining, hmode]

/-! ### The phase -/

def withPhase (x : Transceiver) (late : Bool) : Transceiver :=
  { x with params := { x.params with phaseInverted := late } }

theorem latch_withPhase (x : Transceiver) (late : Bool) (pins : Pins) (tx : LinkSample)
    (tap : DelayTap) :
    (x.withPhase late).latch pins tx tap =
      ((x.latch pins tx tap).1.withPhase late, (x.latch pins tx tap).2) := by
  unfold latch
  cases htx : x.params.polarity.txEnable.asserted pins.txEnable with
  | false => simp [withPhase, htx]
  | true =>
    cases heye : x.params.txEye.contains tap <;> simp [withPhase, htx, heye]

theorem source_withPhase (x : Transceiver) (late : Bool) (latched : LinkSample) :
    (x.withPhase late).source latched =
      ((x.source latched).1.withPhase late, (x.source latched).2) := by
  cases hmode : x.params.mode with
  | ramp =>
    rw [source_ramp (x := x) hmode, source_ramp (x := x.withPhase late) hmode]
    rfl
  | loopback =>
    obtain ⟨sample, line, hline⟩ := exists_oldest x.line latched
    rw [source_loopback (x := x) hmode hline, source_loopback (x := x.withPhase late) hmode hline]
    rfl

theorem drive_withPhase (x : Transceiver) (late : Bool) (pins : Pins) (sample : LinkSample) :
    ((x.withPhase late).drive pins sample).1 = (x.drive pins sample).1.withPhase late := rfl

theorem capture_withPhase (x : Transceiver) (late : Bool) (out out' : LinkSample)
    (tap : DelayTap) :
    ((x.withPhase late).capture out' tap).1 = (x.capture out tap).1.withPhase late := by
  unfold capture corrupt
  cases heye : x.params.rxEye.contains tap <;> simp [withPhase, heye]

/-- The phase decides what the bridge takes, and nothing about the state of the transceiver. -/
theorem tick_withPhase (x : Transceiver) (late : Bool) (pins : Pins) (tx : LinkSample)
    (txTap rxTap : DelayTap) :
    ((x.withPhase late).tick pins tx txTap rxTap).1 =
      (x.tick pins tx txTap rxTap).1.withPhase late := by
  unfold tick
  simp only [latch_withPhase, source_withPhase, drive_withPhase]
  exact capture_withPhase _ late _ _ rxTap

end LinkBridge.Transceiver
