import LinkBridge.DelayTap
import LinkBridge.Polarity
import LinkBridge.Random.Stream
import LinkBridge.Sample.Word

/-!
The transceiver on the far side of the link.

It latches the bridge's samples cleanly only while the bridge's clock tap lies in its transmit eye,
and its own samples arrive cleanly only while the bridge's data tap lies in the receive eye; outside
an eye each sample is corrupted.  It carries twelve bits of each field, and its clock stops while it
sees itself reset or powered down.
-/

namespace LinkBridge

/-- What the transceiver sends back: what it was sent, or a ramp of its own. -/
inductive TransceiverMode where
  | loopback
  | ramp
deriving DecidableEq, Repr, Inhabited

def TransceiverMode.name : TransceiverMode → String
  | .loopback => "loopback"
  | .ramp => "ramp"

def TransceiverMode.all : List TransceiverMode := [.loopback, .ramp]

structure TransceiverParams where
  mode : TransceiverMode := .loopback
  txEye : TapWindow := ⟨⟨6⟩, ⟨22⟩⟩
  rxEye : TapWindow := ⟨⟨9⟩, ⟨25⟩⟩
  latency : Nat := 2
  phaseInverted : Bool := false
  seed : UInt64 := 1
  polarity : PinPolarity := {}
deriving DecidableEq, Repr

/-- `line` holds the samples on their way back, the oldest first. -/
structure Transceiver where
  params : TransceiverParams
  random : Random.Stream
  line : List LinkSample
  ramp : UInt16 := 0
  rampFrame : Bool := true
  previous : LinkSample := default
deriving DecidableEq, Repr

namespace Transceiver

def new (params : TransceiverParams) : Transceiver :=
  { params, random := .ofSeed params.seed, line := List.replicate params.latency default }

def clockRunning (x : Transceiver) (pins : Pins) : Bool :=
  !x.params.polarity.reset.asserted pins.reset &&
    !x.params.polarity.powerDown.asserted pins.powerDown

/-- Flips random bits of the twelve that are carried, and always the lowest. -/
def corrupt (random : Random.Stream) (w : LinkWord) : Random.Stream × LinkWord :=
  let (random, r) := random.next
  (random, .ofPacked (w.packed ^^^ ((r &&& nativeMask) ||| 1)))

def latch (x : Transceiver) (pins : Pins) (tx : LinkSample) (tap : DelayTap) :
    Transceiver × LinkSample :=
  if x.params.polarity.txEnable.asserted pins.txEnable then
    let word := tx.word.masked nativeMask
    if x.params.txEye.contains tap then (x, { tx with word })
    else
      let (random, word) := corrupt x.random word
      ({ x with random }, { tx with word })
  else (x, default)

/-- The sample that the chip has to send this cycle. -/
def source (x : Transceiver) (latched : LinkSample) : Transceiver × LinkSample :=
  match x.params.mode with
  | .loopback =>
    match x.line ++ [latched] with
    | oldest :: line => ({ x with line }, oldest)
    | [] => (x, latched)
  | .ramp =>
    ({ x with ramp := (x.ramp + 1) &&& 0x0fff, rampFrame := !x.rampFrame },
      .framed ⟨x.ramp, x.ramp⟩ x.rampFrame)

/-- Drives a sample onto the link, half a cycle late if the phase is inverted. -/
def drive (x : Transceiver) (pins : Pins) (sample : LinkSample) : Transceiver × LinkSample :=
  let driven := if x.params.polarity.rxEnable.asserted pins.rxEnable then sample else default
  let out := if x.params.phaseInverted then x.previous.late driven else driven
  ({ x with previous := driven }, out)

def capture (x : Transceiver) (out : LinkSample) (tap : DelayTap) : Transceiver × LinkSample :=
  if x.params.rxEye.contains tap then (x, out)
  else
    let (random, word) := corrupt x.random out.word
    let (random, frame0) := random.nextBit
    let (random, frame1) := random.nextBit
    ({ x with random }, { word, frame0, frame1 })

/-- One link cycle: the bridge's sample goes in, and the sample that the bridge takes comes out. -/
def tick (x : Transceiver) (pins : Pins) (tx : LinkSample) (txTap rxTap : DelayTap) :
    Transceiver × LinkSample :=
  let (x, latched) := x.latch pins tx txTap
  let (x, sample) := x.source latched
  let (x, out) := x.drive pins sample
  x.capture out rxTap

end Transceiver
end LinkBridge
