import LinkBridge.Config.Decode
import LinkBridge.Crossing.Chain
import LinkBridge.Polarity
import LinkBridge.Power
import LinkBridge.Sample.Word
import LinkBridge.Transceiver

/-!
Configurations.

A `LinkConfig` is a configuration as it is written: clocks and times are texts and taps are plain
numbers.  Every section and every field has a default.
-/

namespace LinkBridge

structure ClockSettings where
  control : String := "125MHz"
  link : String := "61.44MHz"
  /-- When the first link edge comes, in nanoseconds. -/
  linkPhase : Float := 0
deriving Repr

/-- What carries the sample words.  The core of PCIe fixes the control clock. -/
inductive TransportKind where
  | pcie
  | none
deriving DecidableEq, Repr

namespace TransportKind

def name : TransportKind → String
  | .pcie => "pcie"
  | .none => "none"

def all : List TransportKind := [.pcie, .none]

end TransportKind

structure BridgeSettings where
  txDelay : Nat := 0
  rxDelay : Nat := 0
  syncStages : Nat := Crossing.minStages
  fifoDepth : Nat := 4
  activityWindow : Nat := 1000000
  loopbackMask : UInt32 := nativeMask
deriving DecidableEq, Repr

structure TransceiverSettings where
  mode : TransceiverMode := .loopback
  txEye : Nat × Nat := (6, 22)
  rxEye : Nat × Nat := (9, 25)
  latency : Nat := 2
  phaseInverted : Bool := false
  seed : UInt64 := 1
  polarity : PinPolarity := {}
deriving DecidableEq, Repr

structure LinkConfig where
  clocks : ClockSettings := {}
  transport : TransportKind := .pcie
  bridge : BridgeSettings := {}
  polarity : PinPolarity := {}
  transceiver : TransceiverSettings := {}
  /-- How long a scan stays at each tap. -/
  dwell : String := "50us"
deriving Repr

namespace Decode

def nat32 : Decoder Nat := natural limit32

def nat64 : Decoder Nat := natural limit64

def polarity : Decoder Polarity := choice Polarity.all Polarity.name

def pinPolarity : Decoder PinPolarity :=
  Field.decoder
    [ .of "reset" polarity fun p x => { p with reset := x },
      .of "power_down" polarity fun p x => { p with powerDown := x },
      .of "tx_enable" polarity fun p x => { p with txEnable := x },
      .of "rx_enable" polarity fun p x => { p with rxEnable := x } ] {}

def clocks : Decoder ClockSettings :=
  Field.decoder
    [ .of "sys" text fun c x => { c with control := x },
      .of "link" text fun c x => { c with link := x },
      .of "link_phase" real fun c x => { c with linkPhase := x } ] {}

def transport : Decoder TransportKind :=
  Field.decoder
    [.of "kind" (choice TransportKind.all TransportKind.name) fun _ x => x] .pcie

def bridge : Decoder BridgeSettings :=
  Field.decoder
    [ .of "tx_delay" nat32 fun b x => { b with txDelay := x },
      .of "rx_delay" nat32 fun b x => { b with rxDelay := x },
      .of "sync_stages" nat64 fun b x => { b with syncStages := x },
      .of "fifo_depth" nat64 fun b x => { b with fifoDepth := x },
      .of "activity_window" nat64 fun b x => { b with activityWindow := x },
      .of "loopback_mask" mask fun b x => { b with loopbackMask := x } ] {}

def transceiver : Decoder TransceiverSettings :=
  Field.decoder
    [ .of "mode" (choice TransceiverMode.all TransceiverMode.name) fun t x => { t with mode := x },
      .of "tx_eye" (pair nat32) fun t x => { t with txEye := x },
      .of "rx_eye" (pair nat32) fun t x => { t with rxEye := x },
      .of "latency" nat64 fun t x => { t with latency := x },
      .of "phase_inverted" flag fun t x => { t with phaseInverted := x },
      .of "seed" nat64 fun t x => { t with seed := UInt64.ofNat x },
      .of "polarity" pinPolarity fun t x => { t with polarity := x } ] {}

def scan : Decoder String := Field.decoder [.of "dwell" text fun _ x => x] ({} : LinkConfig).dwell

end Decode

def LinkConfig.decode : Decoder LinkConfig :=
  Field.decoder
    [ .of "clocks" Decode.clocks fun c x => { c with clocks := x },
      .of "transport" Decode.transport fun c x => { c with transport := x },
      .of "bridge" Decode.bridge fun c x => { c with bridge := x },
      .of "polarity" Decode.pinPolarity fun c x => { c with polarity := x },
      .of "transceiver" Decode.transceiver fun c x => { c with transceiver := x },
      .of "scan" Decode.scan fun c x => { c with dwell := x } ] {}

end LinkBridge
