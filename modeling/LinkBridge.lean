import LinkBridge.CommandLine.FileTree
import LinkBridge.Json.Document
import LinkBridge.Main
import LinkBridge.Pattern.SelfTest
import LinkBridge.Proofs.Bridge.Duplex
import LinkBridge.Proofs.Bridge.FullRate
import LinkBridge.Proofs.Bridge.Loopback
import LinkBridge.Proofs.Bridge.Snapshot
import LinkBridge.Proofs.Simulation.ClosedLoop
import LinkBridge.Proofs.Simulation.PhaseInversion
import LinkBridge.Proofs.Simulation.SelfTest
import LinkBridge.Proofs.Bridge.Latency
import LinkBridge.Proofs.Bridge.ErrorCount
import LinkBridge.Proofs.Simulation.EdgeTimes
import LinkBridge.Proofs.Text.Digits
import LinkBridge.Proofs.Time
import LinkBridge.Proofs.Config.Mask
import LinkBridge.Proofs.Waveform.Reader
import LinkBridge.Proofs.Waveform.Recording
import LinkBridge.Proofs.Waveform.Replay
import LinkBridge.Proofs.Simulation.Waveform
import LinkBridge.Proofs.Bridge.Tearing
import LinkBridge.Proofs.Run.Trial
import LinkBridge.Proofs.Run.ScanTested
import LinkBridge.Proofs.Bridge.Activity
import LinkBridge.Proofs.Bridge.Registers
import LinkBridge.Proofs.Config.Resolve
import LinkBridge.Proofs.Simulation.Turns
import LinkBridge.Proofs.Simulation.Runs
import LinkBridge.Proofs.Pattern.WrongPattern
import LinkBridge.Proofs.Pattern.Stuck
import LinkBridge.Proofs.Bridge.WordBoundary
import LinkBridge.Proofs.Crossing.Drain
import LinkBridge.Proofs.Crossing.PulseCount
import LinkBridge.Proofs.Sample.PhaseShift
import LinkBridge.Proofs.CommandLine.ScanDwell
import LinkBridge.Proofs.Waveform.Declarations
import LinkBridge.Proofs.Sample.Format
