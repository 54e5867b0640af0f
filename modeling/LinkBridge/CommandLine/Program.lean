import LinkBridge.CommandLine.Command
import LinkBridge.CommandLine.Files
import LinkBridge.Config.Resolve
import LinkBridge.Config.Text
import LinkBridge.Duration
import LinkBridge.Json.Text
import LinkBridge.Run.Export

/-!
The program.

`Program.run` takes the arguments and a file system and gives an exit code and what is printed.
Code 0 says that all went well, 1 that a run failed or could not be made, and 2 that the arguments
were not understood.
-/

namespace LinkBridge.CommandLine

/-- The name of a configuration file in its directory. -/
def configFileName : String := "trxlink.toml"

/-- A reason why a command could not be carried out. -/
inductive ProgramError where
  | unreadable (error : FileError)
  | config (error : ConfigError)
  | tap (error : DelayTap.RangeError)
  | duration (error : DurationError)
  | run (error : RunError)
  | waveform (error : FileError)
  | alreadyExists (path : String)
  | file (error : FileError)
deriving Repr

def ProgramError.message : ProgramError → String
  | .unreadable error => "failed to read configuration: " ++ error.message
  | .config error => error.message
  | .tap error => error.message
  | .duration error => error.message
  | .run error => error.message
  | .waveform error => "waveform I/O error: " ++ error.message
  | .alreadyExists path => s!"'{path}' already exists"
  | .file error => error.message

/-- What a run of the program leaves: its exit code and the text on either output. -/
structure Outcome where
  code : Nat := 0
  out : String := ""
  err : String := ""
deriving DecidableEq, Repr

namespace Outcome

def unlines (lines : List String) : String := String.join (lines.map (· ++ "\n"))

/-- A line on the error output in front of the others. -/
def noted (note : String) (quiet : Bool) (o : Outcome) : Outcome :=
  if quiet then o else { o with err := note ++ "\n" ++ o.err }

def failure (code : Nat) (message : String) : Outcome :=
  { code, err := "error: " ++ message ++ "\n" }

end Outcome

structure LoadedConfig where
  config : LinkConfig
  params : SimulationParams
deriving Repr

namespace Program

def header : String :=
  Outcome.unlines
    [ "# Transceiver link bridge configuration.",
      "#",
      "# Clocks are frequency strings, delay taps are 0..=31 and eye windows are",
      "# inclusive [lo, hi] tap ranges of the simulated transceiver.",
      "" ]

def defaultText : String := header ++ ({} : LinkConfig).text

section

variable {m : Type → Type} [Monad m]

/-- An operation on files whose failure becomes one of the program. -/
def attempt {α : Type} (wrap : FileError → ProgramError) (x : m (Except FileError α)) :
    ExceptT ProgramError m α :=
  ExceptT.mk (return (← x).mapError wrap)

/-- The first of some directories that has a configuration file, and that file. -/
def findConfig (files : Files m) : List String → m (Option String)
  | [] => pure none
  | directory :: rest => do
    let path := Path.join directory configFileName
    if ← files.isFile path then pure (some path) else findConfig files rest

/-- The configuration file to use: the one that is named, or the nearest in the current directory
and those above.  A directory may be named for the file in it. -/
def configPath (files : Files m) : Option String → m (Option String)
  | some path => do
    if ← files.isDirectory path then pure (some (Path.join path configFileName))
    else pure (some path)
  | none => do
    let directory ← files.currentDirectory
    findConfig files (Path.along directory).reverse

/-- The configuration that holds, which is the default one if there is no file. -/
def load (files : Files m) (options : GlobalOptions) : ExceptT ProgramError m LoadedConfig := do
  let path ← ExceptT.lift (configPath files options.config)
  let config : LinkConfig ←
    match path with
    | some path => do
      let text ← attempt .unreadable (files.read path)
      ((LinkConfig.load text).mapError .config : Except ProgramError LinkConfig)
    | none => pure {}
  let params ←
    (config.resolve.mapError (.config ∘ .invalid) : Except ProgramError SimulationParams)
  return { config, params }

def tapOr (tap : Option Nat) (other : DelayTap) : Except ProgramError DelayTap :=
  match tap with
  | some n => (DelayTap.ofNat n).mapError .tap
  | none => .ok other

def readDuration (text : String) : Except ProgramError Time :=
  (Duration.read text).mapError .duration

def runInit (files : Files m) (options : GlobalOptions) (o : InitOptions) :
    ExceptT ProgramError m Outcome := do
  let directory ←
    match o.directory with
    | some directory => pure directory
    | none => files.currentDirectory
  let path := Path.join directory configFileName
  if ← files.exists? path then throw (.alreadyExists path)
  attempt .file (files.createDirectories directory)
  attempt .file (files.write path defaultText)
  return ({} : Outcome).noted ("     Created " ++ path) options.quiet

def trialRequest (o : SimOptions) : TrialRequest :=
  { loopback := o.loopback, pattern := o.pattern, words := o.words }

def trialOutcome (quiet : Bool) (r : TrialReport) : Outcome :=
  { code := if r.passed then 0 else 1, out := if quiet then "" else Outcome.unlines r.lines }

/-- Runs a trial.  The file for the waveforms is made first, so that a path that cannot be written
to fails before the time is spent. -/
def runSim (files : Files m) (options : GlobalOptions) (o : SimOptions) :
    ExceptT ProgramError m Outcome := do
  let loaded ← load files options
  let txDelay ← tapOr o.txDelay loaded.params.bridge.txDelay
  let rxDelay ← tapOr o.rxDelay loaded.params.bridge.rxDelay
  let params :=
    { loaded.params with bridge := { loaded.params.bridge with txDelay, rxDelay } }
  let duration ← readDuration o.time
  let request := trialRequest o
  let start ← ((Trial.start params request).mapError .run : Except ProgramError Simulation)
  let writeWaveforms (text : String) : ExceptT ProgramError m Unit :=
    match o.waveforms with
    | some path => attempt .waveform (files.write path text)
    | none => pure ()
  writeWaveforms ""
  let (report, text) ←
    ((Trial.run start request duration o.waveforms.isSome).mapError .run :
      Except ProgramError (TrialReport × Option String))
  writeWaveforms (text.getD "")
  let note :=
    s!"   Simulating {o.time} of link at {params.linkClock.text} " ++
      s!"(control clock {params.controlClock.text})"
  return (trialOutcome options.quiet report).noted note options.quiet

/-- The tap that stays while a delay line is swept. -/
def heldTap (direction : Direction) (p : SimulationParams) : DelayTap :=
  match direction with
  | .tx => p.bridge.rxDelay
  | .rx => p.bridge.txDelay

/-- What is printed of a scan: a report as data even when quiet, one as text only otherwise. -/
def scanOutcome (quiet : Bool) (format : ReportFormat) (r : ScanReport) : Outcome :=
  { code := if r.window.isSome then 0 else 1
    out :=
      match format with
      | .json => Json.pretty 0 r.datum ++ "\n"
      | .text => if quiet then "" else Outcome.unlines r.lines }

def runScan (files : Files m) (options : GlobalOptions) (direction : Direction)
    (o : ScanOptions) : ExceptT ProgramError m Outcome := do
  let loaded ← load files options
  let dwellText := o.dwell.getD loaded.config.dwell
  let dwell ← readDuration dwellText
  let held ← tapOr o.other (heldTap direction loaded.params)
  let report ←
    ((Scan.run loaded.params direction o.pattern held dwell).mapError .run :
      Except ProgramError ScanReport)
  let note :=
    s!"   Scanning {direction.name} taps (other tap " ++ Digits.decimal held.value ++
      s!", dwell {dwellText})"
  return (scanOutcome options.quiet o.format report).noted note
    (options.quiet || o.format == .json)

def runCommand (files : Files m) (i : Invocation) : ExceptT ProgramError m Outcome :=
  match i.command with
  | .init o => runInit files i.options o
  | .sim o => runSim files i.options o
  | .scan direction o => runScan files i.options direction o

def helpText : String :=
  Outcome.unlines
    [ "Transceiver link bridge tools",
      "",
      "Usage: trxlink [OPTIONS] <COMMAND>",
      "",
      "Commands:",
      "  init [DIR]           Write a default configuration",
      "  sim                  Run the bridge against the simulated transceiver",
      "  scan <tx|rx>         Sweep a delay line and report pattern errors",
      "  help                 Print this text",
      "",
      "Options:",
      "  -q, --quiet          Suppress all output except errors",
      "  -v, --verbose        Enable verbose output",
      "      --config <PATH>  Path to a configuration file or its directory",
      "  -h, --help           Print this text",
      "  -V, --version        Print the version" ]

def versionText : String := "trxlink 0.1.0\n"

/-- What is printed when the arguments give no command. -/
def withoutCommand : ArgumentError → Outcome
  | .helpWanted => { out := helpText }
  | .versionWanted => { out := versionText }
  | .nothingGiven => { code := 2, err := helpText }
  | error => .failure 2 error.message

def run (files : Files m) (arguments : List String) : m Outcome :=
  match Invocation.read arguments with
  | .error error => pure (withoutCommand error)
  | .ok invocation => do
    match ← (runCommand files invocation).run with
    | .ok outcome => pure outcome
    | .error error => pure (.failure 1 error.message)

end

end Program
end LinkBridge.CommandLine
