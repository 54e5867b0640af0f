import LinkBridge.CommandLine.Arguments
import LinkBridge.Pattern.Prbs
import LinkBridge.Power
import LinkBridge.Run.Scan
import LinkBridge.Text.Digits

/-!
Commands and their arguments.

`init` writes a configuration, `sim` runs a trial and `scan` sweeps a delay line.  Arguments that
concern every command may stand before or behind its name; of two configurations the one behind it
counts.
-/

namespace LinkBridge.CommandLine

inductive LogLevel where
  | error
  | warn
  | debug
deriving DecidableEq, Repr

def LogLevel.name : LogLevel → String
  | .error => "error"
  | .warn => "warn"
  | .debug => "debug"

structure GlobalOptions where
  quiet : Bool := false
  verbose : Bool := false
  config : Option String := none
deriving DecidableEq, Repr

namespace GlobalOptions

/-- The options of a command together with those in front of it. -/
def merge (outer inner : GlobalOptions) : GlobalOptions :=
  { quiet := outer.quiet || inner.quiet
    verbose := outer.verbose || inner.verbose
    config := inner.config <|> outer.config }

/-- Quiet wins over verbose. -/
def logLevel (o : GlobalOptions) : LogLevel :=
  if o.quiet then .error else if o.verbose then .debug else .warn

end GlobalOptions

structure InitOptions where
  directory : Option String := none
deriving DecidableEq, Repr

structure SimOptions where
  time : String := "1ms"
  loopback : Bool := false
  pattern : Option PatternMode := none
  words : Nat := 0
  txDelay : Option Nat := none
  rxDelay : Option Nat := none
  waveforms : Option String := none
deriving DecidableEq, Repr

inductive ReportFormat where
  | text
  | json
deriving DecidableEq, Repr

namespace ReportFormat

def name : ReportFormat → String
  | .text => "text"
  | .json => "json"

def all : List ReportFormat := [.text, .json]

end ReportFormat

structure ScanOptions where
  pattern : PatternMode := .prbs
  other : Option Nat := none
  dwell : Option String := none
  format : ReportFormat := .text
deriving DecidableEq, Repr

inductive Command where
  | init (options : InitOptions)
  | sim (options : SimOptions)
  | scan (direction : Direction) (options : ScanOptions)
deriving DecidableEq, Repr

structure Invocation where
  options : GlobalOptions
  command : Command
deriving DecidableEq, Repr

/-- One of some values by its name, which must be spelled exactly. -/
def readChoice {α : Type} (all : List α) (nameOf : α → String) (name value : String) :
    Except ArgumentError α :=
  match all.find? fun a => nameOf a = value with
  | some a => .ok a
  | none => .error (.badChoice name value)

/-- A whole number without a minus sign, below `2 ^ 64`. -/
def readCount (name value : String) : Except ArgumentError Nat :=
  let digits :=
    match value.toList with
    | '+' :: rest => rest
    | cs => cs
  match Digits.read? 10 digits with
  | some n => if n < limit64 then .ok n else .error (.badNumber name value)
  | none => .error (.badNumber name value)

/-- A number below `2 ^ 32`; zero may have a minus sign. -/
def readSmall (name value : String) : Except ArgumentError Nat :=
  let (negative, digits) :=
    match value.toList with
    | '+' :: rest => (false, rest)
    | '-' :: rest => (true, rest)
    | cs => (false, cs)
  match Digits.read? 10 digits with
  | some n =>
    if n < limit32 ∧ (negative → n = 0) then .ok n else .error (.badNumber name value)
  | none => .error (.badNumber name value)

def valued {σ α : Type} (name : String) (letter : Option Char)
    (read : String → String → Except ArgumentError α) (set : σ → α → σ) : Named σ :=
  { name, letter, action := .take fun value s => (read name value).map (set s) }

def readText (_ value : String) : Except ArgumentError String := .ok value

/-- The arguments that concern every command, at a level whose settings contain them. -/
def globalArguments {σ : Type} (change : (GlobalOptions → GlobalOptions) → σ → σ) :
    List (Named σ) :=
  [ { name := "quiet", letter := some 'q'
      action := .set (change fun g => { g with quiet := true }) },
    { name := "verbose", letter := some 'v'
      action := .set (change fun g => { g with verbose := true }) },
    valued "config" none readText fun s path => change (fun g => { g with config := some path }) s,
    { name := "help", letter := some 'h', action := .stop .helpWanted } ]

/-- Settings of a command: the global ones and its own. -/
structure CommandSettings (α : Type) where
  options : GlobalOptions := {}
  own : α

def commandLevel {α : Type} (named : List (Named (CommandSettings α)))
    (placed : List (Placed (CommandSettings α))) : Level (CommandSettings α) :=
  { named := named ++ globalArguments fun change s => { s with options := change s.options }
    placed }

/-- A change of the settings of a command itself. -/
def own {α β : Type} (set : α → β → α) (s : CommandSettings α) (x : β) : CommandSettings α :=
  { s with own := set s.own x }

def initLevel : Level (CommandSettings InitOptions) :=
  commandLevel []
    [ { name := "dir"
        put := fun value s => .ok (own (fun o x => { o with directory := x }) s value) } ]

def readPattern (name value : String) : Except ArgumentError PatternMode :=
  readChoice [.count, .prbs] PatternMode.name name value

def simLevel : Level (CommandSettings SimOptions) :=
  commandLevel
    [ valued "time" none readText (own fun o x => { o with time := x }),
      { name := "loopback"
        action := .set fun s => own (fun o x => { o with loopback := x }) s true },
      valued "pattern" none readPattern (own fun o x => { o with pattern := some x }),
      valued "words" none readCount (own fun o x => { o with words := x }),
      valued "tx-delay" none readSmall (own fun o x => { o with txDelay := some x }),
      valued "rx-delay" none readSmall (own fun o x => { o with rxDelay := some x }),
      valued "vcd" none readText (own fun o x => { o with waveforms := some x }) ]
    []

/-- The direction has no default, so it is kept apart until the level is read. -/
def scanLevel : Level (CommandSettings (Option Direction × ScanOptions)) :=
  commandLevel
    [ valued "pattern" (some 'p') readPattern (own fun o x => (o.1, { o.2 with pattern := x })),
      valued "other" none readSmall (own fun o x => (o.1, { o.2 with other := some x })),
      valued "dwell" none readText (own fun o x => (o.1, { o.2 with dwell := some x })),
      valued "format" (some 'f') (readChoice ReportFormat.all ReportFormat.name)
        (own fun o x => (o.1, { o.2 with format := x })) ]
    [ { name := "direction"
        put := fun value s =>
          (readChoice Direction.all Direction.name "direction" value).map fun d =>
            { s with own := (some d, s.own.2) } } ]

namespace Command

def names : List String := ["init", "sim", "scan"]

def helpName : String := "help"

def help : List String → ArgumentError
  | [] => .helpWanted
  | name :: rest =>
    if names.contains name || name = helpName then
      match rest with
      | [] => .helpWanted
      | next :: _ => .unknownCommand next
    else .unknownCommand name

/-- The command of a name with its arguments, and the global options among them. -/
def read (name : String) (arguments : List String) :
    Except ArgumentError (GlobalOptions × Command) :=
  if name = "init" then do
    let s ← initLevel.read { own := {} } arguments
    return (s.options, .init s.own)
  else if name = "sim" then do
    let s ← simLevel.read { own := {} } arguments
    return (s.options, .sim s.own)
  else if name = "scan" then do
    let s ← scanLevel.read { own := (none, {}) } arguments
    match s.own.1 with
    | some direction => return (s.options, .scan direction s.own.2)
    | none => .error (.missingArgument "direction")
  else .error (help arguments)

end Command

def rootLevel : Level GlobalOptions :=
  { named := globalArguments id ++
      [{ name := "version", letter := some 'V', action := .stop .versionWanted }]
    commands := Command.names ++ [Command.helpName] }

/-- Reads a whole command line, without the name of the program. -/
def Invocation.read (arguments : List String) : Except ArgumentError Invocation := do
  let (r, found) ← rootLevel.readFrom (rootLevel.start {}) arguments
  match found with
  | some (name, rest) =>
    let (inner, command) ← Command.read name rest
    let r ← r.commit
    return { options := r.settings.merge inner, command }
  | none =>
    let r ← r.commit
    if r.used.isEmpty then .error .nothingGiven else .error .noCommand

end LinkBridge.CommandLine
