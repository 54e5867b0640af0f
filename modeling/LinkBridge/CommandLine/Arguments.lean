/-!
Reading arguments.

A command line is read from the left at one level after the other: the program's own arguments up
to the name of a command, and then those of the command.  An argument that takes a value keeps it
pending until the next argument begins; only then is the value read and put into the settings.  So
a mistake in a value is found after the arguments behind it have been recognised.
-/

namespace LinkBridge.CommandLine

/-- A reason why arguments give no command: a request for a text, or a mistake. -/
inductive ArgumentError where
  | helpWanted
  | versionWanted
  | nothingGiven
  | noCommand
  | unknownCommand (name : String)
  | unknownArgument (argument : String)
  | missingArgument (name : String)
  | missingValue (name : String)
  | unexpectedValue (name : String)
  | repeated (name : String)
  | badChoice (name value : String)
  | badNumber (name value : String)
deriving DecidableEq, Repr

def ArgumentError.message : ArgumentError → String
  | .helpWanted | .versionWanted | .nothingGiven => ""
  | .noCommand => "a command is required"
  | .unknownCommand name => s!"unrecognized command '{name}'"
  | .unknownArgument argument => s!"unexpected argument '{argument}'"
  | .missingArgument name => s!"the argument '{name}' is required"
  | .missingValue name => s!"a value is required for '{name}'"
  | .unexpectedValue name => s!"no value is expected for '{name}'"
  | .repeated name => s!"the argument '{name}' cannot be used twice"
  | .badChoice name value | .badNumber name value => s!"invalid value '{value}' for '{name}'"

/-- What an argument does to settings of a type. -/
inductive Action (σ : Type) where
  | set (change : σ → σ)
  | take (put : String → σ → Except ArgumentError σ)
  | stop (error : ArgumentError)

/-- An argument with a name, such as `--name`, and perhaps a letter, such as `-n`. -/
structure Named (σ : Type) where
  name : String
  letter : Option Char := none
  action : Action σ

structure Placed (σ : Type) where
  name : String
  put : String → σ → Except ArgumentError σ

structure Level (σ : Type) where
  named : List (Named σ)
  placed : List (Placed σ) := []
  commands : List String := []

structure Pending (σ : Type) where
  name : String
  value : Option String
  put : String → σ → Except ArgumentError σ

/-- A level half read.  `waiting` says whether the next argument is the value of the pending one,
and `plain` whether all further arguments are known by their places. -/
structure Reading (σ : Type) where
  settings : σ
  used : List String := []
  pending : Option (Pending σ) := none
  waiting : Bool := false
  plain : Bool := false
  placed : List (Placed σ)

namespace Reading

variable {σ : Type}

def use (r : Reading σ) (name : String) : Except ArgumentError (Reading σ) :=
  if r.used.contains name then .error (.repeated name) else .ok { r with used := name :: r.used }

def putValue (r : Reading σ) (name value : String)
    (put : String → σ → Except ArgumentError σ) : Except ArgumentError (Reading σ) := do
  let r ← r.use name
  let settings ← put value r.settings
  return { r with settings }

def commit (r : Reading σ) : Except ArgumentError (Reading σ) :=
  match r.pending with
  | none => .ok r
  | some p =>
    match p.value with
    | none => .error (.missingValue p.name)
    | some value => { r with pending := none }.putValue p.name value p.put

def act (r : Reading σ) (name : String) (change : σ → σ) : Except ArgumentError (Reading σ) := do
  let r ← r.commit
  let r ← r.use name
  return { r with settings := change r.settings, waiting := false }

def take (r : Reading σ) (name value : String) (put : String → σ → Except ArgumentError σ) :
    Except ArgumentError (Reading σ) := do
  let r ← r.commit
  let r ← r.putValue name value put
  return { r with waiting := false }

def await (r : Reading σ) (name : String) (put : String → σ → Except ArgumentError σ) :
    Except ArgumentError (Reading σ) := do
  let r ← r.commit
  return { r with pending := some { name, value := none, put }, waiting := true }

def supply (r : Reading σ) (value : String) : Reading σ :=
  { r with pending := r.pending.map fun p => { p with value := some value }, waiting := false }

def stop (r : Reading σ) (error : ArgumentError) : Except ArgumentError (Reading σ) := do
  let _ ← r.commit
  .error error

/-- An argument by its name, with a value behind an equals sign or without. -/
def long (level : Level σ) (r : Reading σ) (argument : List Char) :
    Except ArgumentError (Reading σ) :=
  let name := String.ofList (argument.takeWhile (· != '='))
  let attached : Option String :=
    match argument.dropWhile (· != '=') with
    | [] => none
    | _ :: value => some (String.ofList value)
  match level.named.find? fun a => a.name = name with
  | none => .error (.unknownArgument ("--" ++ name))
  | some a =>
    match a.action, attached with
    | .take put, some value => r.take a.name value put
    | .take put, none => r.await a.name put
    | _, some _ => .error (.unexpectedValue a.name)
    | .set change, none => r.act a.name change
    | .stop error, none => r.stop error

/-- Letters behind one dash.  The first that takes a value takes the rest, or waits if there is no
rest. -/
def letters (level : Level σ) (r : Reading σ) : List Char → Except ArgumentError (Reading σ)
  | [] => .ok r
  | c :: rest =>
    match level.named.find? fun a => a.letter = some c with
    | none => .error (.unknownArgument (String.ofList ['-', c]))
    | some a =>
      match a.action, rest with
      | .set change, _ => (r.act a.name change).bind fun r => letters level r rest
      | .stop error, _ => r.stop error
      | .take put, [] => r.await a.name put
      | .take put, '=' :: value => r.take a.name (String.ofList value) put
      | .take put, value => r.take a.name (String.ofList value) put

def inPlace (level : Level σ) (r : Reading σ) (argument : String) :
    Except ArgumentError (Reading σ) :=
  match r.placed with
  | p :: placed => do
    let r ← r.commit
    return { r with
      placed, pending := some { name := p.name, value := some argument, put := p.put }
      waiting := false }
  | [] =>
    if level.commands.isEmpty || (r.plain && level.commands.contains argument) then
      .error (.unknownArgument argument)
    else .error (.unknownCommand argument)

def step (level : Level σ) (r : Reading σ) (argument : String) :
    Except ArgumentError (Reading σ) :=
  if r.plain then r.inPlace level argument
  else if argument = "--" then .ok { r with plain := true }
  else
    match argument.toList with
    | '-' :: '-' :: name => r.long level name
    | '-' :: c :: rest => r.letters level (c :: rest)
    | _ => if r.waiting then .ok (r.supply argument) else r.inPlace level argument

/-- Whether an argument is the name of a command. -/
def endsAt (level : Level σ) (r : Reading σ) (argument : String) : Bool :=
  !r.plain && !r.waiting && level.commands.contains argument

end Reading

namespace Level

variable {σ : Type}

def start (level : Level σ) (settings : σ) : Reading σ := { settings, placed := level.placed }

/-- Reads a level up to the name of a command, which is given with the arguments behind it.  A
value may still be pending. -/
def readFrom (level : Level σ) (r : Reading σ) :
    List String → Except ArgumentError (Reading σ × Option (String × List String))
  | [] => .ok (r, none)
  | argument :: rest =>
    if r.endsAt level argument then .ok (r, some (argument, rest))
    else (r.step level argument).bind fun r => readFrom level r rest

def read (level : Level σ) (settings : σ) (arguments : List String) : Except ArgumentError σ := do
  let (r, _) ← level.readFrom (level.start settings) arguments
  let r ← r.commit
  return r.settings

end Level
end LinkBridge.CommandLine
