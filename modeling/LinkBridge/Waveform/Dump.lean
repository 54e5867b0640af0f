import LinkBridge.Text.Digits
import LinkBridge.Waveform.Code

/-!
Value change dumps.

A dump is the text form of waveforms that viewers open: declarations of variables in scopes, then
value changes under rising time stamps.  It is kept as a list of lines, and `Line.text` is how each
line is written.
-/

namespace LinkBridge.Waveform

inductive Line where
  | version
  | timescale
  | scope (name : String)
  | variable (width : Nat) (code : String) (name : String)
  | upscope
  | endDefinitions
  | dumpStart
  | instant (fs : Nat)
  | bit (value : Bool) (code : String)
  | vector (width value : Nat) (code : String)
deriving DecidableEq, Repr

def Line.text : Line → String
  | .version => "$version trxlink bridge simulator $end"
  | .timescale => "$timescale 1fs $end"
  | .scope name => s!"$scope module {name} $end"
  | .variable width code name =>
    "$var wire " ++ Digits.decimal width ++ " " ++ code ++ " " ++ name ++ " $end"
  | .upscope => "$upscope $end"
  | .endDefinitions => "$enddefinitions $end"
  | .dumpStart => "$dumpvars"
  | .instant fs => "#" ++ Digits.decimal fs
  | .bit value code => (if value then "1" else "0") ++ code
  | .vector width value code => "b" ++ Digits.binary width value ++ " " ++ code

structure Signal where
  id : UInt32
  code : String
  width : Nat
deriving DecidableEq, Repr

inductive Part where
  | empty
  | declarations
  | changes
deriving DecidableEq, Repr

/-- A change of a signal that was never declared. -/
structure UnknownSignal where
  id : UInt32
deriving DecidableEq, Repr

def UnknownSignal.message (e : UnknownSignal) : String :=
  "unregistered waveform signal " ++ Digits.decimal e.id.toNat

/-- `signals` has one entry for each id, the newest first. -/
structure Dump where
  lines : Array Line := #[]
  signals : List Signal := []
  part : Part := .empty
  time : Option Nat := none
deriving DecidableEq, Repr

namespace Dump

def push (d : Dump) (line : Line) : Dump := { d with lines := d.lines.push line }

def openDeclarations (d : Dump) : Dump :=
  if d.part = .empty then
    { (d.push .version).push .timescale with part := .declarations }
  else d

def openChanges (d : Dump) : Dump :=
  let d := d.openDeclarations
  if d.part = .declarations then { d.push .endDefinitions with part := .changes } else d

def beginScope (d : Dump) (name : String) : Dump := d.openDeclarations.push (.scope name)

def endScope (d : Dump) : Dump := d.push .upscope

/-- Adds a signal, in place of one with the same id. -/
def keep (signals : List Signal) (s : Signal) : List Signal :=
  if signals.any (·.id == s.id) then signals.map fun t => if t.id == s.id then s else t
  else s :: signals

/-- Declares a signal.  Its code is that of the number of signals there are. -/
def declare (d : Dump) (id : UInt32) (name : String) (width : Nat) : Dump :=
  let signal : Signal := { id, width, code := String.ofList (code d.signals.length) }
  let d := d.openDeclarations.push (.variable width signal.code name)
  { d with signals := keep d.signals signal }

def signal? (d : Dump) (id : UInt32) : Option Signal := d.signals.find? fun s => s.id == id

/-- Opens the changes and marks the start of the values, unless the changes are open already. -/
def startChanges (d : Dump) : Dump :=
  if d.part = .changes then d else d.openChanges.push .dumpStart

/-- A time stamp, unless the last one says the same. -/
def stamp (d : Dump) (fs : Nat) : Dump :=
  if d.time = some fs then d else { d.push (.instant fs) with time := some fs }

/-- Writes a new value of a signal.  A signal of one bit takes the lowest bit of the value. -/
def write (d : Dump) (fs : Nat) (s : Signal) (value : Nat) : Dump :=
  (d.startChanges.stamp fs).push
    (if s.width = 1 then .bit (value % 2 = 1) s.code else .vector s.width value s.code)

def change (d : Dump) (fs : Nat) (id : UInt32) (value : Nat) : Except UnknownSignal Dump :=
  match d.signal? id with
  | some s => .ok (d.write fs s value)
  | none => .error ⟨id⟩

/-- Ends a dump, which has at least its declarations closed. -/
def finish (d : Dump) : Dump := d.openChanges

def text (d : Dump) : String := d.lines.foldl (fun acc l => acc ++ l.text ++ "\n") ""

end Dump
end LinkBridge.Waveform
