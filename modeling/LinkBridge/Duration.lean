import LinkBridge.Text.Blank
import LinkBridge.Time

/-!
Durations as text.

A duration is one or more decimal digits and a unit, with blanks allowed around it and between the
two.  Each way of failing has its own cause, told by what is read from the left.
-/

namespace LinkBridge

inductive DurationError where
  | empty
  | noNumber (text : String)
  | numberTooLarge (text : String)
  | noUnit (text : String)
  | unknownUnit (symbol : String)
  | tooLong (text : String)
deriving DecidableEq, Repr

def DurationError.message : DurationError → String
  | .empty => "empty duration string"
  | .noNumber text => s!"invalid duration: no numeric value in '{text}'"
  | .numberTooLarge text => s!"invalid number in duration '{text}'"
  | .noUnit text => s!"missing unit in duration '{text}' (use fs, ps, ns, us, ms, or s)"
  | .unknownUnit symbol => s!"unknown duration unit '{symbol}' (use fs, ps, ns, us, ms, or s)"
  | .tooLong text => s!"duration '{text}' is too long"

namespace Duration

/-- The duration that a text without outer blanks writes. -/
def readTrimmed (cs : List Char) : Except DurationError Time :=
  let text := String.ofList cs
  let digits := cs.takeWhile Char.isDigit
  let symbol := String.ofList (Text.trim (cs.dropWhile Char.isDigit))
  match Digits.read? 10 digits with
  | none => .error (.noNumber text)
  | some count =>
    if count > Time.lastFs then .error (.numberTooLarge text)
    else if symbol = "" then .error (.noUnit text)
    else
      match TimeUnit.all.find? (fun u => u.symbol = symbol) with
      | none => .error (.unknownUnit symbol)
      | some u =>
        match Time.ofNat? (count * u.femtoseconds) with
        | some t => .ok t
        | none => .error (.tooLong text)

def read (text : String) : Except DurationError Time :=
  match Text.trim text.toList with
  | [] => .error .empty
  | cs => readTrimmed cs

end Duration
end LinkBridge
