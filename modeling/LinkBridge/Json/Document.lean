import LinkBridge.Datum
import LinkBridge.Decimal.Literal
import LinkBridge.Power
import LinkBridge.Text.Reader

/-!
Reading JSON.

A document is one value.  Objects become tables sorted by name, of two members of one name the
later counts.  Whole numbers of 64 bits, with a sign or without, are integers, all others floats;
a zero with a minus sign is a float, because an integer would lose the sign.
-/

namespace LinkBridge.Json

open Text

def isSpace (c : Char) : Bool := c == ' ' || c == '\t' || c == '\n' || c == '\r'

def skipSpaces (cs : List Char) : List Char := cs.dropWhile isSpace

/-- Four hexadecimal digits after the mark of an escape. -/
def codeUnit? (cs : List Char) : Option Nat :=
  let digits := cs.take 4
  if digits.length < 4 then none else Digits.read? 16 digits

/-- A character outside the basic plane, from the two halves of a pair. -/
def pairValue (high low : Nat) : Nat := 0x10000 + (high - 0xd800) * 0x400 + (low - 0xdc00)

/-- The character of a numeric escape after its mark, and how many characters the escape takes. -/
def numericEscape? (cs : List Char) : Option (Char × Nat) :=
  (codeUnit? cs).bind fun unit =>
    if 0xd800 ≤ unit ∧ unit < 0xdc00 then
      match cs.drop 4 with
      | '\\' :: 'u' :: rest =>
        (codeUnit? rest).bind fun low =>
          if 0xdc00 ≤ low ∧ low < 0xe000 then
            (codePoint? (pairValue unit low)).map fun c => (c, 10)
          else none
      | _ => none
    else (codePoint? unit).map fun c => (c, 4)

/-- The character of an escape after its backslash, and how many characters the escape takes. -/
def escape? : List Char → Option (Char × Nat)
  | [] => none
  | c :: rest =>
    if c = '\x22' ∨ c = '\\' ∨ c = '/' then some (c, 1)
    else if c = 'b' then some ('\x08', 1)
    else if c = 'f' then some ('\x0c', 1)
    else if c = 'n' then some ('\n', 1)
    else if c = 'r' then some ('\r', 1)
    else if c = 't' then some ('\t', 1)
    else if c = 'u' then (numericEscape? rest).map fun (e, count) => (e, count + 1)
    else none

/-- A string up to its closing quote, the opening one being read. -/
def stringBody (cs : List Char) : Option (List Char × List Char) :=
  match cs with
  | [] => none
  | c :: rest =>
    if c = '\x22' then some ([], rest)
    else if c = '\\' then
      match escape? rest with
      | some (e, count) =>
        (stringBody (rest.drop count)).map fun (s, rest) => (e :: s, rest)
      | none => none
    else if c < ' ' then none
    else (stringBody rest).map fun (s, rest) => (c :: s, rest)
termination_by cs.length
decreasing_by all_goals simp only [List.length_cons, List.length_drop]; omega

def string (cs : List Char) : Option (String × List Char) :=
  (stringBody cs).map fun (s, rest) => (String.ofList s, rest)

def digits (cs : List Char) : Option (List Char × List Char) :=
  let d := cs.takeWhile Char.isDigit
  if d.isEmpty then none else some (d, cs.dropWhile Char.isDigit)

/-- The whole part of a number: no zero in front of another digit. -/
def wholePart : Reader (List Char)
  | '0' :: rest => some (['0'], rest)
  | cs => digits cs

/-- A fraction with its point, if there is one. -/
def fraction : Reader (List Char)
  | '.' :: rest => (digits rest).map fun (d, rest) => ('.' :: d, rest)
  | cs => some ([], cs)

/-- An exponent with its mark, if there is one. -/
def exponent : Reader (List Char)
  | [] => some ([], [])
  | c :: rest =>
    if c = 'e' ∨ c = 'E' then
      match rest with
      | '+' :: rest => (digits rest).map fun (d, rest) => ('e' :: d, rest)
      | '-' :: rest => (digits rest).map fun (d, rest) => ('e' :: '-' :: d, rest)
      | _ => (digits rest).map fun (d, rest) => ('e' :: d, rest)
    else some ([], c :: rest)

/-- Whether a whole number with this sign is an integer of 64 bits. -/
def fits (negative : Bool) (n : Nat) : Bool :=
  if negative then 0 < n && n ≤ limit63 else n < limit64

/-- The number of a literal, given its sign, its whole part and what follows it. -/
def numberOf (negative : Bool) (whole tail : List Char) : Option Datum :=
  let n := Decimal.digitsValue whole
  if tail.isEmpty && fits negative n then some (.integer (if negative then -n else n))
  else
    (Decimal.readFloat? (if negative then '-' :: whole ++ tail else whole ++ tail)).map .real

def number (cs : List Char) : Option (Datum × List Char) := do
  let (negative, cs) :=
    match cs with
    | '-' :: rest => (true, rest)
    | _ => (false, cs)
  let (whole, cs) ← wholePart cs
  let (f, cs) ← fraction cs
  let (e, cs) ← exponent cs
  let d ← numberOf negative whole (f ++ e)
  return (d, cs)

/-- Puts an entry into a table that is sorted by name, in place of one of the same name. -/
def insertEntry (name : String) (d : Datum) : List (String × Datum) → List (String × Datum)
  | [] => [(name, d)]
  | (other, e) :: rest =>
    if name = other then (name, d) :: rest
    else if name < other then (name, d) :: (other, e) :: rest
    else (other, e) :: insertEntry name d rest

/-- The table of members in the order of the text. -/
def tableOf (members : List (String × Datum)) : Datum :=
  .table (members.foldl (fun entries (name, d) => insertEntry name d entries) [])

def member (value : Reader Datum) (cs : List Char) : Option ((String × Datum) × List Char) :=
  match skipSpaces cs with
  | '\x22' :: rest =>
    (string rest).bind fun (name, rest) =>
      match skipSpaces rest with
      | ':' :: rest => (value rest).map fun (d, rest) => ((name, d), rest)
      | _ => none
  | _ => none

/-- The items up to a closing mark, the opening one being read. -/
def items {α : Type} (item : Reader α) (closing : Char) (cs : List Char) :
    Option (List α × List Char) :=
  if (skipSpaces cs).head? = some closing then some ([], (skipSpaces cs).tail)
  else
    match separated item ',' cs with
    | some (as, c :: rest) => if c = closing then some (as, rest) else none
    | _ => none

def scalar (cs : List Char) : Option (Datum × List Char) :=
  match cs with
  | '\x22' :: rest => (string rest).map fun (s, rest) => (.text s, rest)
  | _ =>
    match word? "null" cs, word? "true" cs, word? "false" cs with
    | some rest, _, _ => some (.null, rest)
    | _, some rest, _ => some (.flag true, rest)
    | _, _, some rest => some (.flag false, rest)
    | none, none, none => number cs

/-- A value and the spaces around it, with at most so many lists and tables around one another. -/
def value (depth : Nat) (cs : List Char) : Option (Datum × List Char) :=
  let read : Option (Datum × List Char) :=
    match skipSpaces cs, depth with
    | '[' :: rest, depth + 1 =>
      (items (value depth) ']' rest).map fun (ds, rest) => (.list ds, rest)
    | '\x7b' :: rest, depth + 1 =>
      (items (member (value depth)) '\x7d' rest).map fun (ms, rest) => (tableOf ms, rest)
    | start, _ => scalar start
  read.map fun (d, rest) => (d, skipSpaces rest)

/-- Values are nested no deeper than this. -/
def maxNesting : Nat := 127

def read (text : String) : Option Datum :=
  match value maxNesting text.toList with
  | some (d, []) => some d
  | _ => none

end LinkBridge.Json
