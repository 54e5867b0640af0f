import LinkBridge.Text.Digits

/-!
Dates and times.

A date, a time of day, or both with an optional offset.  They are checked against the calendar, and
nothing else is done with them.
-/

namespace LinkBridge.Toml.Moment

/-- A number of exactly so many decimal digits within bounds. -/
def field (count low high : Nat) (cs : List Char) : Option (Nat × List Char) :=
  let digits := cs.take count
  if digits.length < count then none
  else
    (Digits.read? 10 digits).bind fun n =>
      if low ≤ n ∧ n ≤ high then some (n, cs.drop count) else none

def mark (c : Char) : List Char → Option (List Char)
  | [] => none
  | d :: rest => if d = c then some rest else none

def isLeap (year : Nat) : Bool := year % 4 == 0 && (year % 100 != 0 || year % 400 == 0)

def daysIn (year month : Nat) : Nat :=
  if month = 2 then if isLeap year then 29 else 28
  else if month = 4 ∨ month = 6 ∨ month = 9 ∨ month = 11 then 30
  else 31

def date (cs : List Char) : Option (List Char) := do
  let (year, cs) ← field 4 0 9999 cs
  let cs ← mark '-' cs
  let (month, cs) ← field 2 1 12 cs
  let cs ← mark '-' cs
  let (_, cs) ← field 2 1 (daysIn year month) cs
  return cs

/-- Drops a fraction of a second, if there is one. -/
def secondFraction (cs : List Char) : List Char :=
  match cs with
  | '.' :: rest => if rest.head?.any Char.isDigit then rest.dropWhile Char.isDigit else cs
  | _ => cs

/-- Drops a time of day, which may fall on a leap second. -/
def time (cs : List Char) : Option (List Char) := do
  let (_, cs) ← field 2 0 23 cs
  let cs ← mark ':' cs
  let (_, cs) ← field 2 0 59 cs
  let cs ← mark ':' cs
  let (_, cs) ← field 2 0 60 cs
  return secondFraction cs

def hourOffset (cs : List Char) : Option (List Char) := do
  let (_, cs) ← field 2 0 23 cs
  let cs ← mark ':' cs
  let (_, cs) ← field 2 0 59 cs
  return cs

def offset (cs : List Char) : List Char :=
  match cs with
  | [] => []
  | c :: rest =>
    if c = 'Z' ∨ c = 'z' then rest
    else if c = '+' ∨ c = '-' then (hourOffset rest).getD cs
    else cs

/-- Drops the time that belongs to a date, if there is one. -/
def timeOfDate (cs : List Char) : List Char :=
  match cs with
  | [] => []
  | c :: rest =>
    if c = 'T' ∨ c = 't' ∨ c = ' ' then ((time rest).map offset).getD cs else cs

/-- Drops a date, a date with a time, or a time. -/
def skip? (cs : List Char) : Option (List Char) :=
  match date cs with
  | some rest => some (timeOfDate rest)
  | none => time cs

end LinkBridge.Toml.Moment
