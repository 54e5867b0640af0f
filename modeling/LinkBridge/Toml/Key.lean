import LinkBridge.Toml.Quoted

/-!
Keys.

A key is one or more parts with points between: bare words, or strings on one line.  The last part
names an entry in the table that the parts before it lead to.
-/

namespace LinkBridge.Toml

open Text

/-- Keys have no more parts than this, and values are nested no deeper. -/
def maxNesting : Nat := 79

structure Key where
  path : List String
  name : String
deriving DecidableEq, Repr

namespace Key

def isBare (c : Char) : Bool := c.isAlphanum || c == '_' || c == '-'

def part : Reader String
  | [] => none
  | c :: rest =>
    if c = '\x22' ∨ c = '\x27' then shortString c rest
    else
      let word := (c :: rest).takeWhile isBare
      if word.isEmpty then none else some (String.ofList word, (c :: rest).dropWhile isBare)

def spacedPart (cs : List Char) : Option (String × List Char) :=
  (part (skipSpaces cs)).map fun (s, rest) => (s, skipSpaces rest)

def ofParts? (parts : List String) : Option Key :=
  if parts.length > maxNesting then none
  else parts.getLast?.map fun name => { path := parts.dropLast, name }

def read (cs : List Char) : Option (Key × List Char) :=
  (separated spacedPart '.' cs).bind fun (parts, rest) =>
    (ofParts? parts).map fun key => (key, rest)

end Key
end LinkBridge.Toml
