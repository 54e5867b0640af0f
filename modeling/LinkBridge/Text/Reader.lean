/-!
Reading texts from the left.

A reader takes what it recognises off the front of a text and gives the rest.
-/

namespace LinkBridge.Text

/-- Something read off the front of a text, and the rest. -/
abbrev Reader (α : Type) := List Char → Option (α × List Char)

def word? (word : String) (cs : List Char) : Option (List Char) :=
  if word.toList.isPrefixOf cs then some (cs.drop word.length) else none

/-- One or more items with a separator between.  An item that takes nothing of the text ends the
reading, so that it always ends. -/
def separated {α : Type} (item : Reader α) (separator : Char) (cs : List Char) :
    Option (List α × List Char) :=
  match item cs with
  | none => none
  | some (a, []) => some ([a], [])
  | some (a, c :: rest) =>
    if c = separator then
      if _h : rest.length < cs.length then
        (separated item separator rest).map fun (as, rest) => (a :: as, rest)
      else none
    else some ([a], c :: rest)
termination_by cs.length

def codePoint? (n : Nat) : Option Char := if n.isValidChar then some (Char.ofNat n) else none

end LinkBridge.Text
