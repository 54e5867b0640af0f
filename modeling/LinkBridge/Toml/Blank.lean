/-!
Characters, blanks and line ends of a TOML text.

Line ends are single line feeds here: a carriage return in front of one is dropped before anything
is read.
-/

namespace LinkBridge.Toml

def unifyLineEnds : List Char → List Char
  | '\r' :: '\n' :: rest => '\n' :: unifyLineEnds rest
  | c :: rest => c :: unifyLineEnds rest
  | [] => []

def isSpace (c : Char) : Bool := c == ' ' || c == '\t'

/-- Characters that may stand for themselves in a string or a comment: the tab, and everything that
is no ASCII control character. -/
def isPlain (c : Char) : Bool := c == '\t' || (' ' ≤ c && c != '\x7f')

def skipSpaces (cs : List Char) : List Char := cs.dropWhile isSpace

/-- Drops spaces, line ends and comments, starting inside a comment or not. -/
def skipGapFrom (inComment : Bool) : List Char → List Char
  | [] => []
  | c :: rest =>
    if c == '\n' then skipGapFrom false rest
    else if inComment then if isPlain c then skipGapFrom true rest else c :: rest
    else if isSpace c then skipGapFrom false rest
    else if c == '#' then skipGapFrom true rest
    else c :: rest

def skipGap (cs : List Char) : List Char := skipGapFrom false cs

/-- The next line, if nothing but spaces and a comment is left of this one. -/
def nextLine? (cs : List Char) : Option (List Char) :=
  let cs := skipSpaces cs
  let cs :=
    match cs with
    | '#' :: comment => comment.dropWhile isPlain
    | _ => cs
  match cs with
  | [] => some []
  | '\n' :: rest => some rest
  | _ => none

end LinkBridge.Toml
