import LinkBridge.Text.Digits
import LinkBridge.Text.Reader
import LinkBridge.Toml.Blank

/-!
Quoted strings.

Double quotes allow escapes and single quotes do not; three quotes of either kind allow line ends.
A string over several lines may hold one or two quotes in a row, also right before its end.
-/

namespace LinkBridge.Toml

/-- A character given by a fixed count of hexadecimal digits. -/
def scalar? (count : Nat) (cs : List Char) : Option Char :=
  let digits := cs.take count
  if digits.length < count then none else (Digits.read? 16 digits).bind Text.codePoint?

/-- The character of an escape after its backslash, and how many characters the escape takes. -/
def escape? : List Char → Option (Char × Nat)
  | [] => none
  | c :: rest =>
    if c = 'b' then some ('\x08', 1)
    else if c = 't' then some ('\t', 1)
    else if c = 'n' then some ('\n', 1)
    else if c = 'f' then some ('\x0c', 1)
    else if c = 'r' then some ('\r', 1)
    else if c = '\x22' ∨ c = '\\' then some (c, 1)
    else if c = 'u' then (scalar? 4 rest).map fun s => (s, 5)
    else if c = 'U' then (scalar? 8 rest).map fun s => (s, 9)
    else none

/-- What is left behind a backslash at the end of a line: the text from the next character that is
neither a space nor a line end. -/
def joinLines? (cs : List Char) : Option (List Char) :=
  match skipSpaces cs with
  | '\n' :: _ => some (cs.dropWhile fun c => isSpace c || c == '\n')
  | _ => none

/-- The string up to its closing quotes, the opening ones being read.  `lines` says whether it may
have several lines and so ends in three quotes. -/
def quotedBody (quote : Char) (lines : Bool) (cs : List Char) : Option (List Char × List Char) :=
  match cs with
  | [] => none
  | c :: rest =>
    if c = quote then
      if lines then
        let run := 1 + (rest.takeWhile (· == quote)).length
        if run < 3 then (quotedBody quote lines rest).map fun (s, rest) => (c :: s, rest)
        else if run ≤ 5 then some (List.replicate (run - 3) quote, rest.drop (run - 1))
        else none
      else some ([], rest)
    else if c = '\\' ∧ quote = '\x22' then
      match if lines then joinLines? rest else none with
      | some next => if _h : next.length ≤ rest.length then quotedBody quote lines next else none
      | none =>
        match escape? rest with
        | some (e, count) =>
          (quotedBody quote lines (rest.drop count)).map fun (s, rest) => (e :: s, rest)
        | none => none
    else if isPlain c || (lines && c == '\n') then
      (quotedBody quote lines rest).map fun (s, rest) => (c :: s, rest)
    else none
termination_by cs.length
decreasing_by all_goals simp only [List.length_cons, List.length_drop]; omega

/-- A string on one line, the opening quote being read. -/
def shortString (quote : Char) (cs : List Char) : Option (String × List Char) :=
  (quotedBody quote false cs).map fun (s, rest) => (String.ofList s, rest)

/-- A string over several lines, the opening quotes being read.  A line end right after them does
not count. -/
def longString (quote : Char) (cs : List Char) : Option (String × List Char) :=
  let cs :=
    match cs with
    | '\n' :: rest => rest
    | _ => cs
  (quotedBody quote true cs).map fun (s, rest) => (String.ofList s, rest)

/-- A string of any kind, its first quote being read. -/
def anyString (quote : Char) (cs : List Char) : Option (String × List Char) :=
  match cs with
  | a :: b :: rest => if a = quote ∧ b = quote then longString quote rest else shortString quote cs
  | _ => shortString quote cs

end LinkBridge.Toml
