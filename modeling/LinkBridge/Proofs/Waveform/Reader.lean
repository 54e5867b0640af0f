import LinkBridge.Proofs.Text.Digits
import LinkBridge.Waveform.Recording

/-!
Reading value change dumps.

What a viewer makes of a dump, from its text alone: each line is a declaration, a time stamp, a
change of a value or nothing of these (`readLine`), and the value of a variable at an instant is the
last one that stands before any later time stamp (`replay`).  The lines that a recording writes are
then read as what they were written for.
-/

namespace LinkBridge.Waveform

/-- What stands between separators.  Nothing follows a separator at the end. -/
def pieces (separator : Char) : List Char → List (List Char)
  | [] => []
  | c :: rest =>
    if c = separator then [] :: pieces separator rest
    else
      match pieces separator rest with
      | [] => [[c]]
      | piece :: more => (c :: piece) :: more

/-- What a line tells a viewer. -/
inductive Entry where
  | variable (width : Nat) (code name : List Char)
  | instant (fs : Nat)
  | change (code : List Char) (value : Nat)
  | other
deriving DecidableEq, Repr

def readLine : List Char → Entry
  | '#' :: digits => ((Digits.read? 10 digits).map .instant).getD .other
  | '0' :: code => .change code 0
  | '1' :: code => .change code 1
  | 'b' :: line =>
    match pieces ' ' line with
    | [digits, code] => ((Digits.read? 2 digits).map (.change code)).getD .other
    | _ => .other
  | line =>
    match (pieces ' ' line).map String.ofList with
    | ["$var", "wire", width, code, name, "$end"] =>
      ((Digits.read? 10 width.toList).map (.variable · code.toList name.toList)).getD .other
    | _ => .other

def entries (text : String) : List Entry := (pieces '\n' text.toList).map readLine

/-- The code that is declared for a name. -/
def codeOf (name : List Char) (read : List Entry) : Option (List Char) :=
  read.findSome? fun
    | .variable _ code declared => if declared = name then some code else none
    | _ => none

/-- The value that a code is left with by the changes up to an instant. -/
def valueAt (t : Nat) (code : List Char) : Option Nat → List Entry → Option Nat
  | value, [] => value
  | value, .instant fs :: rest => if fs ≤ t then valueAt t code value rest else value
  | value, .change changed new :: rest =>
    valueAt t code (if changed = code then some new else value) rest
  | value, .variable .. :: rest | value, .other :: rest => valueAt t code value rest

/-- The value of a variable after all changes up to and including an instant. -/
def replay (text name : String) (t : Nat) : Option Nat :=
  (codeOf name.toList (entries text)).bind fun code => valueAt t code none (entries text)

/-! ### Lines -/

section Lines

variable {separator : Char} {piece : List Char}

theorem pieces_append_cons (h : separator ∉ piece) (rest : List Char) :
    pieces separator (piece ++ separator :: rest) = piece :: pieces separator rest := by
  induction piece with
  | nil => rw [List.nil_append, pieces, if_pos rfl]
  | cons c piece ih =>
    obtain ⟨hc, hpiece⟩ := List.ne_and_not_mem_of_not_mem_cons h
    rw [List.cons_append, pieces, if_neg (Ne.symm hc), ih hpiece]

theorem pieces_of_not_mem (h : separator ∉ piece) (hne : piece ≠ []) :
    pieces separator piece = [piece] := by
  induction piece with
  | nil => exact absurd rfl hne
  | cons c piece ih =>
    obtain ⟨hc, hpiece⟩ := List.ne_and_not_mem_of_not_mem_cons h
    rw [pieces, if_neg (Ne.symm hc)]
    cases piece with
    | nil => rfl
    | cons d piece => rw [ih hpiece (List.cons_ne_nil d piece)]

theorem readLine_instant (fs : Nat) : readLine ('#' :: Digits.render 10 fs) = .instant fs := by
  show ((Digits.read? 10 (Digits.render 10 fs)).map Entry.instant).getD .other = .instant fs
  rw [Digits.read?_render (by decide) (by decide)]
  rfl

theorem readLine_vector {digits code : List Char} {value : Nat} (hdigits : ' ' ∉ digits)
    (hcode : ' ' ∉ code) (hne : code ≠ []) (hread : Digits.read? 2 digits = some value) :
    readLine ('b' :: (digits ++ ' ' :: code)) = .change code value := by
  have hpieces : pieces ' ' (digits ++ ' ' :: code) = [digits, code] := by
    rw [pieces_append_cons hdigits, pieces_of_not_mem hcode hne]
  show (match pieces ' ' (digits ++ ' ' :: code) with
    | [digits, code] => ((Digits.read? 2 digits).map (Entry.change code)).getD .other
    | _ => .other) = .change code value
  rw [hpieces]
  show ((Digits.read? 2 digits).map (Entry.change code)).getD .other = .change code value
  rw [hread]
  rfl

/-- Lines as one text, each with a newline at its end. -/
def page (lines : List String) : String := lines.foldl (fun text line => text ++ line ++ "\n") ""

theorem toList_page (lines : List String) :
    (page lines).toList = lines.flatMap fun line => line.toList ++ ['\n'] := by
  have happend : ∀ (lines : List String) (text : String),
      (lines.foldl (fun text line => text ++ line ++ "\n") text).toList =
        text.toList ++ lines.flatMap fun line => line.toList ++ ['\n'] := by
    intro lines
    induction lines with
    | nil => exact fun text => (List.append_nil _).symm
    | cons line rest ih =>
      intro text
      rw [List.foldl_cons, ih, String.toList_append, String.toList_append, List.flatMap_cons,
        List.append_assoc, List.append_assoc, List.append_assoc]
      rfl
  exact happend lines ""

theorem pieces_page {lines : List String} (h : ∀ line ∈ lines, '\n' ∉ line.toList) :
    pieces '\n' (page lines).toList = lines.map String.toList := by
  rw [toList_page]
  induction lines with
  | nil => rfl
  | cons line rest ih =>
    have hrest := ih fun other hother => h other (List.mem_cons_of_mem line hother)
    rw [List.flatMap_cons, List.append_assoc, List.singleton_append,
      pieces_append_cons (h line List.mem_cons_self), hrest, List.map_cons]

theorem text_eq_page (d : Dump) : d.text = page (d.lines.toList.map Line.text) := by
  rw [Dump.text, page, List.foldl_map, Array.foldl_toList]

end Lines

end LinkBridge.Waveform
