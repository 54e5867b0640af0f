import LinkBridge.Text.Blank
import Mathlib.Data.List.TakeWhile

/-!
Trimming.

A text is taken apart into blanks, a core with no blank at either end, and blanks again.  There is
one such way only, and `trim` finds it (`trim_eq_iff`): so a grammar that allows blanks around
something is read by trimming, whatever it allows between them.
-/

namespace LinkBridge.Text

variable {cs core before after : List Char}

def Blanks (cs : List Char) : Prop := ∀ c ∈ cs, isBlank c = true

theorem Blanks.not_mem {c : Char} (h : Blanks cs) (hc : isBlank c = false) : c ∉ cs := by
  intro hmem
  rw [h c hmem] at hc
  cases hc

theorem Blanks.append (hbefore : Blanks before) (hafter : Blanks after) :
    Blanks (before ++ after) :=
  fun c hc => (List.mem_append.mp hc).elim (hbefore c) (hafter c)

theorem Blanks.reverse (h : Blanks cs) : Blanks cs.reverse :=
  fun c hc => h c (List.mem_reverse.mp hc)

/-- No blank stands at either end. -/
structure Bare (cs : List Char) : Prop where
  head : ∀ c ∈ cs.head?, isBlank c = false
  last : ∀ c ∈ cs.getLast?, isBlank c = false

theorem bare_of_forall (h : ∀ c ∈ cs, isBlank c = false) : Bare cs :=
  ⟨fun c hc => h c (List.mem_of_head? hc), fun c hc => h c (List.mem_of_getLast? hc)⟩

theorem trimEnd_eq (cs : List Char) : trimEnd cs = (trimStart cs.reverse).reverse := rfl

theorem trimStart_append (hbefore : Blanks before) (hcore : ∀ c ∈ core.head?, isBlank c = false) :
    trimStart (before ++ core) = core := by
  rw [trimStart, List.dropWhile_append_of_pos hbefore]
  cases core with
  | nil => rfl
  | cons c rest =>
    have hc := hcore c rfl
    exact List.dropWhile_cons_of_neg (by simp [hc])

theorem trimEnd_append (hafter : Blanks after) (hcore : ∀ c ∈ core.getLast?, isBlank c = false) :
    trimEnd (core ++ after) = core := by
  rw [trimEnd_eq, List.reverse_append, trimStart_append hafter.reverse, List.reverse_reverse]
  rwa [List.head?_reverse]

/-- What is dropped at the start is blank, and what is left begins with no blank. -/
theorem exists_trimStart (cs : List Char) :
    ∃ before, cs = before ++ trimStart cs ∧ Blanks before ∧
      ∀ c ∈ (trimStart cs).head?, isBlank c = false := by
  refine ⟨cs.takeWhile isBlank, List.takeWhile_append_dropWhile.symm,
    fun c hc => List.mem_takeWhile_imp hc, fun c hc => ?_⟩
  have hnot := List.head?_dropWhile_not isBlank cs
  rw [show (cs.dropWhile isBlank).head? = some c from hc] at hnot
  simpa using hnot

theorem exists_trimEnd (cs : List Char) :
    ∃ after, cs = trimEnd cs ++ after ∧ Blanks after ∧
      ∀ c ∈ (trimEnd cs).getLast?, isBlank c = false := by
  obtain ⟨before, hcs, hbefore, hhead⟩ := exists_trimStart cs.reverse
  refine ⟨before.reverse, ?_, hbefore.reverse, ?_⟩
  · rw [trimEnd_eq, ← List.reverse_append, ← hcs, List.reverse_reverse]
  · rwa [trimEnd_eq, List.getLast?_reverse]

theorem bare_trim (cs : List Char) : Bare (trim cs) := by
  obtain ⟨after, hcs, -, hlast⟩ := exists_trimEnd (trimStart cs)
  obtain ⟨-, -, -, hhead⟩ := exists_trimStart cs
  refine ⟨fun c hc => hhead c ?_, hlast⟩
  rw [hcs, List.head?_append, show (trimEnd (trimStart cs)).head? = some c from hc]
  rfl

/-- There is one way to take blanks off both ends. -/
theorem trim_eq_iff :
    trim cs = core ↔
      Bare core ∧ ∃ before after, cs = before ++ core ++ after ∧ Blanks before ∧ Blanks after := by
  constructor
  · rintro rfl
    obtain ⟨before, hstart, hbefore, -⟩ := exists_trimStart cs
    obtain ⟨after, hend, hafter, -⟩ := exists_trimEnd (trimStart cs)
    refine ⟨bare_trim cs, before, after, ?_, hbefore, hafter⟩
    rw [List.append_assoc, trim, ← hend, ← hstart]
  · rintro ⟨hcore, before, after, rfl, hbefore, hafter⟩
    rw [List.append_assoc, trim]
    cases core with
    | nil =>
      have hnil : trimStart (before ++ after ++ []) = [] :=
        trimStart_append (hbefore.append hafter) nofun
      rw [List.nil_append, ← List.append_nil (before ++ after), hnil]
      rfl
    | cons c rest =>
      rw [trimStart_append hbefore (by simpa using hcore.head), trimEnd_append hafter hcore.last]

theorem trim_eq_nil_iff : trim cs = [] ↔ Blanks cs := by
  rw [trim_eq_iff]
  constructor
  · rintro ⟨-, before, after, rfl, hbefore, hafter⟩
    rw [List.append_nil]
    exact hbefore.append hafter
  · exact fun h => ⟨⟨nofun, nofun⟩, cs, [], by simp, h, nofun⟩

/-- Something is left of a text exactly if a character of it is not blank. -/
theorem isEmpty_trim_eq_false_iff :
    (trim cs).isEmpty = false ↔ ∃ c ∈ cs, isBlank c = false := by
  rw [← Bool.not_eq_true, List.isEmpty_iff, trim_eq_nil_iff, Blanks]
  simp only [not_forall, exists_prop, Bool.not_eq_true]

end LinkBridge.Text
