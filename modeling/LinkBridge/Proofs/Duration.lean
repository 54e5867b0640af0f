import LinkBridge.Duration
import LinkBridge.Proofs.Text.Blank
import LinkBridge.Proofs.Text.Numeral

/-!
The texts of durations.

A duration is written as a numeral and the symbol of a unit, with blanks allowed at both ends and
between the two (`Writes`).  Reading cuts such a text where the writer joined it: trimming finds the
outer blanks, no blank and no symbol begins with a digit, and a symbol is its own trimmed form.  So
a text is read as a span exactly if it writes that span (`read_iff_writes`).
-/

namespace LinkBridge

open Text Digits

theorem Time.ofNat?_eq_some_iff {fs : Nat} {t : Time} : Time.ofNat? fs = some t ↔ t.fs = fs := by
  unfold Time.ofNat?
  split
  · rw [Option.some.injEq, Time.ext_iff]
    exact eq_comm
  · rename_i hlate
    have hle := t.le_last
    exact ⟨nofun, fun h => absurd (h ▸ hle) hlate⟩

namespace TimeUnit

variable {u : TimeUnit}

theorem bare_symbol (u : TimeUnit) : Bare u.symbol.toList := by
  cases u <;> constructor <;> rintro c ⟨⟩ <;> decide

theorem symbol_head (u : TimeUnit) : ∀ c ∈ u.symbol.toList.head?, c.isDigit = false := by
  cases u <;> rintro c ⟨⟩ <;> decide

theorem symbol_ne_nil (u : TimeUnit) : u.symbol.toList ≠ [] := by
  cases u <;> decide

theorem find?_symbol {symbol : String} :
    all.find? (fun u => u.symbol = symbol) = some u ↔ u.symbol = symbol := by
  constructor
  · intro h
    simpa using List.find?_some h
  · rintro rfl
    cases u <;> decide

end TimeUnit

namespace Duration

variable {cs digits rest : List Char} {t : Time}

/-- The symbols of the units, and the femtoseconds in each. -/
def units : List (String × Nat) :=
  [("fs", 10 ^ 0), ("ps", 10 ^ 3), ("ns", 10 ^ 6), ("us", 10 ^ 9), ("ms", 10 ^ 12), ("s", 10 ^ 15)]

/-- A text writes a span of so many femtoseconds.  The count and the span both fit in 64 bits. -/
inductive Writes : List Char → Nat → Prop
  | written {before digits between after : List Char} {symbol : String} {count unit : Nat}
      (hbefore : Blanks before) (hdigits : Numeral 10 digits count) (hbetween : Blanks between)
      (hunit : (symbol, unit) ∈ units) (hafter : Blanks after)
      (hcount : count < 2 ^ 64) (hspan : count * unit < 2 ^ 64) :
      Writes (before ++ digits ++ between ++ symbol.toList ++ after) (count * unit)

theorem mem_units_iff {symbol : String} {unit : Nat} :
    (symbol, unit) ∈ units ↔ ∃ u : TimeUnit, u.symbol = symbol ∧ u.femtoseconds = unit := by
  constructor
  · intro h
    simp only [units, List.mem_cons, Prod.mk.injEq, List.not_mem_nil, or_false] at h
    obtain ⟨rfl, rfl⟩ | ⟨rfl, rfl⟩ | ⟨rfl, rfl⟩ | ⟨rfl, rfl⟩ | ⟨rfl, rfl⟩ | ⟨rfl, rfl⟩ := h
    exacts [⟨.fs, rfl, rfl⟩, ⟨.ps, rfl, rfl⟩, ⟨.ns, rfl, rfl⟩, ⟨.us, rfl, rfl⟩, ⟨.ms, rfl, rfl⟩,
      ⟨.s, rfl, rfl⟩]
  · rintro ⟨u, rfl, rfl⟩
    cases u <;> decide

/-! ### The digits in front -/

theorem isDigit_of_numeral {count : Nat} (h : Numeral 10 digits count) :
    ∀ c ∈ digits, c.isDigit = true := by
  intro c hc
  have hall : ∀ c ∈ figures.take 10 ++ capitals.take 10, c.isDigit = true :=
    List.all_eq_true.mp (by decide)
  exact hall c (h.mem hc)

theorem not_isBlank_of_isDigit {c : Char} (h : c.isDigit = true) : isBlank c = false := by
  have hcode : 48 ≤ c.toNat ∧ c.toNat ≤ 57 := Char.isDigit_iff_toNat.mp h
  simp only [isBlank, Bool.or_eq_false_iff, Bool.and_eq_false_iff, decide_eq_false_iff_not,
    beq_eq_false_iff_ne]
  omega

/-- The digits end where something else begins. -/
theorem cut_digits (hdigits : ∀ c ∈ digits, c.isDigit = true)
    (hrest : ∀ c ∈ rest.head?, c.isDigit = false) :
    (digits ++ rest).takeWhile Char.isDigit = digits ∧
      (digits ++ rest).dropWhile Char.isDigit = rest := by
  rw [List.takeWhile_append_of_pos hdigits, List.dropWhile_append_of_pos hdigits]
  cases rest with
  | nil => simp
  | cons c rest => simp [hrest c rfl]

theorem utf8ByteSize_digits (hdigits : ∀ c ∈ digits, c.isDigit = true) :
    (String.ofList digits).utf8ByteSize = digits.length := by
  induction digits with
  | nil => rfl
  | cons c rest ih =>
    obtain ⟨hc, hrest⟩ := List.forall_mem_cons.mp hdigits
    have hcode : c.toNat ≤ 57 := (Char.isDigit_iff_toNat.mp hc).2
    have hsize : c.utf8Size = 1 :=
      Char.utf8Size_eq_one_iff.mpr (UInt32.le_iff_toNat_le.mpr (Nat.le_trans hcode (by decide)))
    rw [← List.singleton_append, String.ofList_append, String.utf8ByteSize_append, ih hrest,
      ← String.singleton_eq_ofList, String.utf8ByteSize_singleton, hsize, List.length_append]
    rfl

/-- Digits take one byte each, so the byte that a text is cut at begins a character. -/
theorem isValid_digits (cs : List Char) :
    (String.Pos.Raw.mk (cs.takeWhile Char.isDigit).length).IsValid (String.ofList cs) := by
  refine String.Pos.Raw.isValid_iff_exists_append.mpr
    ⟨String.ofList (cs.takeWhile Char.isDigit), String.ofList (cs.dropWhile Char.isDigit), ?_, ?_⟩
  · rw [← String.ofList_append, List.takeWhile_append_dropWhile]
  · refine String.Pos.Raw.ext ?_
    rw [String.byteIdx_rawEndPos, utf8ByteSize_digits fun c hc => List.mem_takeWhile_imp hc]

/-! ### The symbol behind -/

theorem head_between {between : List Char} (hbetween : Blanks between) (u : TimeUnit) :
    ∀ c ∈ (between ++ u.symbol.toList).head?, c.isDigit = false := by
  intro c hc
  cases between with
  | nil => exact u.symbol_head c hc
  | cons b rest =>
    obtain rfl := Option.some.inj hc
    refine Bool.eq_false_iff.mpr fun hdigit => ?_
    exact hbetween.not_mem (not_isBlank_of_isDigit hdigit) List.mem_cons_self

theorem bare_digits (hne : digits ≠ []) (hdigits : ∀ c ∈ digits, c.isDigit = true)
    (between : List Char) (u : TimeUnit) : Bare (digits ++ (between ++ u.symbol.toList)) := by
  constructor
  · intro c hc
    obtain ⟨d, rest, rfl⟩ := List.exists_cons_of_ne_nil hne
    obtain rfl := Option.some.inj hc
    exact not_isBlank_of_isDigit (hdigits d List.mem_cons_self)
  · rw [← List.append_assoc, List.getLast?_append_of_ne_nil _ u.symbol_ne_nil]
    exact u.bare_symbol.last

/-! ### Reading -/

theorem readTrimmed_eq_ok_iff :
    readTrimmed cs = .ok t ↔ ∃ count, ∃ u : TimeUnit,
      read? 10 (cs.takeWhile Char.isDigit) = some count ∧ count ≤ Time.lastFs ∧
        trim (cs.dropWhile Char.isDigit) = u.symbol.toList ∧ t.fs = count * u.femtoseconds := by
  unfold readTrimmed
  simp only
  constructor
  · intro h
    split at h
    · exact nomatch h
    rename_i count hcount
    split at h
    · exact nomatch h
    rename_i hle
    split at h
    · exact nomatch h
    split at h
    · exact nomatch h
    rename_i u hu
    split at h
    · rename_i t' ht
      obtain rfl := Except.ok.inj h
      have hsymbol := congrArg String.toList (TimeUnit.find?_symbol.mp hu)
      rw [String.toList_ofList] at hsymbol
      exact ⟨count, u, hcount, Nat.le_of_not_lt hle, hsymbol.symm, Time.ofNat?_eq_some_iff.mp ht⟩
    · exact nomatch h
  · rintro ⟨count, u, hcount, hle, hsymbol, ht⟩
    have hne : u.symbol ≠ "" := fun h => u.symbol_ne_nil (congrArg String.toList h)
    simp only [hcount, hsymbol, String.ofList_toList]
    rw [if_neg (Nat.not_lt_of_le hle), if_neg hne, TimeUnit.find?_symbol.mpr rfl]
    simp only [Time.ofNat?_eq_some_iff.mpr ht]

theorem read_eq_ok_iff {text : String} :
    read text = .ok t ↔ readTrimmed (trim text.toList) = .ok t := by
  unfold read
  split
  · rename_i hnil
    rw [hnil]
    exact ⟨nofun, nofun⟩
  · exact Iff.rfl

theorem readTrimmed_ne_empty : readTrimmed cs ≠ .error .empty := by
  intro h
  unfold readTrimmed at h
  simp only at h
  split at h
  · exact nomatch h
  split at h
  · exact nomatch h
  split at h
  · exact nomatch h
  split at h
  · exact nomatch h
  split at h
  · exact nomatch h
  · exact nomatch h

/-- Only a text with nothing but blanks is refused as empty. -/
theorem read_eq_empty_iff {text : String} :
    read text = .error .empty ↔ trim text.toList = [] := by
  unfold read
  split
  · rename_i hnil
    exact iff_of_true rfl hnil
  · rename_i hne
    exact iff_of_false readTrimmed_ne_empty hne

theorem writes_of_read {text : String} (h : read text = .ok t) : Writes text.toList t.fs := by
  obtain ⟨count, u, hcount, hle, hsymbol, ht⟩ := readTrimmed_eq_ok_iff.mp (read_eq_ok_iff.mp h)
  obtain ⟨-, before, after, htext, hbefore, hafter⟩ := trim_eq_iff.mp (Eq.refl (trim text.toList))
  obtain ⟨-, between, inner, hrest, hbetween, hinner⟩ := trim_eq_iff.mp hsymbol
  have hlast := t.le_last
  have hparts := Writes.written hbefore ((read?_eq_some_iff (by decide)).mp hcount) hbetween
    (mem_units_iff.mpr ⟨u, rfl, rfl⟩) (hinner.append hafter)
    (show count < 2 ^ 64 from Nat.lt_succ_of_le hle)
    (show count * u.femtoseconds < 2 ^ 64 from ht ▸ Nat.lt_succ_of_le hlast)
  have hcut := List.takeWhile_append_dropWhile (p := Char.isDigit) (l := trim text.toList)
  rw [ht, htext, ← hcut, hrest]
  simpa only [List.append_assoc] using hparts

theorem exists_read_of_writes {text : String} {fs : Nat} (h : Writes text.toList fs) :
    ∃ t, read text = .ok t ∧ t.fs = fs := by
  generalize hcs : text.toList = cs at h
  cases h with
  | @written before digits between after symbol count unit hbefore hdigits hbetween hunit hafter
      hcount hspan =>
    obtain ⟨u, rfl, rfl⟩ := mem_units_iff.mp hunit
    have hall := isDigit_of_numeral hdigits
    obtain ⟨htake, hdrop⟩ := cut_digits hall (head_between hbetween u)
    have htrim : trim text.toList = digits ++ (between ++ u.symbol.toList) :=
      trim_eq_iff.mpr
        ⟨bare_digits hdigits.1 hall between u, before, after, by simp [hcs], hbefore, hafter⟩
    have hsymbol : trim (between ++ u.symbol.toList) = u.symbol.toList :=
      trim_eq_iff.mpr ⟨u.bare_symbol, between, [], by simp, hbetween, nofun⟩
    refine ⟨⟨count * u.femtoseconds, Nat.le_of_lt_succ hspan⟩, ?_, rfl⟩
    rw [read_eq_ok_iff, readTrimmed_eq_ok_iff, htrim, htake, hdrop]
    exact ⟨count, u, (read?_eq_some_iff (by decide)).mpr hdigits, Nat.le_of_lt_succ hcount,
      hsymbol, rfl⟩

theorem exists_read_iff {text : String} :
    (∃ t, read text = .ok t) ↔ ∃ fs, Writes text.toList fs := by
  constructor
  · rintro ⟨t, hread⟩
    exact ⟨t.fs, writes_of_read hread⟩
  · rintro ⟨fs, hwrites⟩
    obtain ⟨t, hread, -⟩ := exists_read_of_writes hwrites
    exact ⟨t, hread⟩

/-- A text is read as a span exactly if it writes that span, and is refused if it writes none.  The
digits are cut off where a character begins. -/
theorem read_iff_writes (text : String) :
    (∀ t, read text = .ok t ↔ Writes text.toList t.fs) ∧
      ((∃ cause, read text = .error cause) ↔ ¬∃ fs, Writes text.toList fs) ∧
      (String.Pos.Raw.mk ((trim text.toList).takeWhile Char.isDigit).length).IsValid
        (String.ofList (trim text.toList)) := by
  refine ⟨fun t => ⟨writes_of_read, fun h => ?_⟩, ⟨?_, fun hnone => ?_⟩, isValid_digits _⟩
  · obtain ⟨t', hread, hfs⟩ := exists_read_of_writes h
    obtain rfl := Time.ext hfs
    exact hread
  · rintro ⟨cause, herror⟩ ⟨fs, h⟩
    obtain ⟨t, hread, -⟩ := exists_read_of_writes h
    rw [herror] at hread
    exact nomatch hread
  · cases hread : read text with
    | ok t => exact absurd ⟨t.fs, writes_of_read hread⟩ hnone
    | error cause => exact ⟨cause, rfl⟩

end Duration
end LinkBridge
