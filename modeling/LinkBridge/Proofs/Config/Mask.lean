import LinkBridge.Config.Mask
import LinkBridge.Proofs.Text.Blank
import LinkBridge.Proofs.Text.Numeral

/-!
The texts of loopback masks.

A hexadecimal mask is a numeral of base sixteen, perhaps behind its mark, with underscores anywhere
among the digits (`Writes`).  All of these are read as what they write, but reading is more lenient
than that: it drops the mark as often as it stands there, and it takes a plus sign in front of the
digits (`read_accepts`).  So a slip such as a doubled mark is not refused
(`doubled_mark_accepted`).
-/

namespace LinkBridge.Mask

open Text Digits

variable {cs body rest sign : List Char} {text : String} {marks n : Nat}

/-- A text behind so many marks of a hexadecimal number. -/
def marked (marks : Nat) (body : List Char) : List Char :=
  (List.replicate marks ['0', 'x']).flatten ++ body

/-- A text writes a number of 32 bits, behind some marks and a sign.  Underscores stand for
nothing. -/
inductive Writes (marks : Nat) (sign : List Char) : List Char → Nat → Prop
  | written {before body digits after : List Char} {n : Nat}
      (hbefore : Blanks before) (hbody : body.filter (· != '_') = sign ++ digits)
      (hdigits : Numeral 16 digits n) (hfits : n < 2 ^ 32) (hafter : Blanks after) :
      Writes marks sign (before ++ marked marks body ++ after) n

/-- The signs that are taken: none and a plus. -/
def signs : List (List Char) := [[], ['+']]

theorem mem_signs : sign ∈ signs ↔ sign = [] ∨ sign = ['+'] := by
  simp only [signs, List.mem_cons, List.not_mem_nil, or_false]

/-! ### Marks and signs -/

theorem marked_succ (marks : Nat) (body : List Char) :
    marked (marks + 1) body = '0' :: 'x' :: marked marks body := rfl

theorem exists_dropMarks (cs : List Char) : ∃ marks, cs = marked marks (dropMarks cs) := by
  fun_induction dropMarks cs with
  | case1 rest ih =>
    obtain ⟨marks, hrest⟩ := ih
    exact ⟨marks + 1, by rw [marked_succ, ← hrest]⟩
  | case2 cs => exact ⟨0, rfl⟩

theorem dropMarks_marked (hbody : 'x' ∉ body) (marks : Nat) :
    dropMarks (marked marks body) = body := by
  induction marks with
  | zero =>
    show dropMarks body = body
    unfold dropMarks
    split
    · simp at hbody
    · rfl
  | succ marks ih => rw [marked_succ, dropMarks, ih]

theorem exists_dropPlus (cs : List Char) : ∃ sign ∈ signs, cs = sign ++ dropPlus cs := by
  unfold dropPlus
  split
  · exact ⟨['+'], by simp [signs], rfl⟩
  · exact ⟨[], by simp [signs], rfl⟩

theorem dropPlus_sign (hsign : sign ∈ signs) (hrest : '+' ∉ rest) :
    dropPlus (sign ++ rest) = rest := by
  obtain rfl | rfl := mem_signs.mp hsign
  · rw [List.nil_append]
    unfold dropPlus
    split
    · simp at hrest
    · rfl
  · rfl

/-! ### What stands in a mask -/

/-- What may stand behind the marks. -/
def inside : List Char := '_' :: '+' :: (figures ++ capitals)

theorem mem_inside (hsign : sign ∈ signs) {digits : List Char}
    (hbody : body.filter (· != '_') = sign ++ digits) (hdigits : Numeral 16 digits n) :
    ∀ c ∈ body, c ∈ inside := by
  intro c hc
  by_cases hpad : c = '_'
  · exact hpad ▸ List.mem_cons_self
  · have hkept : c ∈ sign ++ digits := by
      rw [← hbody]
      exact List.mem_filter.mpr ⟨hc, by simpa using hpad⟩
    rcases List.mem_append.mp hkept with hc | hc
    · obtain rfl | rfl := mem_signs.mp hsign
      · exact nomatch hc
      · exact List.mem_cons_of_mem _ (List.mem_singleton.mp hc ▸ List.mem_cons_self)
    · exact List.mem_cons_of_mem _ (List.mem_cons_of_mem _ (hdigits.mem hc))

theorem mark_not_mem (hbody : ∀ c ∈ body, c ∈ inside) : 'x' ∉ body :=
  fun hx => absurd (hbody 'x' hx) (by decide)

theorem plus_not_mem (hdigits : Numeral 16 rest n) : '+' ∉ rest :=
  fun hplus => absurd (hdigits.mem hplus) (by decide)

theorem mem_marked {c : Char} (hc : c ∈ marked marks body) : c = '0' ∨ c = 'x' ∨ c ∈ body := by
  rcases List.mem_append.mp hc with hmark | hbody
  · obtain ⟨mark, hmark, hc⟩ := List.mem_flatten.mp hmark
    rw [List.eq_of_mem_replicate hmark] at hc
    simp only [List.mem_cons, List.not_mem_nil, or_false] at hc
    exact hc.imp_right .inl
  · exact .inr (.inr hbody)

theorem bare_marked (hbody : ∀ c ∈ body, c ∈ inside) (marks : Nat) : Bare (marked marks body) := by
  have hinside : ∀ c ∈ '0' :: 'x' :: inside, (!isBlank c) = true := List.all_eq_true.mp (by decide)
  refine bare_of_forall fun c hc => (Bool.not_eq_true' _).mp (hinside c ?_)
  rcases mem_marked hc with rfl | rfl | hc
  · exact List.mem_cons_self
  · exact List.mem_cons_of_mem _ List.mem_cons_self
  · exact List.mem_cons_of_mem _ (List.mem_cons_of_mem _ (hbody c hc))

theorem count_marked (hbody : 'x' ∉ body) (marks : Nat) :
    (marked marks body).count 'x' = marks := by
  induction marks with
  | zero => exact List.count_eq_zero_of_not_mem hbody
  | succ marks ih => simp [marked_succ, ih]

theorem Writes.fits (h : Writes marks sign cs n) : n < 2 ^ 32 := by
  cases h with
  | written _ _ _ hfits _ => exact hfits

/-- A text tells how many marks it has. -/
theorem Writes.count_eq (hsign : sign ∈ signs) (h : Writes marks sign cs n) :
    cs.count 'x' = marks := by
  cases h with
  | @written before body digits after _ hbefore hbody hdigits _ hafter =>
    have hx := mark_not_mem (mem_inside hsign hbody hdigits)
    have hblank : ∀ cs : List Char, Blanks cs → cs.count 'x' = 0 :=
      fun cs hcs => List.count_eq_zero_of_not_mem (hcs.not_mem (by decide))
    rw [List.count_append, List.count_append, count_marked hx, hblank _ hbefore, hblank _ hafter]
    omega

/-- A text tells whether it has a sign. -/
theorem Writes.sign_eq_nil_iff (hsign : sign ∈ signs) (h : Writes marks sign cs n) :
    sign = [] ↔ '+' ∉ cs := by
  cases h with
  | @written before body digits after _ hbefore hbody hdigits _ hafter =>
    have hblank : isBlank '+' = false := by decide
    have hkept : '+' ∈ body ↔ '+' ∈ sign ++ digits := by
      rw [← hbody, List.mem_filter]
      simp
    constructor
    · rintro rfl hplus
      rcases List.mem_append.mp hplus with hplus | hplus
      · rcases List.mem_append.mp hplus with hplus | hplus
        · exact hbefore.not_mem hblank hplus
        · rcases mem_marked hplus with hplus | hplus | hplus
          · exact absurd hplus (by decide)
          · exact absurd hplus (by decide)
          · exact plus_not_mem hdigits (hkept.mp hplus)
      · exact hafter.not_mem hblank hplus
    · intro hplus
      obtain rfl | rfl := mem_signs.mp hsign
      · rfl
      · have hbody := hkept.mpr (List.mem_append_left _ List.mem_cons_self)
        refine absurd (List.mem_append_left after (List.mem_append_right before ?_)) hplus
        exact List.mem_append_right _ hbody

/-! ### Reading -/

theorem exists_writes_of_read {m : UInt32} (h : read text = .ok m) :
    ∃ marks, ∃ sign ∈ signs, Writes marks sign text.toList m.toNat := by
  unfold read at h
  split at h
  · rename_i n hn
    split at h
    · rename_i hfits
      obtain rfl := Except.ok.inj h
      obtain ⟨-, before, after, htext, hbefore, hafter⟩ :=
        trim_eq_iff.mp (Eq.refl (trim text.toList))
      obtain ⟨marks, hmarks⟩ := exists_dropMarks (trim text.toList)
      obtain ⟨sign, hsign, hbody⟩ :=
        exists_dropPlus ((dropMarks (trim text.toList)).filter (· != '_'))
      refine ⟨marks, sign, hsign, ?_⟩
      rw [UInt32.toNat_ofNat_of_lt' hfits, htext, hmarks]
      exact .written hbefore hbody ((read?_eq_some_iff (by decide)).mp hn) hfits hafter
    · exact nomatch h
  · exact nomatch h

theorem read_of_writes (hsign : sign ∈ signs) {m : UInt32}
    (h : Writes marks sign text.toList m.toNat) : read text = .ok m := by
  generalize hcs : text.toList = cs at h
  generalize hm : m.toNat = n at h
  cases h with
  | @written before body digits after _ hbefore hbody hdigits hfits hafter =>
    have hinside := mem_inside hsign hbody hdigits
    have htrim : trim text.toList = marked marks body :=
      trim_eq_iff.mpr ⟨bare_marked hinside marks, before, after, hcs, hbefore, hafter⟩
    have hread : read? 16 (Mask.digits text) = some n := by
      rw [Mask.digits, htrim, dropMarks_marked (mark_not_mem hinside), hbody,
        dropPlus_sign hsign (plus_not_mem hdigits)]
      exact (read?_eq_some_iff (by decide)).mpr hdigits
    unfold read
    rw [hread]
    simp only
    rw [if_pos (show n < limit32 from hfits), ← hm, UInt32.ofNat_toNat]

/-- There is one cause of failing, and it names the text. -/
theorem eq_notHex_of_read {cause : ReadError} (h : read text = .error cause) :
    cause = .notHex text := by
  unfold read at h
  split at h
  · split at h
    · exact nomatch h
    · exact (Except.error.inj h).symm
  · exact (Except.error.inj h).symm

theorem ofInt_eq_ok_iff {k : Int} {m : UInt32} : ofInt k = .ok m ↔ k = m.toNat := by
  unfold ofInt
  split
  · rename_i h
    obtain ⟨n, rfl⟩ := Int.eq_ofNat_of_zero_le h.1
    have hfits : n < 2 ^ 32 := by exact_mod_cast h.2
    rw [Except.ok.injEq, ← UInt32.toNat_inj, Int.toNat_natCast, UInt32.toNat_ofNat_of_lt' hfits]
    exact Int.ofNat_inj.symm
  · rename_i h
    refine ⟨nofun, ?_⟩
    rintro rfl
    have hlt := m.toNat_lt
    exact absurd ⟨Int.natCast_nonneg _, by exact_mod_cast hlt⟩ h

/-- Read are the texts that write a number of 32 bits, behind any number of marks and perhaps a plus
sign; every other text is refused and named.  The texts with one mark at most and no sign are the
hexadecimal masks.  A mask given as a number is that number. -/
theorem read_accepts (text : String) :
    (∀ m, read text = .ok m ↔
      ∃ marks, ∃ sign ∈ signs, Writes marks sign text.toList m.toNat) ∧
    (∀ m, (read text = .ok m ∧ text.toList.count 'x' ≤ 1 ∧ '+' ∉ text.toList) ↔
      ∃ marks ≤ 1, Writes marks [] text.toList m.toNat) ∧
    (read text = .error (.notHex text) ↔
      ¬∃ n marks, ∃ sign ∈ signs, Writes marks sign text.toList n) ∧
    ∀ (k : Int) (m : UInt32), ofInt k = .ok m ↔ k = m.toNat := by
  refine ⟨fun m => ⟨exists_writes_of_read, ?_⟩, fun m => ⟨?_, ?_⟩, ⟨?_, ?_⟩,
    fun k m => ofInt_eq_ok_iff⟩
  · rintro ⟨marks, sign, hsign, h⟩
    exact read_of_writes hsign h
  · rintro ⟨hread, hcount, hplus⟩
    obtain ⟨marks, sign, hsign, h⟩ := exists_writes_of_read hread
    rw [h.count_eq hsign] at hcount
    obtain rfl := (h.sign_eq_nil_iff hsign).mpr hplus
    exact ⟨marks, hcount, h⟩
  · rintro ⟨marks, hmarks, h⟩
    have hsign : [] ∈ signs := List.mem_cons_self
    exact ⟨read_of_writes hsign h, h.count_eq hsign ▸ hmarks, (h.sign_eq_nil_iff hsign).mp rfl⟩
  · rintro herror ⟨n, marks, sign, hsign, h⟩
    have hn : (UInt32.ofNat n).toNat = n := UInt32.toNat_ofNat_of_lt' h.fits
    rw [read_of_writes hsign (hn.symm ▸ h)] at herror
    exact nomatch herror
  · intro hnone
    cases hread : read text with
    | ok m =>
      obtain ⟨marks, sign, hsign, h⟩ := exists_writes_of_read hread
      exact absurd ⟨m.toNat, marks, sign, hsign, h⟩ hnone
    | error cause => rw [eq_notHex_of_read hread]

/-- A doubled mark is read over, though the text is no hexadecimal mask. -/
theorem doubled_mark_accepted :
    read "0x0x12" = .ok 18 ∧ ¬∃ marks ≤ 1, ∃ n, Writes marks [] "0x0x12".toList n := by
  refine ⟨by decide, ?_⟩
  rintro ⟨marks, hmarks, n, h⟩
  have hcount := h.count_eq List.mem_cons_self
  have htwo : "0x0x12".toList.count 'x' = 2 := by decide
  omega

end LinkBridge.Mask
