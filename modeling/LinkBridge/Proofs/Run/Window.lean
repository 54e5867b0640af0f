import LinkBridge.Run.Scan
import Mathlib.Data.List.Chain
import Mathlib.Data.List.MinMax
import Mathlib.Data.List.Nodup

/-!
The window of a scan.

The search goes through the results once, with the first tap of the run that is open, and closes a
run where the next result has errors.  Of results in the order of their taps it misses no run
(`exists_cleanRun_of_range`).  If each tap follows the one before, then it finds clean runs only
(`forall_cleanRuns`), one after the other (`ordered_cleanRuns`), and the first of the widest is the
eye, which every run that is not the eye is either narrower than or later than
(`window_leftmost_widest`).
-/

namespace LinkBridge.Scan

/-! ### One result -/

/-- The next result has no errors either. -/
def goesOn (rest : List TapResult) : Bool := rest.head?.any fun next => next.errors = 0

section Steps

variable {r : TapResult} {rest : List TapResult}

theorem cleanRuns_of_errors (hr : r.errors ≠ 0) (start : Option Nat) :
    cleanRuns start (r :: rest) = cleanRuns none rest := by
  rw [cleanRuns, if_neg hr]

theorem cleanRuns_of_goesOn (hr : r.errors = 0) (hnext : goesOn rest = true) (start : Option Nat) :
    cleanRuns start (r :: rest) = cleanRuns (some (start.getD r.tap)) rest := by
  rw [cleanRuns, if_pos hr]
  exact if_pos hnext

/-- A run that is closed leaves none open. -/
theorem cleanRuns_of_ends (hr : r.errors = 0) (hnext : goesOn rest = false) (start : Option Nat) :
    cleanRuns start (r :: rest) = ⟨start.getD r.tap, r.tap⟩ :: cleanRuns none rest := by
  have hclosed : ∀ start, cleanRuns start rest = cleanRuns none rest := by
    intro start
    cases rest with
    | nil => rfl
    | cons q rest =>
      have hq : q.errors ≠ 0 := by simpa [goesOn] using hnext
      rw [cleanRuns_of_errors hq, cleanRuns_of_errors hq]
  rw [cleanRuns, if_pos hr]
  refine (if_neg (Bool.eq_false_iff.mp hnext)).trans ?_
  rw [hclosed]

end Steps

/-! ### What the search covers -/

/-- By their taps the results are in order. -/
abbrev Sorted (results : List TapResult) : Prop := results.Pairwise fun a b => a.tap < b.tap

/-- A run that is open, or begins here, goes on as long as there are no errors. -/
theorem exists_cleanRun_of_head {r : TapResult} {rest : List TapResult} (hr : r.errors = 0)
    (hsorted : Sorted (r :: rest)) (start : Option Nat) :
    ∃ w ∈ cleanRuns start (r :: rest), w.first = start.getD r.tap ∧ r.tap ≤ w.last ∧
      ∀ x ∈ rest.takeWhile (·.errors = 0), x.tap ≤ w.last := by
  induction rest generalizing r start with
  | nil =>
    rw [cleanRuns_of_ends hr rfl]
    exact ⟨_, List.mem_cons_self, rfl, Nat.le_refl _, nofun⟩
  | cons q rest ih =>
    obtain ⟨hfirst, hrest⟩ := List.pairwise_cons.mp hsorted
    by_cases hq : q.errors = 0
    · obtain ⟨w, hw, hwfirst, hwq, hwrest⟩ := ih hq hrest (some (start.getD r.tap))
      rw [cleanRuns_of_goesOn hr (by simpa [goesOn] using hq)]
      refine ⟨w, hw, hwfirst, Nat.le_trans (Nat.le_of_lt (hfirst q List.mem_cons_self)) hwq, ?_⟩
      rw [List.takeWhile_cons_of_pos (by simpa using hq)]
      exact List.forall_mem_cons.mpr ⟨hwq, hwrest⟩
    · rw [cleanRuns_of_ends hr (by simpa [goesOn] using hq)]
      refine ⟨_, List.mem_cons_self, rfl, Nat.le_refl _, ?_⟩
      rw [List.takeWhile_cons_of_neg (by simpa using hq)]
      exact nofun

theorem exists_cleanRun {before rest : List TapResult} {r : TapResult} (hr : r.errors = 0)
    (hsorted : Sorted (before ++ r :: rest)) {start : Option Nat}
    (hstart : ∀ first ∈ start, ∀ x ∈ before ++ r :: rest, first ≤ x.tap) :
    ∃ w ∈ cleanRuns start (before ++ r :: rest), w.first ≤ r.tap ∧ r.tap ≤ w.last ∧
      ∀ x ∈ rest.takeWhile (·.errors = 0), x.tap ≤ w.last := by
  induction before generalizing start with
  | nil =>
    obtain ⟨w, hw, hwfirst, hlast⟩ := exists_cleanRun_of_head hr hsorted start
    refine ⟨w, hw, ?_, hlast⟩
    rw [hwfirst]
    cases start with
    | none => exact Nat.le_refl _
    | some first => exact hstart first rfl r List.mem_cons_self
  | cons b before ih =>
    obtain ⟨hfirst, hrest⟩ := List.pairwise_cons.mp hsorted
    rw [List.cons_append]
    by_cases hb : b.errors = 0
    · cases hnext : goesOn (before ++ r :: rest) with
      | true =>
        rw [cleanRuns_of_goesOn hb hnext]
        refine ih hrest fun first hmem x hx => ?_
        obtain rfl := Option.some.inj hmem
        cases start with
        | none => exact Nat.le_of_lt (hfirst x hx)
        | some first => exact hstart first rfl x (List.mem_cons_of_mem b hx)
      | false =>
        obtain ⟨w, hw, hcovers⟩ : ∃ w ∈ cleanRuns none (before ++ r :: rest), _ := ih hrest nofun
        rw [cleanRuns_of_ends hb hnext]
        exact ⟨w, List.mem_cons_of_mem _ hw, hcovers⟩
    · rw [cleanRuns_of_errors hb]
      exact ih hrest nofun

/-- Taps without errors that follow one another lie in one run. -/
theorem exists_cleanRun_of_range {results : List TapResult} (hsorted : Sorted results)
    {low high : TapResult} (hlow : low ∈ results) (hhigh : high ∈ results)
    (hle : low.tap ≤ high.tap)
    (hclean : ∀ r ∈ results, low.tap ≤ r.tap → r.tap ≤ high.tap → r.errors = 0) :
    ∃ w ∈ cleanRuns none results, w.first ≤ low.tap ∧ high.tap ≤ w.last := by
  obtain ⟨before, rest, rfl⟩ := List.append_of_mem hlow
  have hclosed : ∀ first ∈ (none : Option Nat), ∀ x ∈ before ++ low :: rest, first ≤ x.tap :=
    fun _ h => nomatch h
  obtain ⟨w, hw, hfirst, hlast, hcovers⟩ :=
    exists_cleanRun (hclean low hlow (Nat.le_refl _) hle) hsorted hclosed
  refine ⟨w, hw, hfirst, ?_⟩
  obtain ⟨-, hafter, hbefore⟩ := List.pairwise_append.mp hsorted
  rcases List.mem_append.mp hhigh with hearlier | hlater
  · have hlt := hbefore high hearlier low List.mem_cons_self
    omega
  · rcases List.mem_cons.mp hlater with rfl | hmem
    · exact hlast
    · refine hcovers high ?_
      obtain ⟨between, after, rfl⟩ := List.append_of_mem hmem
      obtain ⟨hlows, hhighs⟩ := List.pairwise_cons.mp hafter
      have hbetween : ∀ x ∈ between, decide (x.errors = 0) = true := by
        intro x hx
        have hlt := hlows x (List.mem_append_left _ hx)
        have hgt := (List.pairwise_append.mp hhighs).2.2 x hx high List.mem_cons_self
        exact decide_eq_true (hclean x (by simp [hx]) (by omega) (by omega))
      have hzero : decide (high.errors = 0) = true :=
        decide_eq_true (hclean high hhigh hle (Nat.le_refl _))
      rw [List.takeWhile_append_of_pos hbetween,
        List.takeWhile_cons_of_pos (p := fun x : TapResult => decide (x.errors = 0)) hzero]
      exact List.mem_append_right _ List.mem_cons_self

/-! ### What the search finds -/

variable {results : List TapResult} {w : EyeWindow}

/-- Each tap follows the one before. -/
abbrev Consecutive (results : List TapResult) : Prop :=
  results.IsChain fun a b => b.tap = a.tap + 1

/-- A tap was scored without errors. -/
def IsClean (results : List TapResult) (tap : Nat) : Prop :=
  ∃ r ∈ results, r.tap = tap ∧ r.errors = 0

structure CleanRun (results : List TapResult) (w : EyeWindow) : Prop where
  first_le_last : w.first ≤ w.last
  clean : ∀ tap, w.first ≤ tap → tap ≤ w.last → IsClean results tap

/-- Every run that is found goes through taps without errors only.  Of an open run this has to be
known up to the next result. -/
theorem forall_cleanRuns {P : Nat → Prop} (hconsecutive : Consecutive results)
    (hclean : ∀ r ∈ results, r.errors = 0 → P r.tap) {start : Option Nat}
    (hstart : ∀ first ∈ start, ∀ r ∈ results.head?,
      first ≤ r.tap ∧ ∀ tap, first ≤ tap → tap < r.tap → P tap) :
    ∀ w ∈ cleanRuns start results,
      w.first ≤ w.last ∧ ∀ tap, w.first ≤ tap → tap ≤ w.last → P tap := by
  induction results generalizing start with
  | nil => exact fun _ hw => nomatch hw
  | cons r rest ih =>
    obtain ⟨hnow, hlater⟩ := List.forall_mem_cons.mp hclean
    by_cases hr : r.errors = 0
    · have hopen : start.getD r.tap ≤ r.tap ∧
          ∀ tap, start.getD r.tap ≤ tap → tap ≤ r.tap → P tap := by
        have hlast : ∀ tap, tap = r.tap → P tap := fun tap htap => htap ▸ hnow hr
        cases start with
        | none => exact ⟨Nat.le_refl _, fun tap hle hge => hlast tap (Nat.le_antisymm hge hle)⟩
        | some first =>
          obtain ⟨hle, hbefore⟩ := hstart first rfl r rfl
          refine ⟨hle, fun tap hfirst htap => ?_⟩
          rcases Nat.lt_or_eq_of_le htap with hlt | heq
          · exact hbefore tap hfirst hlt
          · exact hlast tap heq
      cases hnext : goesOn rest with
      | true =>
        rw [cleanRuns_of_goesOn hr hnext]
        refine ih hconsecutive.tail hlater fun first hfirst q hq => ?_
        obtain rfl := Option.some.inj hfirst
        obtain ⟨rest, rfl⟩ := List.head?_eq_some_iff.mp hq
        have htap : q.tap = r.tap + 1 := hconsecutive.rel
        rw [htap]
        exact ⟨Nat.le_succ_of_le hopen.1,
          fun tap hle hlt => hopen.2 tap hle (Nat.le_of_lt_succ hlt)⟩
      | false =>
        rw [cleanRuns_of_ends hr hnext]
        exact List.forall_mem_cons.mpr ⟨hopen, ih hconsecutive.tail hlater nofun⟩
    · rw [cleanRuns_of_errors hr]
      exact ih hconsecutive.tail hlater nofun

theorem cleanRun_of_mem (hconsecutive : Consecutive results) (hw : w ∈ cleanRuns none results) :
    CleanRun results w := by
  have hclosed : ∀ first ∈ (none : Option Nat), ∀ r ∈ results.head?,
      first ≤ r.tap ∧ ∀ tap, first ≤ tap → tap < r.tap → IsClean results tap := nofun
  obtain ⟨hle, hclean⟩ :=
    forall_cleanRuns hconsecutive (fun r hr hzero => ⟨r, hr, rfl, hzero⟩) hclosed w hw
  exact ⟨hle, hclean⟩

/-- A run that is found was open before, or begins with one of the results. -/
theorem first_of_mem {start : Option Nat} (hw : w ∈ cleanRuns start results) :
    w.first ∈ start ∨ ∃ r ∈ results, r.tap = w.first := by
  induction results generalizing start with
  | nil =>
    rw [cleanRuns] at hw
    exact nomatch hw
  | cons r rest ih =>
    have hlater : (∃ q ∈ rest, q.tap = w.first) → ∃ q ∈ r :: rest, q.tap = w.first :=
      fun ⟨q, hq, hfirst⟩ => ⟨q, List.mem_cons_of_mem r hq, hfirst⟩
    have hopen : w.first = start.getD r.tap →
        w.first ∈ start ∨ ∃ q ∈ r :: rest, q.tap = w.first := by
      intro hfirst
      cases start with
      | none => exact .inr ⟨r, List.mem_cons_self, hfirst.symm⟩
      | some first => exact .inl (congrArg some hfirst.symm)
    by_cases hr : r.errors = 0
    · cases hnext : goesOn rest with
      | true =>
        rw [cleanRuns_of_goesOn hr hnext] at hw
        rcases ih hw with hfirst | hfirst
        · exact hopen (Option.some.inj hfirst).symm
        · exact .inr (hlater hfirst)
      | false =>
        rw [cleanRuns_of_ends hr hnext] at hw
        rcases List.mem_cons.mp hw with rfl | hw
        · exact hopen rfl
        · exact .inr (hlater ((ih hw).resolve_left nofun))
    · rw [cleanRuns_of_errors hr] at hw
      exact .inr (hlater ((ih hw).resolve_left nofun))

/-- The runs are found from the left to the right. -/
theorem ordered_cleanRuns (hsorted : Sorted results) {start : Option Nat}
    (hstart : ∀ first ∈ start, ∀ r ∈ results, first ≤ r.tap) :
    (cleanRuns start results).Pairwise fun v w => v.first < w.first := by
  induction results generalizing start with
  | nil => exact .nil
  | cons r rest ih =>
    obtain ⟨hlater, hrest⟩ := List.pairwise_cons.mp hsorted
    have hclosed : (cleanRuns none rest).Pairwise fun v w => v.first < w.first := ih hrest nofun
    by_cases hr : r.errors = 0
    · have hopen : start.getD r.tap ≤ r.tap := by
        cases start with
        | none => exact Nat.le_refl _
        | some first => exact hstart first rfl r List.mem_cons_self
      cases hnext : goesOn rest with
      | true =>
        rw [cleanRuns_of_goesOn hr hnext]
        refine ih hrest fun first hfirst q hq => ?_
        obtain rfl := Option.some.inj hfirst
        exact Nat.le_trans hopen (Nat.le_of_lt (hlater q hq))
      | false =>
        rw [cleanRuns_of_ends hr hnext]
        refine List.pairwise_cons.mpr ⟨fun w hw => ?_, hclosed⟩
        obtain ⟨q, hq, hfirst⟩ := (first_of_mem hw).resolve_left nofun
        rw [← hfirst]
        exact Nat.lt_of_le_of_lt hopen (hlater q hq)
    · rw [cleanRuns_of_errors hr]
      exact hclosed

/-! ### The eye -/

/-- A run without errors that ends on both sides.  No such run is wider, and those that are as wide
come later. -/
structure IsEye (results : List TapResult) (w : EyeWindow) : Prop where
  run : CleanRun results w
  ends_below : ∀ tap, tap + 1 = w.first → ¬IsClean results tap
  ends_above : ¬IsClean results (w.last + 1)
  widest : ∀ v, CleanRun results v → v.width ≤ w.width
  leftmost : ∀ v, CleanRun results v → v ≠ w → v.width = w.width → w.first < v.first

theorem IsEye.unique {v : EyeWindow} (hv : IsEye results v) (hw : IsEye results w) : v = w := by
  by_contra hne
  have hwidth := Nat.le_antisymm (hv.widest w hw.run) (hw.widest v hv.run)
  have hlt := hv.leftmost w hw.run (Ne.symm hne) hwidth
  have hgt := hw.leftmost v hv.run hne hwidth.symm
  omega

theorem widest_eq_argmax (windows : List EyeWindow) :
    widest windows = windows.argmax EyeWindow.width := by
  unfold widest List.argmax
  congr 1
  funext best w
  cases best <;> rfl

theorem eq_of_tap_eq (hsorted : Sorted results) {a b : TapResult} (ha : a ∈ results)
    (hb : b ∈ results) (htap : a.tap = b.tap) : a = b := by
  have hnodup : (results.map TapResult.tap).Nodup :=
    List.pairwise_map.mpr (hsorted.imp Nat.ne_of_lt)
  exact List.inj_on_of_nodup_map hnodup ha hb htap

/-- No run without errors is missed. -/
theorem CleanRun.exists_mem (hsorted : Sorted results) (h : CleanRun results w) :
    ∃ u ∈ cleanRuns none results, u.first ≤ w.first ∧ w.last ≤ u.last := by
  obtain ⟨low, hlow, hfirst, -⟩ := h.clean w.first (Nat.le_refl _) h.first_le_last
  obtain ⟨high, hhigh, hlast, -⟩ := h.clean w.last h.first_le_last (Nat.le_refl _)
  rw [← hfirst, ← hlast]
  refine exists_cleanRun_of_range hsorted hlow hhigh ?_ fun r hr hle hge => ?_
  · rw [hfirst, hlast]
    exact h.first_le_last
  · obtain ⟨q, hq, htap, hzero⟩ := h.clean r.tap (hfirst ▸ hle) (hlast ▸ hge)
    rwa [← eq_of_tap_eq hsorted hq hr htap]

theorem CleanRun.single {r : TapResult} (hr : r ∈ results) (hzero : r.errors = 0) :
    CleanRun results ⟨r.tap, r.tap⟩ :=
  ⟨Nat.le_refl _, fun _ hle hge => ⟨r, hr, Nat.le_antisymm hle hge, hzero⟩⟩

theorem CleanRun.below (h : CleanRun results w) {tap : Nat} (htap : tap + 1 = w.first)
    (hclean : IsClean results tap) : CleanRun results ⟨tap, w.last⟩ := by
  have hle := h.first_le_last
  refine ⟨show tap ≤ w.last by omega, fun t (hlow : tap ≤ t) hhigh => ?_⟩
  rcases Nat.eq_or_lt_of_le hlow with rfl | hlt
  · exact hclean
  · exact h.clean t (by omega) hhigh

theorem CleanRun.above (h : CleanRun results w) (hclean : IsClean results (w.last + 1)) :
    CleanRun results ⟨w.first, w.last + 1⟩ := by
  refine ⟨Nat.le_succ_of_le h.first_le_last, fun t hlow (hhigh : t ≤ w.last + 1) => ?_⟩
  rcases Nat.eq_or_lt_of_le hhigh with rfl | hlt
  · exact hclean
  · exact h.clean t hlow (Nat.le_of_lt_succ hlt)

theorem isEye_of_widestWindow (hconsecutive : Consecutive results) (hsorted : Sorted results)
    (hw : widestWindow results = some w) : IsEye results w := by
  rw [widestWindow, widest_eq_argmax] at hw
  have hmem := List.argmax_mem hw
  have hrun := cleanRun_of_mem hconsecutive hmem
  have hle := hrun.first_le_last
  have hwidest : ∀ v, CleanRun results v → v.width ≤ w.width := by
    intro v hv
    obtain ⟨u, hu, hfirst, hlast⟩ := hv.exists_mem hsorted
    have huw := List.le_of_mem_argmax hu hw
    have hvle := hv.first_le_last
    unfold EyeWindow.width at *
    omega
  refine ⟨hrun, fun tap htap hclean => ?_, fun hclean => ?_, hwidest, fun v hv hne hwidth => ?_⟩
  · have hwider := hwidest _ (hrun.below htap hclean)
    simp only [EyeWindow.width] at hwider
    omega
  · have hwider := hwidest _ (hrun.above hclean)
    simp only [EyeWindow.width] at hwider
    omega
  · -- A run as wide as the widest is found itself, and what is found later begins later.
    obtain ⟨u, hu, hfirst, hlast⟩ := hv.exists_mem hsorted
    have huw := List.le_of_mem_argmax hu hw
    have hvle := hv.first_le_last
    obtain rfl : u = v := by
      obtain ⟨ufirst, ulast⟩ := u
      obtain ⟨vfirst, vlast⟩ := v
      simp only [EyeWindow.width, EyeWindow.mk.injEq] at *
      omega
    have hindex := List.index_of_argmax hw hu (Nat.le_of_eq hwidth.symm)
    have hapart : (cleanRuns none results).idxOf w ≠ (cleanRuns none results).idxOf u :=
      fun heq => hne ((List.idxOf_inj hmem).mp heq).symm
    have hordered : (cleanRuns none results).Pairwise fun v w => v.first < w.first :=
      ordered_cleanRuns hsorted nofun
    have hlater := List.pairwise_iff_getElem.mp hordered _ _ (List.idxOf_lt_length_iff.mpr hmem)
      (List.idxOf_lt_length_iff.mpr hu) (Nat.lt_of_le_of_ne hindex hapart)
    simpa only [List.getElem_idxOf] using hlater

theorem widestWindow_eq_none_iff (hconsecutive : Consecutive results) (hsorted : Sorted results) :
    widestWindow results = none ↔ ∀ r ∈ results, r.errors ≠ 0 := by
  rw [widestWindow, widest_eq_argmax, List.argmax_eq_none]
  constructor
  · intro hnone r hr hzero
    obtain ⟨u, hu, -⟩ := (CleanRun.single hr hzero).exists_mem hsorted
    rw [hnone] at hu
    exact nomatch hu
  · intro herrors
    refine List.eq_nil_iff_forall_not_mem.mpr fun w hw => ?_
    have hrun := cleanRun_of_mem hconsecutive hw
    obtain ⟨r, hr, -, hzero⟩ := hrun.clean w.first (Nat.le_refl _) hrun.first_le_last
    exact herrors r hr hzero

/-- The search finds the eye, if there is one, and its middle.  No tap or width that it compares on
the way is larger than a byte. -/
theorem window_leftmost_widest {t0 : Nat}
    (htaps : results.map TapResult.tap = List.range' t0 results.length)
    (hlength : results.length ≤ 255) (hbyte : ∀ r ∈ results, r.tap < 256) :
    (widestWindow results = none ↔ ∀ r ∈ results, r.errors ≠ 0) ∧
      (∀ w, widestWindow results = some w ↔ IsEye results w) ∧
      (∀ w, widestWindow results = some w →
        w.center = w.first + (w.last - w.first) / 2 ∧ w.first ≤ w.center ∧ w.center ≤ w.last) ∧
      ∀ v, CleanRun results v → v.last < 256 ∧ v.width < 256 := by
  have hconsecutive : Consecutive results := by
    rw [Consecutive, ← List.isChain_map (R := fun a b => b = a + 1), htaps]
    exact List.isChain_range' t0 results.length 1
  have hsorted : Sorted results := by
    rw [Sorted, ← List.pairwise_map, htaps]
    exact List.pairwise_lt_range'
  have hnone := widestWindow_eq_none_iff hconsecutive hsorted
  refine ⟨hnone, fun w => ⟨isEye_of_widestWindow hconsecutive hsorted, fun h => ?_⟩,
    fun w hw => ?_, fun v hv => ?_⟩
  · cases hfound : widestWindow results with
    | none =>
      obtain ⟨r, hr, -, hzero⟩ := h.run.clean w.first (Nat.le_refl _) h.run.first_le_last
      exact absurd hzero (hnone.mp hfound r hr)
    | some v => rw [(isEye_of_widestWindow hconsecutive hsorted hfound).unique h]
  · have hle := (isEye_of_widestWindow hconsecutive hsorted hw).run.first_le_last
    refine ⟨rfl, ?_⟩
    unfold EyeWindow.center
    omega
  · have hrange : ∀ tap, IsClean results tap → t0 ≤ tap ∧ tap < t0 + results.length := by
      rintro tap ⟨r, hr, rfl, -⟩
      have htap := List.mem_map_of_mem (f := TapResult.tap) hr
      rw [htaps] at htap
      exact List.mem_range'_1.mp htap
    obtain ⟨high, hhigh, htap, -⟩ := hv.clean v.last hv.first_le_last (Nat.le_refl _)
    have hfirst := hrange _ (hv.clean v.first (Nat.le_refl _) hv.first_le_last)
    have hlast := hrange _ (hv.clean v.last hv.first_le_last (Nat.le_refl _))
    refine ⟨htap ▸ hbyte high hhigh, ?_⟩
    unfold EyeWindow.width
    omega

/-- Of two runs of one width the lower one is the eye, also with the last taps that fit in a
byte. -/
theorem window_leftmost_widest_of_tie :
    let results : List TapResult := [⟨251, 0⟩, ⟨252, 0⟩, ⟨253, 7⟩, ⟨254, 0⟩, ⟨255, 0⟩]
    results.map TapResult.tap = List.range' 251 results.length ∧ results.length ≤ 255 ∧
      (∀ r ∈ results, r.tap < 256) ∧ IsEye results ⟨251, 252⟩ := by
  intro results
  have htaps : results.map TapResult.tap = List.range' 251 results.length := rfl
  have hlength : results.length ≤ 255 := by decide
  have hbyte : ∀ r ∈ results, r.tap < 256 := by decide
  refine ⟨htaps, hlength, hbyte, ?_⟩
  exact ((window_leftmost_widest htaps hlength hbyte).2.1 ⟨251, 252⟩).mp (by decide)

end LinkBridge.Scan
