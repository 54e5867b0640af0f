import LinkBridge.Pattern.Checker

/-!
Mismatches in a stream of samples.

What a checker counts can be read off the samples alone.  In the counting pattern a sample is wrong
if it does not count up from its predecessor.  In the pseudo-random pattern a first half and a
second half right after it are a word, and a word is wrong if its fields do not fit each other, or
if its value does not come after that of the word before.  The checker only ever remembers the last
sample and the last word, so its count is that of the samples it was given since it was cleared
(`Counted.check`).
-/

namespace LinkBridge

/-- Each element of a list with the one before it. -/
def withPrevious {α : Type} (l : List α) : List (Option α × α) := (none :: l.map some).zip l

theorem withPrevious_concat {α : Type} (l : List α) (a : α) :
    withPrevious (l ++ [a]) = withPrevious l ++ [(l.getLast?, a)] := by
  have hfrom : ∀ before : Option α, (before :: (l ++ [a]).map some).zip (l ++ [a]) =
      (before :: l.map some).zip l ++ [(l.getLast?.or before, a)] := by
    induction l with
    | nil => exact fun _ => rfl
    | cons v rest ih =>
      intro before
      have hlast : (v :: rest).getLast?.or before = rest.getLast?.or (some v) := by
        rw [List.getLast?_cons]
        cases rest.getLast? <;> rfl
      rw [hlast]
      exact congrArg ((before, v) :: ·) (ih (some v))
  have hnone := hfrom none
  rw [Option.or_none] at hnone
  exact hnone

/-- How many elements of a list are in a relation with the one before. -/
def countAfter {α : Type} (r : Option α → α → Bool) (l : List α) : Nat :=
  (withPrevious l).countP fun (before, now) => r before now

theorem countAfter_concat {α : Type} (r : Option α → α → Bool) (l : List α) (a : α) :
    countAfter r (l ++ [a]) = countAfter r l + (r l.getLast? a).toNat := by
  unfold countAfter
  rw [withPrevious_concat, List.countP_append, List.countP_singleton]
  congr 1
  show (if r l.getLast? a = true then 1 else 0) = _
  cases r l.getLast? a <;> rfl

def LinkWord.fields (w : LinkWord) : UInt16 × UInt16 :=
  (w.phase0 &&& fieldMask, w.phase1 &&& fieldMask)

namespace PrbsFields

def ofHalves (first second : LinkWord) : PrbsFields :=
  ⟨first.fields.1, first.fields.2, second.fields.1, second.fields.2⟩

/-- The value that the fields carry, if they fit each other. -/
def word (f : PrbsFields) : UInt16 := value f.ai f.bi

end PrbsFields

/-! ### The two patterns -/

/-- A sample whose fields are not one up from those of the sample before.  The first sample of a
stream has nothing to be compared with. -/
def miscounts (before : Option LinkSample) (now : LinkSample) : Bool :=
  before.any fun before =>
    now.word.fields != (nextCount before.word.fields.1, nextCount before.word.fields.2)

/-- The word that a sample completes, if it is a second half right after a first half. -/
def completes (before : Option LinkSample) (now : LinkSample) : Option PrbsFields :=
  if now.isFirst then none
  else (before.filter (·.isFirst)).map fun first => .ofHalves first.word now.word

def prbsWords (samples : List LinkSample) : List PrbsFields :=
  (withPrevious samples).filterMap fun (before, now) => completes before now

/-- A word whose fields are not those of one value, or whose value is not the next one after that of
the word before. -/
def breaksOff (before : Option PrbsFields) (now : PrbsFields) : Bool :=
  PrbsFields.ofValue now.word != now ||
    before.any fun before => (Prbs.ofState before.word).next.state != now.word

def mismatches : PatternMode → List LinkSample → Nat
  | .count, samples => countAfter miscounts samples
  | .prbs, samples => countAfter breaksOff (prbsWords samples)

theorem prbsWords_concat (samples : List LinkSample) (s : LinkSample) :
    prbsWords (samples ++ [s]) = prbsWords samples ++ (completes samples.getLast? s).toList := by
  unfold prbsWords
  rw [withPrevious_concat, List.filterMap_append]
  cases h : completes samples.getLast? s <;> simp [h]

/-- Whether a sample is one more mismatch behind the samples before it. -/
def mismatched : PatternMode → List LinkSample → LinkSample → Bool
  | .count, samples, s => miscounts samples.getLast? s
  | .prbs, samples, s =>
    (completes samples.getLast? s).any (breaksOff (prbsWords samples).getLast?)

theorem mismatches_concat (m : PatternMode) (samples : List LinkSample) (s : LinkSample) :
    mismatches m (samples ++ [s]) =
      mismatches m samples + (mismatched m samples s).toNat := by
  cases m with
  | count => exact countAfter_concat _ _ _
  | prbs =>
    simp only [mismatches, mismatched, prbsWords_concat]
    cases completes samples.getLast? s with
    | none => simp
    | some now => exact countAfter_concat _ _ _

/-! ### What the checker remembers -/

/-- What is left of a stream of samples in the memory of a checker. -/
def Remembers : PatternMode → List LinkSample → CheckerMemory → Prop
  | .count, samples, mem => mem.lastCount = samples.getLast?.map (·.word.fields)
  | .prbs, samples, mem =>
    mem.firstHalf = (samples.getLast?.filter (·.isFirst)).map (·.word) ∧
      mem.lastPrbs = (prbsWords samples).getLast?.map (·.word)

theorem remembers_nil (m : PatternMode) : Remembers m [] {} := by
  cases m with
  | count => rfl
  | prbs => exact ⟨rfl, rfl⟩

theorem checkCount_eq (mem : CheckerMemory) {before : Option LinkSample}
    (h : mem.lastCount = before.map (·.word.fields)) (s : LinkSample) :
    mem.checkCount s.word =
      ({ mem with lastCount := some s.word.fields }, miscounts before s) := by
  unfold CheckerMemory.checkCount
  rw [h]
  cases before <;> rfl

/-- A first half is kept in the place of whatever was there. -/
theorem checkPrbs_of_first (mem : CheckerMemory) {s : LinkSample} (hs : s.isFirst = true) :
    mem.checkPrbs s = ({ mem with firstHalf := some s.word }, false) := by
  unfold CheckerMemory.checkPrbs
  rw [hs]
  rfl

theorem checkPrbs_of_lone (mem : CheckerMemory) (hfirst : mem.firstHalf = none) {s : LinkSample}
    (hs : s.isFirst = false) : mem.checkPrbs s = (mem, false) := by
  unfold CheckerMemory.checkPrbs
  rw [hs, hfirst]
  rfl

theorem checkPrbs_of_second (mem : CheckerMemory) {first : LinkWord}
    (hfirst : mem.firstHalf = some first) {before : Option PrbsFields}
    (hlast : mem.lastPrbs = before.map (·.word)) {s : LinkSample} (hs : s.isFirst = false) :
    mem.checkPrbs s =
      ({ mem with firstHalf := none, lastPrbs := some (PrbsFields.ofHalves first s.word).word },
        breaksOff before (.ofHalves first s.word)) := by
  have hwrong : ∀ v w : Bool, (!(v && w)) = (!v || !w) := by decide
  unfold CheckerMemory.checkPrbs
  rw [hs, hfirst, hlast]
  cases before <;> exact congrArg (Prod.mk _) (hwrong _ _)

theorem remembers_count {samples : List LinkSample} {mem : CheckerMemory}
    (h : Remembers .count samples mem) (s : LinkSample) :
    Remembers .count (samples ++ [s]) (mem.check .count s).1 ∧
      mismatches .count (samples ++ [s]) =
        mismatches .count samples + (mem.check .count s).2.toNat := by
  have hcheck : mem.check .count s = _ := checkCount_eq mem h s
  rw [hcheck]
  refine ⟨?_, countAfter_concat _ _ _⟩
  show some s.word.fields = ((samples ++ [s]).getLast?).map _
  rw [List.getLast?_concat]
  rfl

theorem remembers_prbs {samples : List LinkSample} {mem : CheckerMemory}
    (h : Remembers .prbs samples mem) (s : LinkSample) :
    Remembers .prbs (samples ++ [s]) (mem.check .prbs s).1 ∧
      mismatches .prbs (samples ++ [s]) =
        mismatches .prbs samples + (mem.check .prbs s).2.toNat := by
  obtain ⟨hfirst, hlast⟩ := h
  simp only [Remembers, mismatches, prbsWords_concat, List.getLast?_concat, CheckerMemory.check]
  cases hs : s.isFirst with
  | true =>
    rw [checkPrbs_of_first mem hs]
    simp [completes, hs, hlast, Option.filter_some]
  | false =>
    cases hbefore : samples.getLast?.filter (·.isFirst) with
    | none =>
      rw [hbefore] at hfirst
      rw [checkPrbs_of_lone mem hfirst hs]
      simp [completes, hs, hbefore, hlast, hfirst, Option.filter_some]
    | some first =>
      rw [hbefore] at hfirst
      rw [checkPrbs_of_second mem hfirst hlast hs]
      simp [completes, hs, hbefore, countAfter_concat, Option.filter_some]

/-- A checker that has counted the mismatches in these samples. -/
structure Counted (m : PatternMode) (samples : List LinkSample) (c : Checker) : Prop where
  errors_eq : c.errors = UInt32.ofNat (mismatches m samples)
  memory : Remembers m samples c.memory

theorem counted_nil (m : PatternMode) : Counted m [] { enabled := true } :=
  ⟨by cases m <;> rfl, remembers_nil m⟩

theorem Counted.check {m : PatternMode} {samples : List LinkSample} {c : Checker}
    (h : Counted m samples c) (s : LinkSample) :
    Counted m (samples ++ [s])
      { enabled := true
        errors := if (c.memory.check m s).2 then c.errors + 1 else c.errors
        memory := (c.memory.check m s).1 } := by
  have hnext : Remembers m (samples ++ [s]) (c.memory.check m s).1 ∧
      mismatches m (samples ++ [s]) =
        mismatches m samples + (c.memory.check m s).2.toNat := by
    cases m with
    | count => exact remembers_count h.memory s
    | prbs => exact remembers_prbs h.memory s
  refine ⟨?_, hnext.1⟩
  rw [hnext.2, h.errors_eq]
  cases (c.memory.check m s).2 with
  | true => exact (UInt32.ofNat_add _ _).symm
  | false => rfl

end LinkBridge
