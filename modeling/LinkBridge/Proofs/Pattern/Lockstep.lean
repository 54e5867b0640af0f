import LinkBridge.Pattern.Checker
import LinkBridge.Pattern.Generator
import LinkBridge.Proofs.Sample.Word

/-!
Generator and checker in step.

`Awaits` says what a checker has to remember so that it finds nothing wrong with the samples that a
generator makes from its present state on.  Each sample keeps it (`Awaits.check`), an empty memory
has it, and any memory at all has it after three samples (`Seen.awaits`): one sample gives the last
count, and a first and a second half together give the last value of the pseudo-random sequence.
-/

namespace LinkBridge

/-! ### The sequence -/

namespace Prbs

/-- A shift leaves fifteen bits. -/
theorem shift_lt (p : Prbs) : p.shift.state.toNat < 32768 := by
  show p.shift.state.toNat < 2 ^ 15
  unfold shift
  rw [UInt16.toNat_or, UInt16.toNat_and, UInt16.toNat_and]
  exact Nat.or_lt_two_pow (Nat.and_lt_two_pow _ (by decide)) (Nat.and_lt_two_pow _ (by decide))

theorem ofState_shift (p : Prbs) : ofState p.shift.state = p.shift := by
  have hlt : p.shift.state.toNat < 2 ^ 15 := p.shift_lt
  unfold ofState
  congr 1
  apply UInt16.toNat_inj.mp
  rw [UInt16.toNat_and]
  exact Nat.and_two_pow_sub_one_of_lt_two_pow hlt

theorem ofState_shiftTimes (p : Prbs) (n : Nat) :
    ofState (p.shiftTimes (n + 1)).state = p.shiftTimes (n + 1) := by
  induction n generalizing p with
  | zero => exact ofState_shift p
  | succ n ih => exact ih p.shift

theorem ofState_next (p : Prbs) : ofState p.next.state = p.next := ofState_shiftTimes p 14

end Prbs

theorem fieldMask_and_fieldMask : fieldMask &&& fieldMask = fieldMask := by decide

theorem and_fieldMask_idem (v : UInt16) : v &&& fieldMask &&& fieldMask = v &&& fieldMask := by
  rw [UInt16.and_assoc, fieldMask_and_fieldMask]

/-- Each field of a value keeps to its twelve bits. -/
theorem PrbsFields.masked_ofValue (v : UInt16) :
    (ofValue v).ai &&& fieldMask = (ofValue v).ai ∧ (ofValue v).aq &&& fieldMask = (ofValue v).aq ∧
      (ofValue v).bi &&& fieldMask = (ofValue v).bi ∧
      (ofValue v).bq &&& fieldMask = (ofValue v).bq :=
  ⟨and_fieldMask_idem _, and_fieldMask_idem _, and_fieldMask_idem _, and_fieldMask_idem _⟩

/-- A value is read back from its fields. -/
theorem PrbsFields.value_ofValue (v : UInt16) :
    value (ofValue v).ai (ofValue v).bi = v := by
  have hlow : ∀ i : Fin 16, (4095#16)[i.val] = decide (i.val < 12) := by decide
  unfold value ofValue fieldMask
  apply UInt16.toBitVec_inj.mp
  ext i hi
  have hmask : (4095#16)[i] = decide (i < 12) := hlow ⟨i, hi⟩
  by_cases h : i < 12
  · simp [hmask, h]
  · have hhigh : (4095#16).getLsbD (8 + (i - 12)) = true := by
      have hin : 8 + (i - 12) < 16 := by omega
      have hbit : (4095#16)[8 + (i - 12)] = decide (8 + (i - 12) < 12) := hlow ⟨_, hin⟩
      rw [BitVec.getLsbD_eq_getElem hin, hbit]
      exact decide_eq_true (by omega)
    have hindex : 4 + (8 + (i - 12)) = i := by omega
    simp [hmask, h, hhigh, hindex, hi]

/-! ### The generator's samples -/

namespace Generator

/-- The generator after a cycle in which it was enabled and the link carried a frame level. -/
def advance (g : Generator) (m : PatternMode) (frame : Bool) : Generator :=
  (g.tick true m (frame == frameFirst)).1

def sample (g : Generator) (m : PatternMode) (frame : Bool) : LinkSample :=
  .framed ((g.tick true m (frame == frameFirst)).2.getD default) frame

/-- The counter keeps to its twelve bits. -/
def Native (g : Generator) : Prop := g.count &&& fieldMask = g.count

theorem native_new : Native {} := (by decide : (0 : UInt16) &&& fieldMask = 0)

theorem native_tick {g : Generator} (h : g.Native) (enable : Bool) (m : PatternMode)
    (firstSlot : Bool) : (g.tick enable m firstSlot).1.Native := by
  cases enable with
  | false => exact h
  | true =>
    cases m with
    | count => exact and_fieldMask_idem _
    | prbs => cases firstSlot <;> exact h

theorem native_sample {g : Generator} (h : g.Native) (m : PatternMode) (frame : Bool) :
    (g.sample m frame).word.Native := by
  cases m with
  | count => exact LinkWord.native_of_fields h h
  | prbs =>
    cases frame with
    | true => exact LinkWord.native_of_fields (and_fieldMask_idem _) (and_fieldMask_idem _)
    | false => exact LinkWord.native_of_fields (and_fieldMask_idem _) (and_fieldMask_idem _)

/-- Samples on a line, the oldest first: some others, then those that the generator made on the way
from one state to another. -/
inductive Made (m : PatternMode) : Nat → Generator → Bool → List LinkSample → Generator → Bool →
    Prop where
  | nil (g : Generator) (frame : Bool) : Made m 0 g frame [] g frame
  | sample {g g' : Generator} {frame frame' : Bool} {rest : List LinkSample} (hg : g.Native)
      (h : Made m 0 (g.advance m frame) (!frame) rest g' frame') :
      Made m 0 g frame (g.sample m frame :: rest) g' frame'
  | other {others : Nat} {g g' : Generator} {frame frame' : Bool} {rest : List LinkSample}
      (s : LinkSample) (h : Made m others g frame rest g' frame') :
      Made m (others + 1) g frame (s :: rest) g' frame'

theorem Made.others (m : PatternMode) (g : Generator) (frame : Bool) (l : List LinkSample) :
    Made m l.length g frame l g frame := by
  induction l with
  | nil => exact .nil g frame
  | cons s rest ih => exact .other s ih

theorem Made.head_eq {m : PatternMode} {g g' : Generator} {frame frame' : Bool} {s : LinkSample}
    {rest : List LinkSample} (h : Made m 0 g frame (s :: rest) g' frame') :
    s = g.sample m frame := by
  cases h
  rfl

theorem Made.tail {m : PatternMode} {g g' : Generator} {frame frame' : Bool} {s : LinkSample}
    {rest : List LinkSample} (h : Made m 0 g frame (s :: rest) g' frame') :
    Made m 0 (g.advance m frame) (!frame) rest g' frame' := by
  cases h with
  | sample _ h => exact h

theorem Made.snoc {m : PatternMode} {others : Nat} {g g' : Generator} {frame frame' : Bool}
    {l : List LinkSample} (h : Made m others g frame l g' frame') (hg' : g'.Native) :
    Made m others g frame (l ++ [g'.sample m frame']) (g'.advance m frame') (!frame') := by
  induction h with
  | nil g frame => exact .sample hg' (.nil _ _)
  | sample hg _ ih => exact .sample hg (ih hg')
  | other s _ ih => exact .other s (ih hg')

end Generator

/-! ### The checker's memory -/

namespace CheckerMemory

/-- The checker will find nothing wrong with the samples that the generator makes from here on, if
the link carries this frame level next. -/
inductive Awaits (mem : CheckerMemory) (g : Generator) : PatternMode → Bool → Prop where
  | count {frame : Bool}
      (hlast : ∀ a b, mem.lastCount = some (a, b) → nextCount a = g.count ∧ nextCount b = g.count) :
      Awaits mem g .count frame
  | first (hlast : ∀ v, mem.lastPrbs = some v → (Prbs.ofState v).next = g.prbs.next) :
      Awaits mem g .prbs frameFirst
  | second (hfirst : mem.firstHalf =
        some ⟨(PrbsFields.ofValue g.word).ai, (PrbsFields.ofValue g.word).aq⟩)
      (hword : Prbs.ofState g.word = g.prbs ∧ g.prbs.state = g.word)
      (hlast : ∀ v, mem.lastPrbs = some v → (Prbs.ofState v).next = g.prbs) :
      Awaits mem g .prbs (!frameFirst)
  | fresh (hfirst : mem.firstHalf = none) (hlast : mem.lastPrbs = none) :
      Awaits mem g .prbs (!frameFirst)

theorem awaits_empty (g : Generator) (m : PatternMode) (frame : Bool) :
    Awaits {} g m frame := by
  cases m with
  | count => exact .count fun _ _ h => nomatch h
  | prbs =>
    cases frame with
    | true => exact .first fun _ h => nomatch h
    | false => exact .fresh rfl rfl

variable {mem : CheckerMemory} {g : Generator}

/-! ### One sample -/

theorem awaits_count (hg : g.Native) (frame : Bool) :
    (mem.check .count (g.sample .count frame)).1.Awaits (g.advance .count frame) .count
      (!frame) := by
  refine .count fun a b hab => ?_
  have hfields : some (g.count &&& fieldMask, g.count &&& fieldMask) = some (a, b) := hab
  rw [hg] at hfields
  obtain ⟨rfl, rfl⟩ := Prod.mk.inj (Option.some.inj hfields)
  exact ⟨rfl, rfl⟩

/-- A first half that the generator has just made is remembered with its value. -/
theorem check_first (mem : CheckerMemory) (g : Generator) :
    (mem.check .prbs (g.sample .prbs frameFirst)).1 =
        { mem with firstHalf := some ⟨(PrbsFields.ofValue g.prbs.next.state).ai,
            (PrbsFields.ofValue g.prbs.next.state).aq⟩ } ∧
      (mem.check .prbs (g.sample .prbs frameFirst)).2 = false ∧
      g.advance .prbs frameFirst = { g with prbs := g.prbs.next, word := g.prbs.next.state } :=
  ⟨rfl, rfl, rfl⟩

theorem check_second (hfirst : mem.firstHalf =
      some ⟨(PrbsFields.ofValue g.word).ai, (PrbsFields.ofValue g.word).aq⟩) :
    (mem.check .prbs (g.sample .prbs (!frameFirst))).1 =
        { mem with firstHalf := none, lastPrbs := some g.word } ∧
      ((∀ v, mem.lastPrbs = some v → (Prbs.ofState v).next.state = g.word) →
        (mem.check .prbs (g.sample .prbs (!frameFirst))).2 = false) := by
  obtain ⟨hai, haq, hbi, hbq⟩ := PrbsFields.masked_ofValue g.word
  have hsample : g.sample .prbs (!frameFirst) =
      .framed ⟨(PrbsFields.ofValue g.word).bi, (PrbsFields.ofValue g.word).bq⟩
        (!frameFirst) := rfl
  have hcheck : mem.check .prbs (g.sample .prbs (!frameFirst)) =
      ({ mem with firstHalf := none, lastPrbs := some g.word },
        !mem.lastPrbs.elim true fun last => (Prbs.ofState last).next.state == g.word) := by
    rw [hsample]
    simp only [check, checkPrbs, LinkSample.isFirst, LinkSample.framed, hfirst, hai, haq, hbi, hbq,
      PrbsFields.value_ofValue]
    cases mem.lastPrbs <;> simp
  rw [hcheck]
  refine ⟨rfl, fun hlast => ?_⟩
  cases hprbs : mem.lastPrbs with
  | none => rfl
  | some v => simp [hlast v hprbs]

theorem Awaits.check {m : PatternMode} {frame : Bool} (h : mem.Awaits g m frame)
    (hg : g.Native) :
    (mem.check m (g.sample m frame)).2 = false ∧
      (mem.check m (g.sample m frame)).1.Awaits (g.advance m frame) m (!frame) := by
  cases h with
  | count hlast =>
    refine ⟨?_, awaits_count hg frame⟩
    have hmask : g.count &&& fieldMask = g.count := hg
    show (mem.checkCount ⟨g.count, g.count⟩).2 = false
    simp only [checkCount, hmask]
    cases hcount : mem.lastCount with
    | none => rfl
    | some fields =>
      obtain ⟨ha, hb⟩ := hlast fields.1 fields.2 hcount
      simp [ha, hb]
  | first hlast =>
    obtain ⟨hmem, hok, hnext⟩ := check_first mem g
    refine ⟨hok, ?_⟩
    rw [hmem, hnext]
    exact .second rfl ⟨Prbs.ofState_next _, rfl⟩ hlast
  | second hfirst hword hlast =>
    obtain ⟨hmem, hok⟩ := check_second hfirst
    have hvalue : ∀ v, mem.lastPrbs = some v → (Prbs.ofState v).next.state = g.word := by
      intro v hv
      rw [hlast v hv]
      exact hword.2
    refine ⟨hok hvalue, ?_⟩
    rw [hmem]
    refine .first fun v hv => ?_
    obtain rfl := Option.some.inj hv
    exact congrArg Prbs.next hword.1
  | fresh hfirst hlast =>
    have hcheck : mem.check .prbs (g.sample .prbs (!frameFirst)) = (mem, false) := by
      have hsample : (g.sample .prbs (!frameFirst)).isFirst = false := rfl
      simp only [CheckerMemory.check, checkPrbs, hsample, hfirst]
      rfl
    rw [hcheck]
    refine ⟨rfl, .first fun v hv => ?_⟩
    rw [hlast] at hv
    exact nomatch hv

/-! ### Any memory -/

/-- The last samples that the checker saw are those that the generator made on its way to its
present state. -/
inductive Seen (m : PatternMode) : Nat → CheckerMemory → Generator → Bool → Prop where
  | start (mem : CheckerMemory) (g : Generator) (frame : Bool) : Seen m 0 mem g frame
  | check {n : Nat} {mem : CheckerMemory} {g : Generator} {frame : Bool} (hg : g.Native)
      (h : Seen m n mem g frame) :
      Seen m (n + 1) (mem.check m (g.sample m frame)).1 (g.advance m frame) (!frame)

/-- Two halves give the value, whatever was remembered before. -/
theorem awaits_pair :
    let mem' := (mem.check .prbs (g.sample .prbs frameFirst)).1
    let g' := g.advance .prbs frameFirst
    (mem'.check .prbs (g'.sample .prbs (!frameFirst))).1.Awaits (g'.advance .prbs (!frameFirst))
      .prbs frameFirst := by
  intro mem' g'
  have hfirst : mem'.firstHalf =
      some ⟨(PrbsFields.ofValue g'.word).ai, (PrbsFields.ofValue g'.word).aq⟩ := rfl
  rw [(check_second hfirst).1]
  refine .first fun v hv => ?_
  obtain rfl := Option.some.inj hv
  exact congrArg Prbs.next (Prbs.ofState_next g.prbs)

theorem Seen.awaits {m : PatternMode} {n : Nat} {frame : Bool} (h : Seen m n mem g frame)
    (hn : 3 ≤ n) : mem.Awaits g m frame := by
  induction h with
  | start => omega
  | @check n mem g frame hg h ih =>
    by_cases hmore : 3 ≤ n
    · exact ((ih hmore).check hg).2
    · obtain rfl : n = 2 := by omega
      cases m with
      | count => exact awaits_count hg frame
      | prbs =>
        cases h with
        | check hg₁ h =>
          cases h with
          | @check _ mem₀ g₀ frame₀ hg₀ h =>
            cases frame₀ with
            | true => exact (awaits_pair.check hg).2
            | false => exact awaits_pair

end CheckerMemory
end LinkBridge
