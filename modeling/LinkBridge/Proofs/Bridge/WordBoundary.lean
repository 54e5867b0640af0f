import LinkBridge.Proofs.Bridge.Session

/-!
Where words begin and end.

The receive converter holds a half for one link cycle only, so what it does in a cycle is decided by
what that cycle and the one before give it (`rejoined`): a first half and a second half right behind
it make a word, and nothing else does.  A cycle in which the checker takes the sample gives the
converter nothing, and so ends any word (`words_pair_halves`).
-/

namespace LinkBridge

namespace RxConverter

/-- What the converter holds after a cycle: the first half that it was given in it, if any. -/
def held (sample : Option LinkSample) : Option LinkWord := (sample.filter (·.isFirst)).map (·.word)

/-- The word of a cycle, from what it gives the converter and what the cycle before gave it. -/
def rejoined (before now : Option LinkSample) : Option SampleWord :=
  (held before).bind fun first =>
    (now.filter fun s => !s.isFirst).map fun s => SampleWord.join first s.word

theorem first_tick (c : RxConverter) (sample : Option LinkSample) :
    (c.tick sample).1.first = held sample := by
  cases sample with
  | none => rfl
  | some s =>
    unfold tick held
    cases hfirst : s.isFirst <;> simp [Option.filter_some, hfirst]

theorem word_tick {c : RxConverter} {before : Option LinkSample} (h : c.first = held before)
    (now : Option LinkSample) : (c.tick now).2 = rejoined before now := by
  unfold tick rejoined
  rw [← h]
  cases now with
  | none => cases c.first <;> rfl
  | some s =>
    cases hfirst : s.isFirst <;> cases c.first <;> simp [Option.filter_some, hfirst]

theorem rejoined_none (before : Option LinkSample) : rejoined before none = none := by
  unfold rejoined
  cases held before <;> rfl

theorem rejoined_eq_some_iff {before now : Option LinkSample} {w : SampleWord} :
    rejoined before now = some w ↔ ∃ first second, before = some first ∧ now = some second ∧
      first.isFirst = true ∧ second.isFirst = false ∧ w = .join first.word second.word := by
  unfold rejoined held
  constructor
  · intro h
    obtain ⟨half, hhalf, hword⟩ := Option.bind_eq_some_iff.mp h
    obtain ⟨first, hfirst, rfl⟩ := Option.map_eq_some_iff.mp hhalf
    obtain ⟨second, hsecond, rfl⟩ := Option.map_eq_some_iff.mp hword
    obtain ⟨hbefore, hopens⟩ := Option.filter_eq_some_iff.mp hfirst
    obtain ⟨hnow, hcloses⟩ := Option.filter_eq_some_iff.mp hsecond
    exact ⟨first, second, hbefore, hnow, hopens, by simpa using hcloses, rfl⟩
  · rintro ⟨first, second, rfl, rfl, hopens, hcloses, rfl⟩
    simp [Option.filter_some, hopens, hcloses]

end RxConverter

/-- What the receive path does in a link cycle: what the aligner gives out, whether the checker is
ready to take it, and the word that the converter completes. -/
structure Reception where
  aligned : Option LinkSample
  checking : Bool
  word : Option SampleWord
deriving DecidableEq, Repr

namespace Reception

/-- What the converter is given: what the aligner gives out, unless the checker is ready. -/
def half (r : Reception) : Option LinkSample := if r.checking then none else r.aligned

def halfAt (cycles : List Reception) (n : Nat) : Option LinkSample := cycles[n]?.bind half

def wordAt (cycles : List Reception) (n : Nat) : Option SampleWord := cycles[n]?.bind word

/-- What the converter was given in the cycle before. -/
def halfBefore (cycles : List Reception) : Nat → Option LinkSample
  | 0 => none
  | n + 1 => halfAt cycles n

variable {cycles : List Reception} {r : Reception} {n : Nat}

theorem halfAt_concat_of_lt (h : n < cycles.length) :
    halfAt (cycles ++ [r]) n = halfAt cycles n := by
  unfold halfAt
  rw [List.getElem?_append_left h]

theorem halfAt_concat_length : halfAt (cycles ++ [r]) cycles.length = r.half := by
  unfold halfAt
  rw [List.getElem?_concat_length]
  rfl

theorem halfBefore_concat_of_le (h : n ≤ cycles.length) :
    halfBefore (cycles ++ [r]) n = halfBefore cycles n := by
  cases n with
  | zero => rfl
  | succ k => exact halfAt_concat_of_lt h

end Reception

open Reception

def Bridge.reception (b : Bridge) (received : LinkSample) : Reception :=
  { aligned := (b.link.aligner.tick (b.boundary received)).2
    checking := b.link.checker.ready b.linkControls.rx.enable
    word := b.rebuilt received }

/-- The converter is clocked with what the reception gives it. -/
theorem Bridge.rebuild_eq_tick (b : Bridge) (received : LinkSample) :
    b.link.rebuild b.linkControls (b.boundary received) =
      b.link.rxConverter.tick (b.reception received).half := by
  unfold LinkSide.rebuild LinkSide.routed Reception.half reception
  cases b.link.checker.ready b.linkControls.rx.enable <;>
    cases (b.link.aligner.tick (b.boundary received)).2 <;> rfl

namespace Session

/-- The receptions of a step: one if it is a link cycle. -/
def receptions (s : Session) : Operation → List Reception
  | .link received => [s.bridge.reception received]
  | _ => []

/-- Each word so far is made of two cycles, and the converter holds what the last one gave it. -/
structure Rejoins (cycles : List Reception) (s : Session) : Prop where
  word_eq : ∀ n, wordAt cycles n = RxConverter.rejoined (halfBefore cycles n) (halfAt cycles n)
  first_eq : s.bridge.link.rxConverter.first = RxConverter.held (halfBefore cycles cycles.length)

theorem Rejoins.link {cycles : List Reception} {s : Session} (h : s.Rejoins cycles)
    (received : LinkSample) :
    (s.step (.link received)).Rejoins (cycles ++ [s.bridge.reception received]) := by
  have hhalf : (s.bridge.reception received).word = RxConverter.rejoined
      (halfBefore cycles cycles.length) (s.bridge.reception received).half := by
    rw [← RxConverter.word_tick h.first_eq, ← s.bridge.rebuild_eq_tick]
    rfl
  have hfirst : (s.step (.link received)).bridge.link.rxConverter.first =
      RxConverter.held (s.bridge.reception received).half := by
    show (s.bridge.tickLink received).link.rxConverter.first = _
    rw [Bridge.rxConverter_tickLink, s.bridge.rebuild_eq_tick, RxConverter.first_tick]
  generalize s.bridge.reception received = r at hhalf hfirst
  refine ⟨fun n => ?_, ?_⟩
  · rcases Nat.lt_trichotomy n cycles.length with hlt | rfl | hgt
    · rw [halfBefore_concat_of_le hlt.le, halfAt_concat_of_lt hlt, ← h.word_eq n]
      unfold wordAt
      rw [List.getElem?_append_left hlt]
    · rw [halfBefore_concat_of_le (Nat.le_refl _), halfAt_concat_length, ← hhalf]
      unfold wordAt
      rw [List.getElem?_concat_length]
      rfl
    · have hnone : (cycles ++ [r])[n]? = none := by
        rw [List.getElem?_eq_none_iff, List.length_append, List.length_singleton]
        exact hgt
      unfold wordAt halfAt
      rw [hnone]
      exact (RxConverter.rejoined_none _).symm
  · rw [hfirst, List.length_append, List.length_singleton]
    exact congrArg RxConverter.held halfAt_concat_length.symm

theorem Rejoins.step {cycles : List Reception} {s : Session} (h : s.Rejoins cycles)
    (o : Operation) : (s.step o).Rejoins (cycles ++ s.receptions o) := by
  by_cases hlink : ∃ received, o = .link received
  · obtain ⟨received, rfl⟩ := hlink
    exact h.link received
  · have hother : ∀ received, o ≠ .link received := fun received ho => hlink ⟨received, ho⟩
    have hnone : s.receptions o = [] := by
      cases o with
      | link received => exact absurd rfl (hother received)
      | _ => rfl
    rw [hnone, List.append_nil]
    refine ⟨h.word_eq, ?_⟩
    rw [s.link_step_of_other (Operation.isLink_eq_false hother)]
    exact h.first_eq

theorem rejoins_run {p : BridgeParams} {b : Bridge} (hb : Bridge.new p = .ok b) (t : Transport)
    (ops : List Operation) :
    (run ⟨b, t⟩ ops).Rejoins (Trace.gather step receptions ⟨b, t⟩ ops) := by
  have hstart : Rejoins [] ⟨b, t⟩ := by
    obtain rfl := Bridge.eq_ofParams hb
    exact ⟨fun n => (RxConverter.rejoined_none _).symm, rfl⟩
  exact Trace.gather_invariant (R := fun cycles s => Rejoins cycles s)
    (fun cycles s o h _ => h.step o) hstart (Trace.along_true _ ops)

theorem Rejoins.wordAt_eq_some_iff {cycles : List Reception} {s : Session} (h : s.Rejoins cycles)
    {n : Nat} {w : SampleWord} :
    wordAt cycles n = some w ↔ ∃ k older newer, n = k + 1 ∧
      (halfAt cycles k = some older ∧ older.isFirst = true) ∧
      (halfAt cycles n = some newer ∧ newer.isFirst = false) ∧
      w = .join older.word newer.word := by
  rw [h.word_eq n, RxConverter.rejoined_eq_some_iff]
  constructor
  · rintro ⟨older, newer, hbefore, hnow, hopens, hcloses, hw⟩
    cases n with
    | zero => exact nomatch hbefore
    | succ k => exact ⟨k, older, newer, rfl, ⟨hbefore, hopens⟩, ⟨hnow, hcloses⟩, hw⟩
  · rintro ⟨k, older, newer, rfl, ⟨hbefore, hopens⟩, ⟨hnow, hcloses⟩, hw⟩
    exact ⟨older, newer, hbefore, hnow, hopens, hcloses, hw⟩

/-- In every run a link cycle completes a word just if the cycle before gave the converter a first
half and this one gives it a second half, and the word joins these two.  So a cycle in which the
checker is ready neither completes a word nor lies within one, no half goes into two words, and a
half without its other half right beside it goes into none. -/
theorem words_pair_halves {p : BridgeParams} {b : Bridge} (hb : Bridge.new p = .ok b)
    (t : Transport) (ops : List Operation) :
    let cycles := Trace.gather step receptions ⟨b, t⟩ ops
    let first (n : Nat) (s : LinkSample) : Prop := halfAt cycles n = some s ∧ s.isFirst = true
    let second (n : Nat) (s : LinkSample) : Prop := halfAt cycles n = some s ∧ s.isFirst = false
    (∀ n w, wordAt cycles n = some w ↔
      ∃ k older newer, n = k + 1 ∧ first k older ∧ second n newer ∧
        w = .join older.word newer.word) ∧
    (∀ n r, cycles[n]? = some r → r.checking = true →
      wordAt cycles n = none ∧ wordAt cycles (n + 1) = none) ∧
    (∀ n, wordAt cycles n = none ∨ wordAt cycles (n + 1) = none) ∧
    (∀ n s, first n s → (∀ other, ¬second (n + 1) other) →
      wordAt cycles n = none ∧ wordAt cycles (n + 1) = none) ∧
    ∀ n s, second n s → (∀ k other, k + 1 = n → ¬first k other) →
      wordAt cycles n = none ∧ wordAt cycles (n + 1) = none := by
  intro cycles first second
  have hlaw : ∀ n w, wordAt cycles n = some w ↔
      ∃ k older newer, n = k + 1 ∧ first k older ∧ second n newer ∧
        w = .join older.word newer.word := fun n w =>
    (rejoins_run hb t ops).wordAt_eq_some_iff
  have hnone : ∀ n, (∀ k older newer, n = k + 1 → first k older → ¬second n newer) →
      wordAt cycles n = none := by
    intro n h
    rw [Option.eq_none_iff_forall_ne_some]
    intro w hw
    obtain ⟨k, older, newer, hn, hfirst, hsecond, -⟩ := (hlaw n w).mp hw
    exact h k older newer hn hfirst hsecond
  -- a cycle gives the converter one half at most
  have hone : ∀ n older newer, first n older → ¬second n newer := by
    rintro n older newer ⟨holder, hopens⟩ ⟨hnewer, hcloses⟩
    obtain rfl := Option.some.inj (holder.symm.trans hnewer)
    rw [hopens] at hcloses
    exact nomatch hcloses
  refine ⟨hlaw, fun n r hr hchecking => ?_, fun n => ?_, fun n s hs hlone => ?_,
    fun n s hs hlone => ?_⟩
  · have hgap : halfAt cycles n = none := by
      unfold halfAt Reception.half
      rw [hr, Option.bind_some, if_pos hchecking]
    refine ⟨hnone n fun k older newer _ _ hsecond => ?_,
      hnone (n + 1) fun k older newer hn hfirst _ => ?_⟩
    · exact nomatch hgap.symm.trans hsecond.1
    · obtain rfl := Nat.succ.inj hn
      exact nomatch hgap.symm.trans hfirst.1
  · by_contra hboth
    obtain ⟨hnow, hnext⟩ := not_or.mp hboth
    obtain ⟨v, hv⟩ := Option.ne_none_iff_exists'.mp hnow
    obtain ⟨w, hw⟩ := Option.ne_none_iff_exists'.mp hnext
    obtain ⟨-, -, newer, -, -, hsecond, -⟩ := (hlaw n v).mp hv
    obtain ⟨k, older, -, hn, hfirst, -⟩ := (hlaw (n + 1) w).mp hw
    obtain rfl := Nat.succ.inj hn
    exact hone _ older newer hfirst hsecond
  · exact ⟨hnone n fun _ _ newer _ _ hsecond => hone n s newer hs hsecond,
      hnone (n + 1) fun _ _ newer _ _ hsecond => hlone newer hsecond⟩
  · refine ⟨hnone n fun k older _ hn hfirst _ => hlone k older hn.symm hfirst,
      hnone (n + 1) fun k older _ hn hfirst _ => ?_⟩
    obtain rfl := Nat.succ.inj hn
    exact hone _ older s hfirst hs

/-- The checker takes the second half of the second word. -/
theorem words_pair_halves_around_checker :
    let older : LinkSample := .framed ⟨1, 2⟩ frameFirst
    let newer : LinkSample := .framed ⟨3, 4⟩ (!frameFirst)
    let ops : List Operation := [.link older, .link newer,
      .write Register.rxPattern.address 1, .control, .link older, .link newer, .link older]
    let cycles := Trace.gather step receptions ⟨Bridge.ofParams {}, {}⟩ ops
    Bridge.new {} = .ok (Bridge.ofParams {}) ∧
      wordAt cycles 2 = some (.join older.word newer.word) ∧
      halfAt cycles 3 = some older ∧ cycles[4]? = some ⟨some newer, true, none⟩ ∧
      wordAt cycles 4 = none ∧ wordAt cycles 5 = none := by
  intro older newer ops cycles
  have holder : halfAt cycles 1 = some older := by decide +kernel
  have hnewer : halfAt cycles 2 = some newer := by decide +kernel
  have hlone : halfAt cycles 3 = some older := by decide +kernel
  have htaken : cycles[4]? = some ⟨some newer, true, none⟩ := by decide +kernel
  obtain ⟨hlaw, hgap, -⟩ := words_pair_halves (p := {}) rfl {} ops
  exact ⟨rfl, (hlaw 2 _).mpr ⟨1, older, newer, rfl, ⟨holder, rfl⟩, ⟨hnewer, rfl⟩, rfl⟩,
    hlone, htaken, hgap 4 _ htaken rfl⟩

end Session
end LinkBridge
