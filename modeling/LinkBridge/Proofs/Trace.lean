/-!
Runs of a step function.

A component steps on one input at a time.  `final` is its state after a list of inputs, and
`gather` lists what an observer sees on the way.  What a step preserves holds after a run
(`final_invariant`), and what a step only moves from one place to another is conserved by a run
(`gather_balance`).
-/

namespace LinkBridge.Trace

section Definitions

variable {σ ι β : Type} (step : σ → ι → σ)

def final : σ → List ι → σ
  | s, [] => s
  | s, i :: rest => final (step s i) rest

def gather (observe : σ → ι → List β) : σ → List ι → List β
  | _, [] => []
  | s, i :: rest => observe s i ++ gather observe (step s i) rest

/-- Every input meets its condition in the state that it finds. -/
def Along (A : σ → ι → Prop) : σ → List ι → Prop
  | _, [] => True
  | s, i :: rest => A s i ∧ Along A (step s i) rest

instance {A : σ → ι → Prop} [∀ s i, Decidable (A s i)] (s : σ) (inputs : List ι) :
    Decidable (Along step A s inputs) :=
  match inputs with
  | [] => inferInstanceAs (Decidable True)
  | i :: rest =>
    have : Decidable (Along step A (step s i) rest) := instDecidableAlong (step s i) rest
    inferInstanceAs (Decidable (_ ∧ _))

end Definitions

variable {σ ι β γ : Type} {step : σ → ι → σ} {A : σ → ι → Prop} {P : σ → Prop}

theorem final_append (s : σ) (a b : List ι) :
    final step s (a ++ b) = final step (final step s a) b := by
  induction a generalizing s with
  | nil => rfl
  | cons i rest ih => exact ih (step s i)

theorem gather_append (observe : σ → ι → List β) (s : σ) (a b : List ι) :
    gather step observe s (a ++ b) =
      gather step observe s a ++ gather step observe (final step s a) b := by
  induction a generalizing s with
  | nil => rfl
  | cons i rest ih =>
    simp only [List.cons_append, gather, final, List.append_assoc, ih]

/-- What a run shows was shown by one of its steps. -/
theorem exists_of_mem_gather {observe : σ → ι → List β} {v : β} {s : σ} {inputs : List ι}
    (h : v ∈ gather step observe s inputs) :
    ∃ earlier i later, inputs = earlier ++ i :: later ∧
      v ∈ observe (final step s earlier) i := by
  induction inputs generalizing s with
  | nil => exact nomatch h
  | cons i rest ih =>
    rcases List.mem_append.mp h with hnow | hlater
    · exact ⟨[], i, rest, rfl, hnow⟩
    · obtain ⟨earlier, j, later, rfl, hj⟩ := ih hlater
      exact ⟨i :: earlier, j, later, rfl, hj⟩

theorem length_gather {observe : σ → ι → List β} {p : ι → Bool}
    (h : ∀ s i, (observe s i).length = (p i).toNat) (s : σ) (inputs : List ι) :
    (gather step observe s inputs).length = inputs.countP p := by
  induction inputs generalizing s with
  | nil => rfl
  | cons i rest ih =>
    rw [gather, List.length_append, h, ih, List.countP_cons, Nat.add_comm]
    cases p i <;> rfl

/-- A condition that every input meets in every state. -/
theorem along_of_forall (s : σ) {inputs : List ι} (h : ∀ i ∈ inputs, ∀ s, A s i) :
    Along step A s inputs := by
  induction inputs generalizing s with
  | nil => exact trivial
  | cons i rest ih =>
    exact ⟨h i List.mem_cons_self s, ih (step s i) fun j hj => h j (List.mem_cons_of_mem i hj)⟩

theorem along_append (s : σ) (a b : List ι) :
    Along step A s (a ++ b) ↔ Along step A s a ∧ Along step A (final step s a) b := by
  induction a generalizing s with
  | nil => exact ⟨fun h => ⟨trivial, h⟩, fun h => h.2⟩
  | cons i rest ih => exact (and_congr_right fun _ => ih (step s i)).trans and_assoc.symm

theorem along_true (s : σ) (inputs : List ι) : Along step (fun _ _ => True) s inputs := by
  induction inputs generalizing s with
  | nil => exact trivial
  | cons i rest ih => exact ⟨trivial, ih (step s i)⟩

theorem final_invariant (hstep : ∀ s i, P s → A s i → P (step s i))
    {s : σ} (hs : P s) {inputs : List ι} (h : Along step A s inputs) :
    P (final step s inputs) := by
  induction inputs generalizing s with
  | nil => exact hs
  | cons i rest ih =>
    obtain ⟨hi, hrest⟩ := h
    exact ih (hstep s i hs hi) hrest

/-- A relation between a state and all that was seen on the way to it. -/
theorem gather_invariant {observe : σ → ι → List β} {R : List β → σ → Prop}
    (hstep : ∀ seen s i, R seen s → A s i → R (seen ++ observe s i) (step s i))
    {seen : List β} {s : σ} (hs : R seen s) {inputs : List ι} (h : Along step A s inputs) :
    R (seen ++ gather step observe s inputs) (final step s inputs) := by
  induction inputs generalizing seen s with
  | nil =>
    rw [gather, List.append_nil]
    exact hs
  | cons i rest ih =>
    obtain ⟨hi, hrest⟩ := h
    rw [gather, ← List.append_assoc]
    exact ih (hstep seen s i hs hi) hrest

/-- If every step moves what it takes in to the back of a store and what it gives out from the
front of it, then a run does so as a whole. -/
theorem gather_balance {out taken : σ → ι → List β} (store : σ → List β)
    (hstep : ∀ s i, P s → A s i → P (step s i))
    (hmove : ∀ s i, P s → A s i →
      out s i ++ store (step s i) = store s ++ taken s i)
    {s : σ} (hs : P s) {inputs : List ι} (h : Along step A s inputs) :
    gather step out s inputs ++ store (final step s inputs) =
      store s ++ gather step taken s inputs := by
  induction inputs generalizing s with
  | nil => simp [gather, final]
  | cons i rest ih =>
    obtain ⟨hi, hrest⟩ := h
    have hlater := ih (hstep s i hs hi) hrest
    simp only [gather, final]
    rw [List.append_assoc, hlater, ← List.append_assoc, hmove s i hs hi, List.append_assoc]

theorem gather_sublist {part whole : σ → ι → List β}
    (hstep : ∀ s i, P s → A s i → P (step s i))
    (hpart : ∀ s i, P s → A s i → (part s i).Sublist (whole s i))
    {s : σ} (hs : P s) {inputs : List ι} (h : Along step A s inputs) :
    (gather step part s inputs).Sublist (gather step whole s inputs) := by
  induction inputs generalizing s with
  | nil => exact List.Sublist.refl []
  | cons i rest ih =>
    obtain ⟨hi, hrest⟩ := h
    exact (hpart s i hs hi).append (ih (hstep s i hs hi) hrest)

/-- If a counter grows in every step by what the part lacks of the whole, it does so in a run. -/
theorem gather_length {part whole : σ → ι → List β} (lost : σ → Nat)
    (hstep : ∀ s i, P s → A s i → P (step s i))
    (hlost : ∀ s i, P s → A s i →
      (whole s i).length + lost s = (part s i).length + lost (step s i))
    {s : σ} (hs : P s) {inputs : List ι} (h : Along step A s inputs) :
    (gather step whole s inputs).length + lost s =
      (gather step part s inputs).length + lost (final step s inputs) := by
  induction inputs generalizing s with
  | nil => simp [gather, final]
  | cons i rest ih =>
    obtain ⟨hi, hrest⟩ := h
    have hnow := hlost s i hs hi
    have hlater := ih (hstep s i hs hi) hrest
    simp only [gather, final, List.length_append]
    omega

/-- If a view of the state steps on a view of the inputs, then a run looks as a run of the view
does; an input without a view does not show. -/
theorem final_view {τ κ : Type} {view : σ → τ} {shown : ι → Option κ} {next : τ → κ → τ}
    (hstep : ∀ s i, P s → A s i → P (step s i))
    (hview : ∀ s i, P s → A s i → view (step s i) = (shown i).elim (view s) (next (view s)))
    {s : σ} (hs : P s) {inputs : List ι} (h : Along step A s inputs) :
    view (final step s inputs) = final next (view s) (inputs.filterMap shown) := by
  induction inputs generalizing s with
  | nil => rfl
  | cons i rest ih =>
    obtain ⟨hi, hrest⟩ := h
    have hlater := ih (hstep s i hs hi) hrest
    rw [hview s i hs hi] at hlater
    simp only [final, List.filterMap_cons]
    cases hshown : shown i with
    | none =>
      rw [hshown] at hlater
      exact hlater
    | some k =>
      rw [hshown] at hlater
      exact hlater

/-- If every step keeps a relation between the state and all that was seen so far, under an index
that it may only raise, then an index can be given to each point of a run, and these rise. -/
theorem exists_rising {observe : σ → ι → List β} {R : List β → Nat → σ → Prop}
    (hstep : ∀ seen n s i, R seen n s →
      ∃ m, n ≤ m ∧ R (seen ++ observe s i) m (step s i))
    {seen : List β} {n : Nat} {s : σ} (hs : R seen n s) (inputs : List ι) :
    ∃ index : Nat → Nat, index 0 = n ∧ (∀ k, index k ≤ index (k + 1)) ∧
      ∀ k, R (seen ++ gather step observe s (inputs.take k)) (index k)
        (final step s (inputs.take k)) := by
  induction inputs generalizing seen n s with
  | nil =>
    refine ⟨fun _ => n, rfl, fun _ => Nat.le_refl n, fun k => ?_⟩
    simpa [gather, final] using hs
  | cons i rest ih =>
    obtain ⟨m, hle, hnext⟩ := hstep seen n s i hs
    obtain ⟨index, hzero, hrising, hall⟩ := ih hnext
    refine ⟨fun k => k.casesOn n index, rfl, fun k => ?_, fun k => ?_⟩
    · cases k with
      | zero =>
        show n ≤ index 0
        rw [hzero]
        exact hle
      | succ k => exact hrising k
    · cases k with
      | zero =>
        show R (seen ++ []) n s
        rw [List.append_nil]
        exact hs
      | succ k =>
        show R (seen ++ (observe s i ++ gather step observe (step s i) (rest.take k))) (index k)
          (final step (step s i) (rest.take k))
        rw [← List.append_assoc]
        exact hall k

theorem gather_hom {observe : σ → ι → List β} {f : List β → List γ} (hnil : f [] = [])
    (happend : ∀ a b, f (a ++ b) = f a ++ f b) (s : σ) (inputs : List ι) :
    f (gather step observe s inputs) = gather step (fun s i => f (observe s i)) s inputs := by
  induction inputs generalizing s with
  | nil => exact hnil
  | cons i rest ih => simp only [gather, happend, ih]

end LinkBridge.Trace
