import LinkBridge.Proofs.Sample.Aligner
import Mathlib.Order.Interval.Finset.Nat

/-!
Shifts of the sampling phase.

A receiver may take each cycle in time or half a cycle late, and change from one to the other at any
cycle.  The aligner keeps one sample, so what it gives out depends on two cycles only: if both were
taken at one phase, it is the sample driven in the first of them, whatever the aligner held before.
A change of phase therefore spoils no more than the one sample that was taken around it.
-/

namespace LinkBridge

namespace LinkSample

/-- From cycle 1 on both phases of a cycle have one level, and the next cycle has the other.  What
was on the line before is left open. -/
def Alternates (driven : Nat → LinkSample) : Prop :=
  ∀ t, 1 ≤ t → (driven t).frame1 = (driven t).frame0 ∧
    (driven (t + 1)).frame0 = !(driven t).frame0

/-- What a receiver takes in each cycle, if some cycles are taken late. -/
def sampled (driven : Nat → LinkSample) (late : Nat → Bool) (t : Nat) : LinkSample :=
  seen (late t) (driven (t - 1)) (driven t)

theorem eq_framed {s : LinkSample} (h : s.frame1 = s.frame0) : s = .framed s.word s.frame0 := by
  obtain ⟨word, frame0, frame1⟩ := s
  obtain rfl : frame1 = frame0 := h
  rfl

theorem Alternates.framed {driven : Nat → LinkSample} (h : Alternates driven) {t : Nat}
    (ht : 1 ≤ t) :
    ∃ v w frame, driven t = .framed v frame ∧ driven (t + 1) = .framed w (!frame) := by
  obtain ⟨hnow, hflip⟩ := h t ht
  obtain ⟨hnext, -⟩ := h (t + 1) (Nat.le_succ_of_le ht)
  refine ⟨(driven t).word, (driven (t + 1)).word, (driven t).frame0, eq_framed hnow, ?_⟩
  rw [← hflip]
  exact eq_framed hnext

theorem isAligned_seen (late : Bool) (v w : LinkWord) (frame : Bool) :
    (seen late (.framed v frame) (.framed w (!frame))).isAligned = !late := by
  cases late <;> cases frame <;> rfl

end LinkSample

open LinkSample

namespace Aligner

section Run

variable (a : Aligner) (received : Nat → LinkSample)

/-- The aligner after so many cycles, of which the first is cycle 1. -/
def after : Nat → Aligner
  | 0 => a
  | t + 1 => ((after t).tick (received (t + 1))).1

/-- What the aligner gives out in a cycle. -/
def outputAt (t : Nat) : Option LinkSample := ((a.after received (t - 1)).tick (received t)).2

theorem last_after {t : Nat} (ht : 1 ≤ t) : (a.after received t).last = some (received t) := by
  obtain ⟨t, rfl⟩ := Nat.exists_eq_succ_of_ne_zero (Nat.ne_of_gt ht)
  exact last_tick _ _

end Run

variable {driven : Nat → LinkSample} {late : Nat → Bool} {t : Nat}

/-- Two cycles taken at one phase give out the sample of the first. -/
theorem outputAt_of_steady (a : Aligner) (h : Alternates driven) (ht : 1 ≤ t)
    (hsteady : late t = late (t + 1)) :
    a.outputAt (sampled driven late) (t + 1) = some (driven t) := by
  obtain ⟨v, w, frame, hnow, hnext⟩ := h.framed ht
  have hlast : (a.after (sampled driven late) t).last =
      if true then some (seen (late (t + 1)) (driven (t - 1)) (.framed v frame)) else none := by
    rw [last_after a _ ht, sampled, hnow, hsteady, if_pos rfl]
  have houtput := tick_seen (w := w) hlast
  show ((a.after (sampled driven late) t).tick
    (seen (late (t + 1)) (driven t) (driven (t + 1)))).2 = _
  rw [hnow, hnext]
  exact houtput

/-- From its second cycle on the aligner knows at which phase the last one was taken. -/
theorem aligned_after (a : Aligner) (h : Alternates driven) (ht : 1 ≤ t) :
    (a.after (sampled driven late) (t + 1)).aligned = !late (t + 1) := by
  obtain ⟨v, w, frame, hnow, hnext⟩ := h.framed ht
  show (seen (late (t + 1)) (driven t) (driven (t + 1))).isAligned = _
  rw [hnow, hnext, isAligned_seen]

/-- Whatever an aligner held before and however the sampling phase shifts, two cycles taken at one
phase give out the sample driven in the first of them, and the decision stays.  So over any stretch
of cycles no more samples are lost than there are shifts. -/
theorem heals_after_phase_shift (a : Aligner) (h : Alternates driven) (late : Nat → Bool) :
    let received := sampled driven late
    (∀ t, 3 ≤ t → late (t - 1) = late t →
      a.outputAt received t = some (driven (t - 1)) ∧
        (a.after received t).aligned = (a.after received (t - 1)).aligned) ∧
      ∀ first last, 3 ≤ first →
        {t ∈ Finset.Icc first last | a.outputAt received t ≠ some (driven (t - 1))}.card ≤
          {t ∈ Finset.Icc first last | late (t - 1) ≠ late t}.card := by
  intro received
  have hsteady : ∀ t, 3 ≤ t → late (t - 1) = late t →
      a.outputAt received t = some (driven (t - 1)) := by
    intro t ht hsame
    obtain ⟨t, rfl⟩ := Nat.exists_eq_add_of_le' ht
    exact a.outputAt_of_steady h (by omega) hsame
  refine ⟨fun t ht hsame => ⟨hsteady t ht hsame, ?_⟩, fun first last hfirst => ?_⟩
  · obtain ⟨t, rfl⟩ := Nat.exists_eq_add_of_le' ht
    have hsame : late (t + 2) = late (t + 3) := hsame
    show (a.after received (t + 3)).aligned = (a.after received (t + 2)).aligned
    rw [a.aligned_after h (by omega), a.aligned_after h (by omega), hsame]
  · refine Finset.card_le_card fun t ht => ?_
    rw [Finset.mem_filter, Finset.mem_Icc] at ht ⊢
    obtain ⟨hin, hlost⟩ := ht
    exact ⟨hin, fun hsame => hlost (hsteady t (by omega) hsame)⟩

/-- Cycles 4 and 5 are taken late.  The second of them heals, and the two shifts lose no more than
two samples. -/
theorem heals_within_two_late_cycles :
    let driven := fun t => LinkSample.framed ⟨UInt16.ofNat t, UInt16.ofNat (t + 256)⟩ (t % 2 == 1)
    let late := fun t => t == 4 || t == 5
    let received := sampled driven late
    let a : Aligner := {}
    Alternates driven ∧ late 4 = late 5 ∧ a.outputAt received 5 = some (driven 4) ∧
      (a.after received 5).aligned = (a.after received 4).aligned ∧
      {t ∈ Finset.Icc 3 8 | a.outputAt received t ≠ some (driven (t - 1))}.card ≤ 2 := by
  intro driven late received a
  have hdriven : Alternates driven := by
    refine fun t _ => ⟨rfl, ?_⟩
    show ((t + 1) % 2 == 1) = !(t % 2 == 1)
    rcases Nat.mod_two_eq_zero_or_one t with h | h <;> simp [h, Nat.add_mod]
  obtain ⟨hheals, hlost⟩ := heals_after_phase_shift a hdriven late
  obtain ⟨houtput, hdecision⟩ := hheals 5 (by decide) rfl
  exact ⟨hdriven, rfl, houtput, hdecision, (hlost 3 8 (by decide)).trans (by decide)⟩

end Aligner
end LinkBridge
