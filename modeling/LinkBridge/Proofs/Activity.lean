import LinkBridge.Activity
import Mathlib.Order.Basic

/-!
Laws of link clock activity.

After `n` ticks a monitor is `n % window` ticks into a window, its counter is zero exactly if that
part of the window had no pulse, and it shows whether the window before had one (`Watches`).  This
needs a counter that never comes back to zero by counting.  On the other side, so many link cycles
have sent a pulse for every sixteen of them.
-/

namespace LinkBridge

/-- Whether so many link cycles have sent an odd number of pulses. -/
def oddPulses (links : Nat) : Bool := links / activityDivisor % 2 = 1

theorem oddPulses_succ (links : Nat) :
    oddPulses (links + 1) =
      if (links + 1) % activityDivisor = 0 then !oddPulses links else oddPulses links := by
  show decide ((links + 1) / 16 % 2 = 1) =
    if (links + 1) % 16 = 0 then !decide (links / 16 % 2 = 1) else decide (links / 16 % 2 = 1)
  by_cases hpulse : (links + 1) % 16 = 0
  · rw [if_pos hpulse, ← decide_not, decide_eq_decide]
    omega
  · rw [if_neg hpulse, decide_eq_decide]
    omega

/-- Two counts of link cycles differ by an odd number of pulses. -/
theorem oddPulses_ne_iff {earlier later : Nat} (h : earlier ≤ later) :
    oddPulses later ≠ oddPulses earlier ↔
      (later / activityDivisor - earlier / activityDivisor) % 2 = 1 := by
  have hle := Nat.div_le_div_right (c := activityDivisor) h
  simp only [oddPulses, ne_eq, decide_eq_decide]
  omega

theorem saturatingSucc_ne_zero (count : UInt32) : saturatingSucc count ≠ 0 := by
  unfold saturatingSucc
  split
  · rename_i hlast
    rintro rfl
    exact absurd hlast (by decide)
  · assumption

namespace ActivityMonitor

theorem counted_ne_zero_iff {m : ActivityMonitor} {pulse : Bool} :
    m.counted pulse ≠ 0 ↔ m.pulses ≠ 0 ∨ pulse = true := by
  cases pulse with
  | false => simp [counted]
  | true => simp [counted, saturatingSucc_ne_zero]

theorem tick_of_last {m : ActivityMonitor} {pulse : Bool} (h : m.window ≤ m.elapsed + 1) :
    m.tick pulse = { m with elapsed := 0, pulses := 0, active := m.counted pulse ≠ 0 } :=
  if_pos h

theorem tick_of_open {m : ActivityMonitor} {pulse : Bool} (h : m.elapsed + 1 < m.window) :
    m.tick pulse = { m with elapsed := m.elapsed + 1, pulses := m.counted pulse } :=
  if_neg (Nat.not_le.mpr h)

/-- The monitor after `n` ticks, of which those that satisfy `pulse` had one. -/
structure Watches (m : ActivityMonitor) (window : Nat) (pulse : Nat → Prop) (n : Nat) : Prop where
  window_eq : m.window = window
  elapsed_eq : m.elapsed = n % window
  pulses_iff : m.pulses ≠ 0 ↔ ∃ d, n - n % window < d ∧ d ≤ n ∧ pulse d
  active_iff : m.active = true ↔
    ∃ d, n - n % window - window < d ∧ d ≤ n - n % window ∧ pulse d

namespace Watches

variable {m : ActivityMonitor} {window n : Nat} {pulse : Nat → Prop} {seen : Bool}

theorem new (hwindow : 0 < window) : (ActivityMonitor.new window).Watches window pulse 0 where
  window_eq := Nat.max_eq_left hwindow
  elapsed_eq := (Nat.zero_mod window).symm
  pulses_iff := by
    refine ⟨fun h => absurd rfl h, fun ⟨d, hlow, hhigh, _⟩ => ?_⟩
    omega
  active_iff := by
    refine ⟨fun h => (nomatch h), fun ⟨d, hlow, hhigh, _⟩ => ?_⟩
    omega

theorem counted_iff (h : m.Watches window pulse n) (hseen : seen = true ↔ pulse (n + 1)) :
    m.counted seen ≠ 0 ↔ ∃ d, n - n % window < d ∧ d ≤ n + 1 ∧ pulse d := by
  rw [counted_ne_zero_iff, h.pulses_iff, hseen]
  constructor
  · rintro (⟨d, hlow, hhigh, hd⟩ | hnow)
    · exact ⟨d, hlow, by omega, hd⟩
    · exact ⟨n + 1, by omega, Nat.le_refl _, hnow⟩
  · rintro ⟨d, hlow, hhigh, hd⟩
    rcases Nat.lt_or_eq_of_le hhigh with hlt | rfl
    · exact .inl ⟨d, hlow, by omega, hd⟩
    · exact .inr hd

theorem tick (h : m.Watches window pulse n) (hwindow : 0 < window)
    (hseen : seen = true ↔ pulse (n + 1)) : (m.tick seen).Watches window pulse (n + 1) := by
  have hcounted := h.counted_iff hseen
  have hlt := Nat.mod_lt n hwindow
  by_cases hlast : n % window + 1 = window
  · -- the window ends, and what it had becomes what the monitor shows
    have hmod : (n + 1) % window = 0 := by
      rw [← Nat.mod_add_mod, hlast, Nat.mod_self]
    have hstart : n + 1 - (n + 1) % window - window = n - n % window := by omega
    rw [tick_of_last (by rw [h.window_eq, h.elapsed_eq]; omega)]
    refine ⟨h.window_eq, hmod.symm, ⟨fun hnone => absurd rfl hnone, ?_⟩, ?_⟩
    · rintro ⟨d, hlow, hhigh, -⟩
      omega
    · rw [hstart, hmod, Nat.sub_zero, decide_eq_true_iff]
      exact hcounted
  · have hmod : (n + 1) % window = n % window + 1 := by
      rw [← Nat.mod_add_mod, Nat.mod_eq_of_lt (by omega)]
    have hstart : n + 1 - (n + 1) % window = n - n % window := by omega
    rw [tick_of_open (by rw [h.window_eq, h.elapsed_eq]; omega)]
    refine ⟨h.window_eq, (congrArg (· + 1) h.elapsed_eq).trans hmod.symm, ?_, ?_⟩
    · rw [hstart]
      exact hcounted
    · rw [hstart]
      exact h.active_iff

/-- The monitor after the first `n` of some ticks. -/
theorem run (hwindow : 0 < window) {pulses : List Bool} (hn : n ≤ pulses.length) :
    ((pulses.take n).foldl ActivityMonitor.tick (ActivityMonitor.new window)).Watches window
      (fun k => pulses[k - 1]? = some true) n := by
  induction n with
  | zero => exact Watches.new hwindow
  | succ n ih =>
    have hlt : n < pulses.length := hn
    have hseen : pulses[n] = true ↔ pulses[n + 1 - 1]? = some true := by
      rw [Nat.add_sub_cancel, List.getElem?_eq_getElem hlt, Option.some.injEq]
    rw [← List.take_append_getElem hlt, List.foldl_append]
    exact (ih (Nat.le_of_lt hlt)).tick hwindow hseen

end Watches

/-- After some ticks a monitor shows activity exactly if a window is complete and one of the ticks
of the last complete window had a pulse.  How many pulses a window had, and what the windows before
had, makes no difference. -/
theorem active_iff_pulse_in_window (window : Nat) (pulses : List Bool) :
    (pulses.foldl tick (new window)).active = true ↔
      max window 1 ≤ pulses.length ∧
        ∃ k, (pulses.length / max window 1 - 1) * max window 1 + 1 ≤ k ∧
          k ≤ pulses.length / max window 1 * max window 1 ∧ pulses[k - 1]? = some true := by
  have hnew : new window = new (max window 1) := by simp [new]
  have hpos : 0 < max window 1 := Nat.le_max_right window 1
  rw [hnew]
  generalize max window 1 = w at hpos ⊢
  have hwatch := Watches.run hpos (Nat.le_refl pulses.length)
  rw [List.take_length] at hwatch
  have hcomplete : pulses.length - pulses.length % w = pulses.length / w * w :=
    Nat.sub_eq_of_eq_add (Nat.div_add_mod' pulses.length w).symm
  rw [hwatch.active_iff, hcomplete, Nat.sub_one_mul]
  refine ⟨fun ⟨k, hlow, hhigh, hpulse⟩ => ⟨?_, k, hlow, hhigh, hpulse⟩, And.right⟩
  -- before the first window is complete there is no tick to look at
  by_contra hshort
  rw [Nat.div_eq_of_lt (Nat.lt_of_not_le hshort), Nat.zero_mul] at hhigh
  omega

/-- A window of three: the fifth tick still shows the first window, the sixth the second. -/
example :
    ([false, true, true, false, false].foldl tick (new 3)).active = true ∧
      ([false, true, true, false, false, false].foldl tick (new 3)).active = false := by decide

end ActivityMonitor
end LinkBridge
