import LinkBridge.Proofs.Crossing.Handshake
import LinkBridge.Proofs.Crossing.Pulse
import Mathlib.Algebra.Ring.Nat

/-!
Counting pulses across a pulse crossing.

A tick finds out whether the level has flipped since the tick before, and reports whether the level
that it brings out differs from the one brought out before.  In between a flip is a difference of
two neighbouring registers, so flips pass through the chain as values do through a queue that holds
one less than there are stages (`tick_balance`).

The level has flipped between two ticks if an odd number of pulses came between them.
-/

namespace LinkBridge.Crossing

/-- Whether each level of a list differs from the one before it. -/
def flips : List Bool → List Bool
  | a :: b :: rest => (a != b) :: flips (b :: rest)
  | _ => []

theorem flips_concat (a : Bool) (l : List Bool) (v : Bool) :
    flips (a :: l ++ [v]) = flips (a :: l) ++ [l.getLastD a != v] := by
  induction l generalizing a with
  | nil => rfl
  | cons b rest ih =>
    rw [List.getLastD_cons]
    exact congrArg ((a != b) :: ·) (ih b)

theorem flips_replicate (v : Bool) (n : Nat) :
    flips (List.replicate (n + 1) v) = List.replicate n false := by
  induction n with
  | zero => rfl
  | succ n ih =>
    show (v != v) :: flips (List.replicate (n + 1) v) = _
    rw [ih, bne_self_eq_false]
    rfl

namespace PulseCrossing

variable {p : PulseCrossing} {stages : Nat}

/-- The flips on their way through the chain, the oldest first. -/
def underWay (p : PulseCrossing) : List Bool := flips p.chain.registers.reverse

/-- Whether the level differs from the one that the last tick found. -/
def flipped (p : PulseCrossing) : Bool := p.chain.registers.headD p.level != p.level

/-- What a tick compares with is what the one before brought out. -/
structure Settled (stages : Nat) (p : PulseCrossing) : Prop where
  stages_ge : minStages ≤ stages
  stages_eq : p.chain.stages = stages
  seen_eq : p.seen = p.chain.output

namespace Settled

theorem new (stages : Nat) : (PulseCrossing.new stages).Settled (max stages minStages) where
  stages_ge := Nat.le_max_right stages minStages
  stages_eq := Chain.stages_new stages false
  seen_eq := (Chain.output_new stages false).symm

theorem underWay_new (stages : Nat) :
    (PulseCrossing.new stages).underWay = List.replicate (max stages minStages - 1) false := by
  obtain ⟨n, hn⟩ : ∃ n, max stages minStages = n + 1 :=
    Nat.exists_eq_succ_of_ne_zero (Nat.ne_of_gt (Chain.max_stages_pos stages))
  show flips (List.replicate (max stages minStages) false).reverse = _
  rw [List.reverse_replicate, hn, flips_replicate]
  rfl

theorem flipped_new (stages : Nat) : (PulseCrossing.new stages).flipped = false := by
  show ((List.replicate (max stages minStages) false).headD false != false) = false
  cases max stages minStages <;> rfl

theorem pulse (h : p.Settled stages) : p.pulse.Settled stages :=
  ⟨h.stages_ge, h.stages_eq, h.seen_eq⟩

theorem tick (h : p.Settled stages) : p.tick.1.Settled stages where
  stages_ge := h.stages_ge
  stages_eq := Chain.stages_drive_tick (Nat.lt_of_lt_of_le (by decide) h.stages_ge) h.stages_eq _
  seen_eq := rfl

theorem stages_pos (h : p.Settled stages) : 0 < p.chain.stages := by
  rw [h.stages_eq]
  exact Nat.lt_of_lt_of_le (by decide) h.stages_ge

/-- The two oldest registers and those behind them. -/
theorem exists_registers (h : p.Settled stages) :
    ∃ oldest next rest, p.chain.registers = (oldest :: next :: rest).reverse := by
  have hlength : 2 ≤ p.chain.registers.reverse.length := by
    rw [List.length_reverse]
    exact Nat.le_trans h.stages_ge (Nat.le_of_eq h.stages_eq.symm)
  match hregisters : p.chain.registers.reverse, hlength with
  | oldest :: next :: rest, _ => exact ⟨oldest, next, rest, List.reverse_eq_iff.mp hregisters⟩

theorem flipped_pulse (h : p.Settled stages) : p.pulse.flipped = !p.flipped := by
  obtain ⟨newest, rest, hregisters⟩ : ∃ newest rest, p.chain.registers = newest :: rest :=
    List.exists_cons_of_length_pos h.stages_pos
  unfold flipped
  show (p.chain.registers.headD (!p.level) != !p.level) = _
  rw [hregisters, List.headD_cons, List.headD_cons]
  cases newest <;> cases p.level <;> rfl

/-- A flip that a tick finds enters the chain, and the one at its end is reported. -/
theorem tick_balance (h : p.Settled stages) :
    p.tick.2 :: p.tick.1.underWay = p.underWay ++ [p.flipped] := by
  obtain ⟨oldest, next, rest, hregisters⟩ := h.exists_registers
  have hseen : p.seen = oldest := by
    rw [h.seen_eq, Chain.output, hregisters, List.reverse_cons, List.getLastD_concat]
  have hnext : p.tick.1.chain.registers.reverse = next :: rest ++ [p.level] := by
    show (p.level :: p.chain.registers.dropLast).reverse = _
    rw [hregisters, List.dropLast_reverse, List.reverse_cons, List.reverse_reverse]
    rfl
  have hreport : p.tick.2 = (oldest != next) := by
    have houtput : p.tick.1.chain.output = next := by
      rw [Chain.output, List.reverse_eq_iff.mp hnext, List.cons_append, List.reverse_cons,
        List.getLastD_concat]
    show (p.tick.1.chain.output != p.seen) = _
    rw [houtput, hseen, bne_comm]
  have hflipped : p.flipped = ((next :: rest).getLastD oldest != p.level) := by
    rw [flipped, hregisters, List.headD_eq_head?_getD, List.head?_reverse, List.getLast?_cons,
      ← List.getLastD_eq_getLast?]
    rfl
  rw [underWay, underWay, hnext, hreport, hflipped, hregisters, List.reverse_reverse]
  exact flips_concat oldest (next :: rest) p.level

end Settled

/-! ### Runs -/

inductive Event where
  | pulse
  | tick
deriving DecidableEq, Repr

def step (p : PulseCrossing) : Event → PulseCrossing
  | .pulse => p.pulse
  | .tick => p.tick.1

/-- Whether a tick sees a pulse. -/
def reportedBy (p : PulseCrossing) : Event → List Bool
  | .pulse => []
  | .tick => [p.tick.2]

/-- Whether a tick finds the level flipped. -/
def foundBy (p : PulseCrossing) : Event → List Bool
  | .pulse => []
  | .tick => [p.flipped]

theorem Settled.step (h : p.Settled stages) (e : Event) : (p.step e).Settled stages := by
  cases e with
  | pulse => exact h.pulse
  | tick => exact h.tick

theorem Settled.step_balance (h : p.Settled stages) (e : Event) :
    p.reportedBy e ++ (p.step e).underWay = p.underWay ++ p.foundBy e := by
  cases e with
  | pulse => exact (List.append_nil _).symm
  | tick => exact h.tick_balance

/-- How many pulses came before each tick and after the one before it.  The first of these numbers
counts pulses sent before as well. -/
def pulsesBetween (sent : Nat) : List Event → List Nat
  | [] => []
  | .pulse :: rest => pulsesBetween (sent + 1) rest
  | .tick :: rest => sent :: pulsesBetween 0 rest

/-- A tick finds the level flipped after an odd number of pulses. -/
theorem found_eq (h : p.Settled stages) {sent : Nat} (hsent : p.flipped = levelAfter sent)
    (events : List Event) :
    Trace.gather step foundBy p events = (pulsesBetween sent events).map levelAfter := by
  induction events generalizing p sent with
  | nil => rfl
  | cons e rest ih =>
    cases e with
    | pulse =>
      have hnext : p.pulse.flipped = levelAfter (sent + 1) := by
        rw [h.flipped_pulse, hsent, levelAfter_succ]
      exact ih h.pulse hnext
    | tick =>
      have hnone : p.tick.1.flipped = levelAfter 0 := bne_self_eq_false p.level
      have hrest := ih h.tick hnone
      show p.flipped :: Trace.gather step foundBy p.tick.1 rest = _
      rw [hsent, hrest]
      rfl

/-! ### Numbers of pulses -/

section Between

variable {sent : Nat}

/-- Later events leave the numbers alone. -/
theorem take_pulsesBetween (events later : List Event) :
    (pulsesBetween sent (events ++ later)).take (events.count .tick) =
      pulsesBetween sent events := by
  induction events generalizing sent with
  | nil => rfl
  | cons e rest ih => cases e <;> simp [pulsesBetween, ih]

/-- The numbers leave out the pulses after the last tick only. -/
theorem sum_pulsesBetween_le (events : List Event) :
    (pulsesBetween sent events).sum ≤ sent + events.count .pulse := by
  induction events generalizing sent with
  | nil => exact Nat.zero_le _
  | cons e rest ih =>
    cases e with
    | pulse =>
      have hrest : (pulsesBetween (sent + 1) rest).sum ≤ sent + 1 + rest.count .pulse := ih
      rw [pulsesBetween, List.count_cons_self]
      omega
    | tick =>
      have hrest : (pulsesBetween 0 rest).sum ≤ 0 + rest.count .pulse := ih
      rw [pulsesBetween, List.sum_cons, List.count_cons_of_ne (by decide)]
      omega

theorem sum_pulsesBetween_tick (events : List Event) :
    (pulsesBetween sent (events ++ [.tick])).sum = sent + events.count .pulse := by
  induction events generalizing sent with
  | nil => rfl
  | cons e rest ih =>
    cases e with
    | pulse =>
      rw [List.cons_append, pulsesBetween, ih, List.count_cons_self]
      omega
    | tick =>
      rw [List.cons_append, pulsesBetween, List.sum_cons, ih,
        List.count_cons_of_ne (by decide), Nat.zero_add]

end Between

/-- A sum exceeds the number of its odd summands by pairs. -/
theorem exists_pairs (l : List Nat) : ∃ pairs, l.sum = l.countP levelAfter + 2 * pairs := by
  induction l with
  | nil => exact ⟨0, rfl⟩
  | cons n rest ih =>
    obtain ⟨pairs, hpairs⟩ := ih
    have hodd : (if levelAfter n then 1 else 0) = n % 2 := by
      unfold levelAfter
      rcases Nat.mod_two_eq_zero_or_one n with h | h <;> rw [h] <;> rfl
    refine ⟨pairs + n / 2, ?_⟩
    rw [List.countP_cons, List.sum_cons, hodd, hpairs]
    omega

/-! ### Reports -/

section Reports

variable (stages : Nat) (events : List Event)

/-- What the ticks report, one after another. -/
def reports : List Bool := Trace.gather step reportedBy (new stages) events

theorem length_reports : (reports stages events).length = events.count .tick :=
  Trace.length_gather (fun p e => by cases e <;> rfl) (new stages) events

/-- A tick reports what was found `stages - 1` ticks before. -/
theorem reports_eq :
    reports stages events =
      (List.replicate (max stages minStages - 1) false ++
        (pulsesBetween 0 events).map levelAfter).take (events.count .tick) := by
  have hstart := Settled.new stages
  have hsent : (new stages).flipped = levelAfter 0 := Settled.flipped_new stages
  have hfound := found_eq hstart hsent events
  have hbalance := Trace.gather_balance underWay (fun p e hp _ => Settled.step hp e)
    (fun p e hp _ => Settled.step_balance hp e) hstart (Trace.along_true _ events)
  rw [Settled.underWay_new, hfound] at hbalance
  rw [← hbalance]
  exact (List.take_left' (length_reports stages events)).symm

theorem count_reports :
    (reports stages events).count true =
      ((pulsesBetween 0 events).take (events.count .tick + 1 - max stages minStages)).countP
        levelAfter := by
  have hmap : ∀ l : List Nat, (l.map levelAfter).count true = l.countP levelAfter := by
    intro l
    rw [List.count_eq_countP, List.countP_map]
    exact List.countP_congr fun n _ => by rw [Function.comp_apply, beq_iff_eq]
  have hindex : events.count .tick - (max stages minStages - 1) =
      events.count .tick + 1 - max stages minStages := by
    have hpos := Chain.max_stages_pos stages
    omega
  rw [reports_eq, List.take_append, List.length_replicate, hindex, List.take_replicate,
    ← List.map_take, List.count_append, List.count_replicate, hmap]
  exact Nat.zero_add _

/-- A tick reports a pulse if an odd number came between the two ticks that it looks back to. -/
theorem reports_getElem?_iff {i : Nat} :
    (reports stages events)[i]? = some true ↔
      ∃ k n, k + max stages minStages = i + 1 ∧ i < events.count .tick ∧
        (pulsesBetween 0 events)[k]? = some n ∧ n % 2 = 1 := by
  have hpos := Chain.max_stages_pos stages
  rw [reports_eq, List.getElem?_take, List.getElem?_append, List.length_replicate,
    List.getElem?_replicate, List.getElem?_map]
  generalize max stages minStages = s at hpos ⊢
  constructor
  · intro h
    split at h
    · split at h
      · exact absurd h (by simp)
      · obtain ⟨n, hn, hodd⟩ := Option.map_eq_some_iff.mp h
        exact ⟨i - (s - 1), n, by omega, ‹_›, hn, beq_iff_eq.mp hodd⟩
    · exact nomatch h
  · rintro ⟨k, n, hk, hi, hn, hodd⟩
    have hlate : ¬i < s - 1 := by omega
    have hindex : i - (s - 1) = k := by omega
    rw [if_pos hi, if_neg hlate, hindex, hn]
    exact congrArg some (beq_iff_eq.mpr hodd)

/-- What is sent before the last ticks, as many as there are stages, has all come out by then. -/
theorem count_reports_mod_two {quiet : Nat} (hquiet : max stages minStages ≤ quiet) :
    (reports stages (events ++ List.replicate quiet .tick)).count true % 2 =
      events.count .pulse % 2 := by
  obtain ⟨more, rfl⟩ := Nat.exists_eq_add_of_le' hquiet
  obtain ⟨rest, hrest⟩ : ∃ rest, max stages minStages = rest + 1 :=
    Nat.exists_eq_succ_of_ne_zero (Nat.ne_of_gt (Chain.max_stages_pos stages))
  generalize hfed : events ++ List.replicate more .tick ++ [.tick] = fed
  have hsplit : events ++ List.replicate (more + (rest + 1)) .tick =
      fed ++ List.replicate rest .tick := by
    rw [← hfed, ← List.replicate_append_replicate, List.replicate_succ, List.append_assoc,
      List.append_assoc]
    rfl
  have hticks : (fed ++ List.replicate rest Event.tick).count Event.tick + 1 - (rest + 1) =
      fed.count Event.tick := by
    rw [List.count_append, List.count_replicate_self, Nat.add_assoc, Nat.add_sub_cancel]
  have hsum : (pulsesBetween 0 fed).sum = events.count .pulse := by
    rw [← hfed, sum_pulsesBetween_tick, List.count_append, List.count_replicate]
    exact Nat.zero_add _
  obtain ⟨pairs, hpairs⟩ := exists_pairs (pulsesBetween 0 fed)
  rw [count_reports, hrest, hsplit, hticks, take_pulsesBetween]
  omega

end Reports

/-- Whatever the order of pulses and ticks: each odd number of pulses between two ticks is reported
once, as soon as as many ticks as there are stages have followed.  So there are never more reports
than pulses, and when so many ticks have followed the last pulse, the two are both even or both odd.
If no two pulses fall between the same two ticks, every pulse is reported, `stages` ticks later. -/
theorem pulses_counted_by_parity (stages : Nat) (events : List Event) :
    let s := max stages minStages
    let detections := fun events => (reports stages events).count true
    let ticks := events.count .tick
    let pulses := events.count .pulse
    let between := pulsesBetween 0 events
    (reports stages events).length = ticks ∧
      detections events = (between.take (ticks + 1 - s)).countP (· % 2 == 1) ∧
      detections events ≤ pulses ∧
      (∀ quiet, s ≤ quiet →
        detections (events ++ List.replicate quiet .tick) % 2 = pulses % 2) ∧
      ((∀ n ∈ between, n ≤ 1) → ∀ i, (reports stages events)[i]? = some true ↔
        ∃ k, k + s = i + 1 ∧ i < ticks ∧ between[k]? = some 1) := by
  intro s detections ticks pulses between
  have hodd : detections events = (between.take (ticks + 1 - s)).countP (· % 2 == 1) :=
    count_reports stages events
  refine ⟨length_reports stages events, hodd, ?_, fun quiet hquiet => ?_, fun hone i => ?_⟩
  · obtain ⟨pairs, hpairs⟩ := exists_pairs between
    have hsum : between.sum ≤ 0 + pulses := sum_pulsesBetween_le events
    have htake : (between.take (ticks + 1 - s)).countP levelAfter ≤ between.countP levelAfter :=
      (List.take_sublist _ _).countP_le
    have hcount : detections events = (between.take (ticks + 1 - s)).countP levelAfter := hodd
    omega
  · exact count_reports_mod_two stages events hquiet
  · have hreport := reports_getElem?_iff stages events (i := i)
    refine hreport.trans ⟨?_, ?_⟩
    · rintro ⟨k, n, hk, hi, hn, hnodd⟩
      have hle := hone n (List.mem_of_getElem? hn)
      obtain rfl : n = 1 := by omega
      exact ⟨k, hk, hi, hn⟩
    · rintro ⟨k, hk, hi, hn⟩
      exact ⟨k, 1, hk, hi, hn, rfl⟩

example : reports 2 [.pulse, .tick, .pulse, .pulse, .tick, .tick, .pulse, .tick, .tick] =
    [false, true, false, false, true] := by decide

end PulseCrossing
end LinkBridge.Crossing
