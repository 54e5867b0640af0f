import LinkBridge.Sample.Aligner

/-!
Putting a late stream right.

A transmitter drives one frame level on both phases of a cycle and the other level in the next, so a
late receiver sees frame bits that differ, and the aligner gives back what was driven
(`Aligner.tick_seen`).  Before the first sample there are only zeros, whose levels do not alternate;
a late stream of them looks aligned, and as it is zero too it is right as it stands.  `Realigns` is
what holds from the start on, whether the stream is late or not.
-/

namespace LinkBridge

namespace LinkSample

/-- What a receiver takes of two samples driven one after the other. -/
def seen (late : Bool) (before now : LinkSample) : LinkSample :=
  if late then before.late now else now

theorem late_late (a b c : LinkSample) : (a.late b).late (b.late c) = b := rfl

theorem seen_default (late : Bool) : seen late default default = default := by
  cases late <;> rfl

/-- Samples whose frame levels alternate, from the level of the first to the level that comes after
the last. -/
inductive Alternating : Bool → List LinkSample → Bool → Prop where
  | nil (frame : Bool) : Alternating frame [] frame
  | cons (w : LinkWord) {frame next : Bool} {rest : List LinkSample}
      (h : Alternating (!frame) rest next) : Alternating frame (.framed w frame :: rest) next

theorem Alternating.snoc {frame next : Bool} {l : List LinkSample} (h : Alternating frame l next)
    (w : LinkWord) : Alternating frame (l ++ [.framed w next]) (!next) := by
  induction h with
  | nil frame => exact .cons w (.nil _)
  | cons v _ ih => exact .cons v ih

end LinkSample

open LinkSample

namespace Aligner

theorem last_tick (a : Aligner) (s : LinkSample) : (a.tick s).1.last = some s := rfl

/-- After its first sample an aligner always gives one out. -/
theorem exists_output {a : Aligner} (h : a.last.isSome = true) (s : LinkSample) :
    ∃ output, (a.tick s).2 = some output := by
  obtain ⟨last, hlast⟩ := Option.isSome_iff_exists.mp h
  unfold tick
  rw [hlast]
  exact ⟨_, rfl⟩

theorem tick_of_aligned (a : Aligner) {s : LinkSample} (h : s.isAligned = true) :
    (a.tick s).2 = a.last := by
  unfold tick
  cases hlast : a.last <;> simp [h]

theorem tick_of_misaligned (a : Aligner) {s : LinkSample} (h : s.isAligned = false) :
    (a.tick s).2 = a.last.map (·.late s) := by
  unfold tick
  rw [h]
  rfl

variable {late started : Bool} {a : Aligner}

/-- Of samples with alternating levels, the aligner gives out the one driven a cycle before. -/
theorem tick_seen {before : LinkSample} {v w : LinkWord} {frame : Bool}
    (hlast : a.last = if started then some (seen late before (.framed v frame)) else none) :
    (a.tick (seen late (.framed v frame) (.framed w (!frame)))).2 =
      if started then some (.framed v frame) else none := by
  cases late with
  | false =>
    rw [tick_of_aligned a (beq_self_eq_true _), hlast]
    rfl
  | true =>
    have hmisaligned : (seen true (.framed v frame) (.framed w (!frame))).isAligned = false := by
      cases frame <;> rfl
    rw [tick_of_misaligned a hmisaligned, hlast]
    cases started with
    | false => rfl
    | true => exact congrArg some (late_late before _ _)

/-- After zeros it gives out zero, whatever comes. -/
theorem tick_seen_default {s : LinkSample} (hs : s.isAligned = true)
    (hlast : a.last = if started then some default else none) :
    (a.tick (seen late default s)).2 = if started then some default else none := by
  cases haligned : (seen late default s).isAligned with
  | true => rw [tick_of_aligned a haligned, hlast]
  | false =>
    cases late with
    | false =>
      have hsame : s.isAligned = false := haligned
      rw [hs] at hsame
      exact nomatch hsame
    | true =>
      rw [tick_of_misaligned a haligned, hlast]
      cases started <;> rfl

end Aligner

/-- The aligner's last sample, against the samples that the transceiver holds: the one driven last,
then those on their way.  The next sample to join them has the given frame level. -/
inductive Realigns (late started : Bool) : Option LinkSample → List LinkSample → Bool → Prop where
  | quiet (zeros : Nat) {frame next : Bool} {l : List LinkSample} (h : Alternating frame l next) :
      Realigns late started (if started then some default else none)
        (List.replicate (zeros + 1) default ++ l) next
  | running (before : LinkSample) (w : LinkWord) {frame next : Bool} {l : List LinkSample}
      (h : Alternating frame (.framed w frame :: l) next) :
      Realigns late started (if started then some (seen late before (.framed w frame)) else none)
        (.framed w frame :: l) next

namespace Realigns

variable {late started : Bool} {a : Aligner} {held rest : List LinkSample}
  {previous current : LinkSample} {frame : Bool} {w : LinkWord}

/-- A sample joins and the next one is driven: the aligner gives out the one before, in time or
late. -/
theorem tick (h : Realigns late started a.last (previous :: held) frame)
    (hnext : held ++ [.framed w frame] = current :: rest) :
    (a.tick (seen late previous current)).2 = (if started then some previous else none) ∧
      Realigns late true (a.tick (seen late previous current)).1.last (current :: rest)
        (!frame) := by
  generalize hlast : a.last = last at h
  generalize hheld : previous :: held = path at h
  cases h with
  | @quiet zeros first _ l h =>
    obtain ⟨rfl, rfl⟩ := List.cons.inj hheld
    have hjoined := h.snoc w
    cases zeros with
    | zero =>
      -- the first sample after the zeros
      replace hnext : l ++ [.framed w frame] = current :: rest := hnext
      rw [hnext] at hjoined
      cases hjoined with
      | @cons v _ _ _ hrest =>
        refine ⟨Aligner.tick_seen_default (beq_self_eq_true _) hlast, ?_⟩
        rw [Aligner.last_tick]
        exact .running default v (.cons v hrest)
    | succ zeros =>
      have hshape : List.replicate (zeros + 1) default ++ l ++ [.framed w frame] =
          default :: (List.replicate zeros default ++ (l ++ [.framed w frame])) := by
        simp [List.replicate_succ]
      obtain ⟨rfl, rfl⟩ := List.cons.inj (hshape.symm.trans hnext)
      refine ⟨Aligner.tick_seen_default rfl hlast, ?_⟩
      rw [Aligner.last_tick, seen_default]
      exact .quiet zeros hjoined
  | @running before v first _ l h =>
    obtain ⟨rfl, rfl⟩ := List.cons.inj hheld
    cases h with
    | cons _ h =>
      have hjoined := h.snoc w
      rw [hnext] at hjoined
      cases hjoined with
      | cons u hrest =>
        refine ⟨Aligner.tick_seen hlast, ?_⟩
        rw [Aligner.last_tick]
        exact .running _ u (.cons u hrest)

end Realigns
end LinkBridge
