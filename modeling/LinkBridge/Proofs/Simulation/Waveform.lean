import LinkBridge.Proofs.Simulation.EdgeTimes
import LinkBridge.Proofs.Waveform.Replay

/-!
The recorded waveform of a session.

Each step feeds the recording once, at the instant of its edge and with what the bridge shows after
it.  Instants do not fall from step to step, and nothing else that the owner does reaches the
recording; so its text replays to the waveform of the session.
-/

namespace LinkBridge.Simulation

open Waveform (Moment Shows Faithful)

variable {s : Simulation} {seen : List Simulation}

/-- What the probes show. -/
def moment (s : Simulation) : Moment := ⟨s.now.fs, fun p => p.sample s.bridge s.linkRunning⟩

/-- What the probes show after each of the steps that were made in the listed states. -/
def moments (states : List Simulation) : List Moment := states.map (·.step.moment)

theorem recording_step (s : Simulation) :
    s.step.recording =
      s.recording.map fun r => r.step s.step.now.fs s.step.bridge s.step.linkRunning := by
  cases hdue : s.schedule.due with
  | control =>
    rw [step, stepEdge_control hdue]
    rfl
  | link =>
    rw [step, stepEdge_link hdue]
    rfl

/-- A recording that has seen all steps since it was attached. -/
structure Recorded (seen : List Simulation) (s : Simulation) : Prop where
  shown : ∃ r blocks, s.recording = some r ∧ Shows (moments seen) blocks r
  past : ∀ m ∈ moments seen, m.fs ≤ s.schedule.dueTime.fs

namespace Recorded

theorem attach (s : Simulation) : Recorded [] s.attach where
  shown := ⟨.start, [], rfl, .start⟩
  past _ hm := absurd hm List.not_mem_nil

theorem step (h : Recorded seen s) : Recorded (seen ++ [s]) s.step where
  shown := by
    obtain ⟨r, blocks, hr, hshows⟩ := h.shown
    have hpast : ∀ m ∈ moments seen, m.fs ≤ s.step.now.fs := by
      rw [now_step]
      exact h.past
    obtain ⟨more, hmore⟩ := hshows.step hpast s.step.bridge s.step.linkRunning
    have hrecording : s.step.recording =
        some (r.step s.step.now.fs s.step.bridge s.step.linkRunning) := by
      rw [recording_step, hr]
      rfl
    refine ⟨_, more, hrecording, ?_⟩
    rw [moments, List.map_append]
    exact hmore
  past := by
    have hadvance := s.schedule.dueTime_le_advance
    rw [moments, List.map_append, schedule_step]
    refine List.forall_mem_append.mpr ⟨fun m hm => Nat.le_trans (h.past m hm) hadvance, ?_⟩
    refine List.forall_mem_singleton.mpr ?_
    show s.step.now.fs ≤ _
    rw [now_step]
    exact hadvance

theorem conclude (h : Recorded seen s) (start : Time) {a : Action} (hattach : a ≠ .attach)
    (hfinish : a = .finish → seen ≠ []) : Recorded seen (s.conclude start a) := by
  refine ⟨?_, by rw [schedule_conclude]; exact h.past⟩
  cases a with
  | attach => exact absurd rfl hattach
  | finish =>
    obtain ⟨r, blocks, hr, hshows⟩ := h.shown
    have hne : moments seen ≠ [] := fun hnil => hfinish rfl (List.map_eq_nil_iff.mp hnil)
    refine ⟨r, blocks, ?_, hshows⟩
    show s.recording.map (·.finish) = some r
    rw [hr, Option.map_some, hshows.finish_eq hne]
  | run span =>
    simp only [Simulation.conclude]
    split <;> exact h.shown
  | write address value =>
    simp only [Simulation.conclude, Simulation.act]
    split <;> exact h.shown
  | _ => exact h.shown

theorem act (h : Recorded seen s) {a : Action} (hattach : a ≠ .attach)
    (hfinish : a = .finish → seen ≠ []) :
    Recorded (seen ++ s.passed (s.edges a)) (s.act a) := by
  have hsteps : Recorded (seen ++ s.passed (s.edges a)) (s.steps (s.edges a)) :=
    passed_invariant (A := fun _ => True) (fun _ _ hu _ => hu.step) h fun _ _ => trivial
  rw [act_eq]
  exact hsteps.conclude s.now hattach fun ha => List.append_ne_nil_of_left_ne_nil (hfinish ha) _

/-- A session may finish its recording if steps have been seen before. -/
theorem session (h : Recorded seen s) {F : Prop} (hseen : F → seen ≠ [])
    {actions : List Action} (hkinds : ∀ a ∈ actions, a ≠ .attach ∧ (a = .finish → F)) :
    Recorded (seen ++ s.timeline actions) (s.session actions) := by
  have hstep : ∀ (seen : List Simulation) (u : Simulation) (a : Action),
      Recorded seen u ∧ (F → seen ≠ []) → a ≠ .attach ∧ (a = .finish → F) →
      Recorded (seen ++ u.passed (u.edges a)) (u.act a) ∧
        (F → seen ++ u.passed (u.edges a) ≠ []) := by
    rintro seen u a ⟨hu, hne⟩ ⟨hattach, hfinish⟩
    exact ⟨hu.act hattach fun ha => hne (hfinish ha),
      fun hf => List.append_ne_nil_of_left_ne_nil (hne hf) _⟩
  exact (Trace.gather_invariant hstep ⟨h, hseen⟩
    (Trace.along_of_forall s fun a ha _ => hkinds a ha)).1

end Recorded

end LinkBridge.Simulation
