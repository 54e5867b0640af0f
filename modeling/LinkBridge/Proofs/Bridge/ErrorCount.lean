import LinkBridge.Proofs.Bridge.Latency
import LinkBridge.Proofs.Bridge.Setting
import LinkBridge.Proofs.Pattern.Mismatches
import Mathlib.Data.List.Induction

/-!
The error count since the checker was enabled.

A link cycle between the control cycle that hands over a disable and the one that hands over the
next enable feeds the chains a disable, so one comes out right in front of the enable, however short
the pause was.  In that cycle the checker goes off, and in the next, `syncStages` link cycles after
the enabling control cycle, it starts from nothing (`cleared_after`).  From there on every link
cycle gives it what the aligner puts out, and its count is that of the mismatches in this stream.
-/

namespace LinkBridge

open Crossing

namespace Session

/-- What the aligner puts out in a link cycle. -/
def alignerOutputs (s : Session) : Operation → List LinkSample
  | .link received => (s.bridge.link.aligner.tick (s.bridge.boundary received)).2.toList
  | _ => []

theorem link_run_of_none (s : Session) {ops : List Operation}
    (h : ops.countP Operation.isLink = 0) : (s.run ops).bridge.link = s.bridge.link := by
  have hnone : ∀ o ∈ ops, o.isLink = false := by
    intro o ho
    rw [List.countP_eq_zero] at h
    exact Bool.eq_false_iff.mpr (h o ho)
  exact Trace.final_invariant (P := fun u : Session => u.bridge.link = s.bridge.link)
    (fun u o hu ho => (link_step_of_other u ho).trans hu) rfl
    (Trace.along_of_forall s fun o ho _ => hnone o ho)

/-- The link side is as its last cycle left it. -/
theorem link_run_of_last (s : Session) (before : List Operation) (received : LinkSample)
    {after : List Operation} (h : after.countP Operation.isLink = 0) :
    (s.run (before ++ .link received :: after)).bridge.link =
      ((s.run before).bridge.tickLink received).link := by
  have hsplit : s.run (before ++ .link received :: after) =
      ((s.run before).step (.link received)).run after := Trace.final_append s before _
  rw [hsplit, link_run_of_none _ h]
  rfl

/-- What the register holds after it was written, and written again only with values alike. -/
theorem rxPattern_run_of_write {P : PatternControl → Prop} (s : Session)
    (prior : List Operation) {bits : UInt32} (hbits : P (PatternControl.ofBits bits))
    {ops : List Operation}
    (hops : ∀ o ∈ ops, o.WritesOnly .rxPattern fun bits => P (PatternControl.ofBits bits)) :
    P (s.run (prior ++ .write Register.rxPattern.address bits :: ops)).bridge.control.rxPattern := by
  have hsplit : s.run (prior ++ .write Register.rxPattern.address bits :: ops) =
      ((s.run prior).step (.write Register.rxPattern.address bits)).run ops :=
    Trace.final_append s prior _
  have hwritten : P ((s.run prior).step
      (.write Register.rxPattern.address bits)).bridge.control.rxPattern := hbits
  rw [hsplit]
  exact Setting.rxPattern.value_run hwritten hops

/-- If the register satisfies a predicate and goes on to do so, then all requests do. -/
theorem requests_rx {P : PatternControl → Prop} {s : Session}
    (h : P s.bridge.control.rxPattern) {ops : List Operation}
    (hops : ∀ o ∈ ops, o.WritesOnly .rxPattern fun bits => P (PatternControl.ofBits bits)) :
    ∀ c ∈ Trace.gather step requests s ops, P c.rx := by
  intro c hc
  obtain ⟨earlier, o, later, rfl, hmade⟩ := Trace.exists_of_mem_gather hc
  cases o with
  | control =>
    obtain rfl := List.mem_singleton.mp hmade
    exact Setting.rxPattern.value_run h fun o ho => hops o (List.mem_append_left _ ho)
  | _ => exact nomatch hmade

section Restart

variable {p : BridgeParams} {b : Bridge} (hb : Bridge.new p = .ok b) (t : Transport)

include hb

/-- The disable that comes out right before the enable. -/
theorem disabled_before {earlier held settling : List Operation}
    (hoff : ∀ c ∈ Trace.gather step requests (run ⟨b, t⟩ earlier) (.control :: held),
      c.rx.enable = false)
    (hlink : 0 < held.countP Operation.isLink)
    (hsettling : settling.countP Operation.isLink + 2 = p.syncStages) :
    (run ⟨b, t⟩ (earlier ++ .control :: held ++ .control :: settling)).bridge.linkControls.rx.enable
      = false := by
  obtain ⟨before, received, after, rfl, hafter⟩ := exists_link hlink
  have hshape : earlier ++ .control :: (before ++ .link received :: after) ++ .control :: settling =
      earlier ++ .control :: before ++ .link received :: (after ++ .control :: settling) := by
    simp
  rw [hshape]
  refine hoff _ ?_
  rw [← List.cons_append, Trace.gather_append]
  refine List.mem_append_left _ (linkControls_mem_requests hb t earlier before received ?_)
  rw [List.countP_append, hafter, Nat.zero_add]
  exact hsettling

theorem enabled_after {v : PatternControl} {earlier settling : List Operation}
    (hvalue : (run ⟨b, t⟩ earlier).bridge.control.rxPattern = v)
    (hkeep : ∀ o ∈ settling, o.WritesOnly .rxPattern fun bits => PatternControl.ofBits bits = v)
    (hsettling : p.syncStages ≤ settling.countP Operation.isLink + 1) :
    (run ⟨b, t⟩ (earlier ++ .control :: settling)).bridge.linkControls.rx = v := by
  have hstages := BridgeParams.minStages_le (Bridge.check_of_new hb)
  have htwo : minStages = 2 := rfl
  have hlinks : p.syncStages - 2 < settling.countP Operation.isLink := by omega
  obtain ⟨before, received, after, rfl, hafter⟩ := exists_link hlinks
  have hmem := linkControls_mem_requests hb t earlier before received
    (show after.countP Operation.isLink + 2 = p.syncStages by omega)
  rw [List.append_assoc] at hmem
  refine requests_rx (P := (· = v)) hvalue (fun o ho => ?_) _ hmem
  rcases List.mem_cons.mp ho with rfl | ho
  · exact trivial
  · exact hkeep o (List.mem_append_left _ ho)

/-- After as many link cycles as there are stages the checker has just started. -/
theorem cleared_after {m : PatternMode} {earlier held settling : List Operation}
    (hoff : ∀ c ∈ Trace.gather step requests (run ⟨b, t⟩ earlier) (.control :: held),
      c.rx.enable = false)
    (hlink : 0 < held.countP Operation.isLink)
    (hvalue : (run ⟨b, t⟩ (earlier ++ .control :: held)).bridge.control.rxPattern = ⟨true, m⟩)
    (hkeep : ∀ o ∈ settling,
      o.WritesOnly .rxPattern fun bits => PatternControl.ofBits bits = ⟨true, m⟩)
    (hsettling : settling.countP Operation.isLink = p.syncStages) :
    let link := (run ⟨b, t⟩ (earlier ++ .control :: held ++ .control :: settling)).bridge.link
    link.checker = { enabled := true } ∧ link.aligner.last.isSome = true := by
  intro link
  have hstages := BridgeParams.minStages_le (Bridge.check_of_new hb)
  have htwo : minStages = 2 := rfl
  -- the last two link cycles: the checker goes off in the one and starts in the other
  have hlast : 0 < settling.countP Operation.isLink := by omega
  obtain ⟨upto, received, after, rfl, hafter⟩ := exists_link hlast
  rw [List.countP_append, List.countP_cons_of_pos rfl, hafter] at hsettling
  have hbefore : 0 < upto.countP Operation.isLink := by omega
  obtain ⟨first, sample, between, rfl, hbetween⟩ := exists_link hbefore
  have henabled := enabled_after hb t hvalue
    (fun o ho => hkeep o (List.mem_append_left _ ho)) (by omega)
  rw [List.countP_append, List.countP_cons_of_pos rfl, hbetween] at hsettling
  have hdisabled := disabled_before hb t hoff hlink
    (show first.countP Operation.isLink + 2 = p.syncStages by omega)
  have hstopped : (run ⟨b, t⟩ (earlier ++ .control :: held ++ .control ::
      (first ++ .link sample :: between))).bridge.link.checker.enabled = false := by
    rw [← List.cons_append, ← List.append_assoc, link_run_of_last _ _ _ hbetween,
      Bridge.checker_of_disabled hdisabled]
  have hlink : link = ((run ⟨b, t⟩ (earlier ++ .control :: held ++ .control ::
      (first ++ .link sample :: between))).bridge.tickLink received).link := by
    show (run _ (_ ++ .control :: (_ ++ _))).bridge.link = _
    rw [← List.cons_append, ← List.append_assoc, link_run_of_last _ _ _ hafter]
  rw [hlink]
  refine ⟨Bridge.checker_of_starting (by rw [henabled]) hstopped received, ?_⟩
  rw [Bridge.last_tickLink]
  rfl

end Restart

/-! ### Counting -/

/-- The checker has counted the mismatches in these samples and takes what the aligner puts out. -/
structure Counting (m : PatternMode) (samples : List LinkSample) (s : Session) : Prop where
  enabled_eq : s.bridge.link.checker.enabled = true
  counted : Counted m samples s.bridge.link.checker
  held : s.bridge.link.aligner.last.isSome = true

theorem Counting.step {m : PatternMode} {samples : List LinkSample} {s : Session}
    (h : s.Counting m samples) {o : Operation}
    (hrx : o.isLink = true → s.bridge.linkControls.rx = ⟨true, m⟩) :
    (s.step o).Counting m (samples ++ s.alignerOutputs o) := by
  cases hlink : o.isLink with
  | false =>
    have hnone : s.alignerOutputs o = [] := by
      cases o with
      | link received => exact nomatch hlink
      | _ => rfl
    have hsame := s.link_step_of_other hlink
    rw [hnone, List.append_nil]
    exact ⟨hsame ▸ h.enabled_eq, hsame ▸ h.counted, hsame ▸ h.held⟩
  | true =>
    cases o with
    | link received =>
      obtain ⟨output, houtput⟩ := Aligner.exists_output h.held (s.bridge.boundary received)
      have hchecker := Bridge.checker_of_running (hrx hlink) h.enabled_eq houtput
      have hsamples : s.alignerOutputs (.link received) = [output] :=
        congrArg Option.toList houtput
      rw [hsamples]
      refine ⟨congrArg Checker.enabled hchecker, ?_, ?_⟩
      · show Counted m _ (s.bridge.tickLink received).link.checker
        rw [hchecker]
        exact h.counted.check output
      · show (s.bridge.tickLink received).link.aligner.last.isSome = true
        rw [Bridge.last_tickLink]
        rfl
    | _ => exact nomatch hlink

theorem counting_run {p : BridgeParams} {b : Bridge} (hb : Bridge.new p = .ok b) (t : Transport)
    {m : PatternMode} {earlier settling counting : List Operation}
    (hvalue : (run ⟨b, t⟩ earlier).bridge.control.rxPattern = ⟨true, m⟩)
    (hkeep : ∀ o ∈ settling ++ counting,
      o.WritesOnly .rxPattern fun bits => PatternControl.ofBits bits = ⟨true, m⟩)
    (hsettling : settling.countP Operation.isLink = p.syncStages)
    (h : (run ⟨b, t⟩ (earlier ++ .control :: settling)).Counting m []) :
    let settled := run ⟨b, t⟩ (earlier ++ .control :: settling)
    (settled.run counting).Counting m (Trace.gather step alignerOutputs settled counting) := by
  intro settled
  induction counting using List.reverseRecOn with
  | nil => exact h
  | append_singleton counted o ih =>
    rw [← List.append_assoc] at hkeep
    have hcounted := ih fun o ho => hkeep o (List.mem_append_left _ ho)
    have hnext : settled.run (counted ++ [o]) = (settled.run counted).step o :=
      Trace.final_append settled counted [o]
    have hsamples : Trace.gather step alignerOutputs settled (counted ++ [o]) =
        Trace.gather step alignerOutputs settled counted ++
          (settled.run counted).alignerOutputs o := by
      rw [Trace.gather_append]
      exact congrArg _ (List.append_nil _)
    rw [hnext, hsamples]
    refine hcounted.step fun _ => ?_
    have hrun : settled.run counted = run ⟨b, t⟩ (earlier ++ .control :: (settling ++ counted)) := by
      rw [← List.cons_append, ← List.append_assoc]
      exact (Trace.final_append _ _ _).symm
    rw [hrun]
    refine enabled_after hb t hvalue (fun o ho => hkeep o (List.mem_append_left _ ho)) ?_
    rw [List.countP_append]
    omega

/-- The checker is switched off, and on again after a control cycle and a link cycle behind that.
Then after as many link cycles as there are stages, counted from the control cycle that hands the
enable over, its error count is zero, whatever it was and however short the pause.  As long as it
stays on, the count is from then on that of the mismatches in what the aligner puts out. -/
theorem errors_since_enabled {p : BridgeParams} {b : Bridge} (hb : Bridge.new p = .ok b)
    (t : Transport) {m : PatternMode} {off on : UInt32}
    (hoff : (PatternControl.ofBits off).enable = false)
    (hon : PatternControl.ofBits on = ⟨true, m⟩)
    (prior : List Operation) {before between wait settling counting : List Operation}
    (hpause : ∀ o ∈ before ++ between,
      o.WritesOnly .rxPattern fun bits => (PatternControl.ofBits bits).enable = false)
    (hlink : 0 < (between ++ wait).countP Operation.isLink)
    (hwait : .control ∉ wait)
    (hkeep : ∀ o ∈ wait ++ settling ++ counting,
      o.WritesOnly .rxPattern fun bits => PatternControl.ofBits bits = ⟨true, m⟩)
    (hsettling : settling.countP Operation.isLink = p.syncStages) :
    let disabling := .write Register.rxPattern.address off :: before ++ .control :: between
    let enabling := .write Register.rxPattern.address on :: wait ++ .control :: settling
    let settled := run ⟨b, t⟩ (prior ++ disabling ++ enabling)
    settled.bridge.linkErrors = 0 ∧
      (settled.run counting).bridge.linkErrors =
        UInt32.ofNat (mismatches m (Trace.gather step alignerOutputs settled counting)) := by
  intro disabling enabling settled
  -- the same run as the three lemmas see it
  let earlier := prior ++ .write Register.rxPattern.address off :: before
  let held := between ++ .write Register.rxPattern.address on :: wait
  have hsettled : settled = run ⟨b, t⟩ (earlier ++ .control :: held ++ .control :: settling) := by
    show run _ _ = run _ _
    simp only [disabling, enabling, earlier, held, List.append_assoc, List.cons_append]
  have hdisabled : (run ⟨b, t⟩ earlier).bridge.control.rxPattern.enable = false :=
    rxPattern_run_of_write (P := (·.enable = false)) _ prior hoff
      fun o ho => hpause o (List.mem_append_left _ ho)
  have hrequests : ∀ c ∈ Trace.gather step requests (run ⟨b, t⟩ earlier) (.control :: held),
      c.rx.enable = false := by
    intro c hc
    rw [← List.cons_append, Trace.gather_append] at hc
    rcases List.mem_append.mp hc with hpaused | hlater
    · refine requests_rx (P := (·.enable = false)) hdisabled (fun o ho => ?_) c hpaused
      rcases List.mem_cons.mp ho with rfl | ho
      · exact trivial
      · exact hpause o (List.mem_append_right _ ho)
    · obtain ⟨first, o, rest, hops, hmade⟩ := Trace.exists_of_mem_gather hlater
      have ho : o ∈ .write Register.rxPattern.address on :: wait := by
        rw [hops]
        exact List.mem_append_right _ List.mem_cons_self
      cases o with
      | control => simp [hwait] at ho
      | _ => exact nomatch hmade
  have hvalue : (run ⟨b, t⟩ (earlier ++ .control :: held)).bridge.control.rxPattern =
      ⟨true, m⟩ := by
    have hshape : earlier ++ .control :: held = earlier ++ .control :: between ++
        .write Register.rxPattern.address on :: wait := by
      simp only [held, List.append_assoc, List.cons_append]
    rw [hshape]
    exact rxPattern_run_of_write (P := (· = ⟨true, m⟩)) _ _ hon
      fun o ho => hkeep o (List.mem_append_left _ (List.mem_append_left _ ho))
  have hlinks : 0 < held.countP Operation.isLink := by
    rw [List.countP_append] at hlink
    rw [List.countP_append, List.countP_cons_of_neg (by simp [Operation.isLink])]
    exact hlink
  have hafter : ∀ o ∈ settling ++ counting,
      o.WritesOnly .rxPattern fun bits => PatternControl.ofBits bits = ⟨true, m⟩ := by
    intro o ho
    rw [List.append_assoc] at hkeep
    exact hkeep o (List.mem_append_right _ ho)
  obtain ⟨hchecker, hlast⟩ := cleared_after hb t hrequests hlinks hvalue
    (fun o ho => hafter o (List.mem_append_left _ ho)) hsettling
  have hcounting := counting_run hb t hvalue hafter hsettling
    ⟨by rw [hchecker], by rw [hchecker]; exact counted_nil m, hlast⟩
  rw [← hsettled] at hchecker hcounting
  exact ⟨congrArg Checker.errors hchecker, hcounting.counted.errors_eq⟩

/-- A pause of one link cycle after errors were counted, and more errors afterwards. -/
theorem errors_since_enabled_after_short_pause :
    let start : Session := ⟨Bridge.ofParams {}, {}⟩
    let noise : List Operation :=
      [.link (.framed ⟨1, 2⟩ frameFirst), .link (.framed ⟨3, 4⟩ (!frameFirst))]
    let prior := .write Register.rxPattern.address 1 :: .control :: noise ++ noise ++ noise
    let pause : List Operation := [.link default]
    let disabling := .write Register.rxPattern.address 0 :: [] ++ .control :: pause
    let enabling := .write Register.rxPattern.address 1 :: [] ++ .control :: noise
    let settled := start.run (prior ++ disabling ++ enabling)
    Bridge.new {} = .ok (Bridge.ofParams {}) ∧ (start.run prior).bridge.linkErrors = 3 ∧
      0 < (pause ++ []).countP Operation.isLink ∧ noise.countP Operation.isLink = 2 ∧
      settled.bridge.linkErrors = 0 ∧
      (settled.run (noise ++ noise)).bridge.linkErrors =
        UInt32.ofNat (mismatches .count
          (Trace.gather step alignerOutputs settled (noise ++ noise))) := by
  intro start noise prior pause disabling enabling settled
  have hoff : (PatternControl.ofBits 0).enable = false := rfl
  have hon : PatternControl.ofBits 1 = ⟨true, .count⟩ := rfl
  have hpause : ∀ o ∈ [] ++ pause,
      o.WritesOnly .rxPattern fun bits => (PatternControl.ofBits bits).enable = false := by decide
  have hlink : 0 < (pause ++ []).countP Operation.isLink := by decide
  have hwait : Operation.control ∉ [] := by decide
  have hkeep : ∀ o ∈ [] ++ noise ++ (noise ++ noise),
      o.WritesOnly .rxPattern fun bits => PatternControl.ofBits bits = ⟨true, .count⟩ := by decide
  exact ⟨rfl, by decide +kernel, hlink, rfl,
    errors_since_enabled (p := {}) rfl {} hoff hon prior hpause hlink hwait hkeep rfl⟩

end Session
end LinkBridge
