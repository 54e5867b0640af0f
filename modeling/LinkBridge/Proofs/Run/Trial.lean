import LinkBridge.Proofs.Bridge.Delivery
import LinkBridge.Proofs.Sample.Width
import LinkBridge.Proofs.Simulation.Silence
import LinkBridge.Run.Trial

/-!
Trial runs.

A trial is a session with its simulation (`actions`), and its report reads off two states of that
session.  In loopback without a pattern what comes back is a prefix of the ramp, as long as nothing
but zeros came from outside before the loopback bit had reached the link side (`Silent`).  Inside
both eyes of a transceiver in loopback this is so.
-/

namespace LinkBridge

open Simulation

namespace Trial

variable {p : SimulationParams} {r : TrialRequest} {s : Simulation} {duration : Time}
  {recorded : Bool}

theorem new_of_start (h : start p r = .ok s) :
    Simulation.new p (({} : Transport).send (rampWords r.words)) = .ok s := by
  unfold start at h
  exact mapError_eq_ok.mp h

/-! ### A trial as a session -/

/-- What a trial does before its first edge. -/
def setup (r : TrialRequest) (recorded : Bool) : List Action :=
  (if recorded then [.attach] else []) ++
    .write Register.control.address ({ loopback := r.loopback } : ControlReg).bits ::
      match r.pattern with
      | some mode =>
        let bits := ({ enable := true, mode } : PatternControl).bits
        [.write Register.txPattern.address bits, .write Register.rxPattern.address bits]
      | none => []

def latchAction : Action := .write Register.cyclesLatch.address 0

def settling (duration : Time) : List Action := [.run (settleTime.earlier duration), latchAction]

def measuring (duration : Time) : List Action :=
  [.run (duration.since (settleTime.earlier duration)), latchAction, .finish]

def actions (r : TrialRequest) (duration : Time) (recorded : Bool) : List Action :=
  setup r recorded ++ settling duration ++ measuring duration

/-- What a trial that settled in one state and ended in another reports. -/
def report (r : TrialRequest) (settled last : Simulation) : TrialReport :=
  { status := last.bridge.status
    errors := r.pattern.map fun _ =>
      last.readRegister .rxErrors - settled.readRegister .rxErrors
    linkMHz := measuredMHz (last.readRegister .cycles - settled.readRegister .cycles)
      settled.now last.now
    sent := last.transport.sent
    matched := matching last.transport.received.toList (rampWords r.words)
    overflows := last.bridge.link.overflows }

theorem overflows_report (r : TrialRequest) (settled last : Simulation) :
    (report r settled last).overflows = last.bridge.link.overflows := rfl

theorem matched_report (r : TrialRequest) (settled last : Simulation) :
    (report r settled last).matched =
      matching last.transport.received.toList (rampWords r.words) := rfl

theorem act_write (s : Simulation) (x : Register) (value : UInt32) :
    s.act (.write x.address value) = s.writeRegister x value := by
  rw [act, Bridge.write_address]
  rfl

theorem act_latch (s : Simulation) : s.act latchAction = s.writeRegister .cyclesLatch 0 :=
  act_write ..

theorem session_setup (s : Simulation) (r : TrialRequest) (recorded : Bool) :
    s.session (setup r recorded) = program (if recorded then s.attach else s) r := by
  have hattach : ∀ rest : List Action,
      s.session ((if recorded then [.attach] else []) ++ rest) =
        (if recorded then s.attach else s).session rest := by
    intro rest
    cases recorded <;> rfl
  unfold setup program
  rw [hattach]
  generalize (if recorded then s.attach else s) = u
  simp only [session, Trace.final, act_write]
  cases r.pattern with
  | none => rfl
  | some mode => simp only [Trace.final, act_write]

theorem runTo_eq (s : Simulation) (span : Time) :
    s.runTo span = if (s.run span).isSome then .ok (s.act (.run span)) else .error .endless := by
  unfold runTo
  simp only [act]
  cases s.run span <;> rfl

/-- A trial comes back if both its runs do, and then it has run its session. -/
theorem run_eq (s : Simulation) (r : TrialRequest) (duration : Time) (recorded : Bool) :
    let settled := s.session (setup r recorded ++ settling duration)
    let last := s.session (actions r duration recorded)
    run s r duration recorded =
      if ((s.session (setup r recorded)).run (settleTime.earlier duration)).isSome ∧
          (settled.run (duration.since (settleTime.earlier duration))).isSome then
        .ok (report r settled last, last.recording.map (·.dump.text))
      else .error .endless := by
  intro settled last
  have hsettled : latch ((s.session (setup r recorded)).act
      (.run (settleTime.earlier duration))) = settled := by
    have hsplit : settled = (s.session (setup r recorded)).session (settling duration) :=
      Trace.final_append ..
    rw [hsplit]
    exact (act_latch (act _ (.run _))).symm
  have hlast : (latch (settled.act
      (.run (duration.since (settleTime.earlier duration))))).finish = last := by
    have hsplit : last = settled.session (measuring duration) := Trace.final_append ..
    rw [hsplit]
    exact congrArg finish (act_latch (act _ (.run _))).symm
  unfold run
  simp only [← session_setup, runTo_eq]
  by_cases hfirst : ((s.session (setup r recorded)).run (settleTime.earlier duration)).isSome
  · simp only [hfirst, if_true, true_and, bind, Except.bind, hsettled]
    by_cases hsecond : (settled.run (duration.since (settleTime.earlier duration))).isSome
    · simp only [hsecond, if_true, hlast]
      rfl
    · simp only [hsecond, Bool.false_eq_true, if_false]
  · simp only [hfirst, Bool.false_eq_true, false_and, if_false, bind, Except.bind]

theorem mem_setup {a : Action} (h : a ∈ setup r recorded) :
    a = .attach ∨ a = .write Register.control.address
        ({ loopback := r.loopback } : ControlReg).bits ∨
      ∃ x value, r.pattern.isSome ∧ (x = .txPattern ∨ x = .rxPattern) ∧
        a = .write (Register.address x) value := by
  rcases List.mem_append.mp h with hattach | hwrites
  · cases recorded with
    | true => exact .inl (List.mem_singleton.mp hattach)
    | false => exact nomatch hattach
  · rcases List.mem_cons.mp hwrites with hcontrol | hpatterns
    · exact .inr (.inl hcontrol)
    · cases hpattern : r.pattern with
      | none =>
        rw [hpattern] at hpatterns
        exact nomatch hpatterns
      | some mode =>
        rw [hpattern] at hpatterns
        rcases List.mem_cons.mp hpatterns with htx | hrx
        · exact .inr (.inr ⟨_, _, rfl, .inl rfl, htx⟩)
        · exact .inr (.inr ⟨_, _, rfl, .inr rfl, List.mem_singleton.mp hrx⟩)

theorem runs_of_mem_setup {a : Action} (h : a ∈ setup r recorded) : a.runs = false := by
  rcases mem_setup h with rfl | rfl | ⟨x, value, -, -, rfl⟩ <;> rfl

theorem spans_actions (r : TrialRequest) (duration : Time) (recorded : Bool) :
    Action.spans (actions r duration recorded) =
      [settleTime.earlier duration, duration.since (settleTime.earlier duration)] := by
  have hsetup : Action.spans (setup r recorded) = [] :=
    List.filterMap_eq_nil_iff.mpr fun a ha => Action.span?_of_not_runs (runs_of_mem_setup ha)
  unfold actions Action.spans at *
  rw [List.filterMap_append, List.filterMap_append, hsetup]
  rfl

theorem total_spans (duration : Time) :
    total [settleTime.earlier duration, duration.since (settleTime.earlier duration)] =
      duration.fs := by
  have hle : (settleTime.earlier duration).fs ≤ duration.fs := by
    unfold Time.earlier
    split
    · assumption
    · exact Nat.le_refl _
  simp only [total, Time.since]
  omega

/-- Short of the last instant a trial comes back. -/
theorem run_of_start (hstart : start p r = .ok s) (hlast : duration.fs < Time.lastFs) :
    run s r duration recorded =
      .ok (report r (s.session (setup r recorded ++ settling duration))
          (s.session (actions r duration recorded)),
        (s.session (actions r duration recorded)).recording.map (·.dump.text)) := by
  obtain ⟨controlPeriod, linkPeriod, hcontrol, hlink, -, -⟩ := eq_of_new (new_of_start hstart)
  have hperiods : ∀ d, 0 < (clocks controlPeriod linkPeriod d).fs := by
    rintro (_ | _)
    · exact period_pos hcontrol
    · exact period_pos hlink
  have hkinds : ∀ a ∈ actions r duration recorded, a.runs → a.span?.isSome := by
    intro a ha hruns
    have hlater : ∀ b ∈ settling duration ++ measuring duration, b.runs → b.span?.isSome := by
      simp [settling, measuring, latchAction, Action.runs, Action.span?]
    rw [actions, List.append_assoc] at ha
    rcases List.mem_append.mp ha with hsetup | hrest
    · exact absurd hruns (by simp [runs_of_mem_setup hsetup])
    · exact hlater a hrest hruns
  have htotal : total ([] ++ Action.spans (actions r duration recorded)) < Time.lastFs := by
    rw [List.nil_append, spans_actions, total_spans]
    exact hlast
  obtain ⟨hreturns, -⟩ :=
    (elapsed_of_new (new_of_start hstart) hcontrol hlink).session hperiods hkinds htotal
  unfold actions at hreturns
  obtain ⟨hbefore, hsecond, -⟩ := (Trace.along_append _ _ _).mp hreturns
  obtain ⟨-, hfirst, -⟩ := (Trace.along_append _ _ _).mp hbefore
  rw [run_eq, if_pos ⟨hfirst _ rfl, hsecond _ rfl⟩]

/-! ### The words of a trial -/

theorem and_fieldMask {n : Nat} (h : n < 4096) : UInt16.ofNat n &&& fieldMask = UInt16.ofNat n := by
  apply UInt16.toNat_inj.mp
  have hmask : fieldMask.toNat = 2 ^ 12 - 1 := rfl
  rw [UInt16.toNat_and, hmask, Nat.and_two_pow_sub_one_eq_mod, UInt16.toNat_ofNat']
  omega

theorem masked_rampWord {mask : UInt32} (hmask : mask &&& nativeMask = nativeMask) (i : Nat) :
    (rampWord i).masked mask = rampWord i := by
  have hnative : ∀ k, UInt16.ofNat ((4 * i + k) % 4096) &&& fieldMask =
      UInt16.ofNat ((4 * i + k) % 4096) := fun k => and_fieldMask (Nat.mod_lt _ (by decide))
  unfold SampleWord.masked rampWord
  simp only [SampleWord.split_ofSlices]
  rw [(LinkWord.native_of_fields (hnative 2) (hnative 3)).masked hmask,
    (LinkWord.native_of_fields (hnative 4) (hnative 1)).masked hmask, SampleWord.join_halves]

theorem rampWord_ne_default (i : Nat) : rampWord i ≠ default := by
  intro h
  have hsplit := congrArg (fun w : SampleWord => w.split.2.phase1.toNat) h
  simp only [rampWord, SampleWord.split_ofSlices, UInt16.toNat_ofNat'] at hsplit
  have hzero : (default : SampleWord).split.2.phase1.toNat = 0 := rfl
  omega

theorem nonIdle_rampWords {mask : UInt32} (hmask : mask &&& nativeMask = nativeMask)
    (count : Nat) :
    SampleWord.nonIdle ((rampWords count).map (·.masked mask)) = rampWords count := by
  have hmap : (rampWords count).map (·.masked mask) = rampWords count := by
    unfold rampWords
    rw [List.map_map]
    exact List.map_congr_left fun i _ => masked_rampWord hmask i
  rw [hmap]
  refine List.filter_eq_self.mpr fun w hw => ?_
  obtain ⟨i, -, rfl⟩ := List.mem_map.mp hw
  exact decide_eq_true (rampWord_ne_default i)

/-- All of a prefix matches. -/
theorem matching_of_prefix {received wanted : List SampleWord}
    (h : SampleWord.nonIdle received <+: wanted) :
    matching received wanted = (SampleWord.nonIdle received).length := by
  obtain ⟨rest, rfl⟩ := h
  have hfilter : received.filter (· != idleWord) = SampleWord.nonIdle received :=
    List.filter_congr fun w _ => by simp [idleWord, bne, Bool.beq_eq_decide_eq]
  unfold matching
  rw [hfilter]
  generalize SampleWord.nonIdle received = words
  induction words with
  | nil => rfl
  | cons w words ih => simpa using ih

/-! ### Loopback -/

/-- What a trial in loopback does after its setup. -/
def trialing (duration : Time) : List Action := settling duration ++ measuring duration

theorem cycles_actions (s : Simulation) (r : TrialRequest) (duration : Time) (recorded : Bool) :
    s.cycles (actions r duration recorded) =
      (s.session (setup r recorded)).cycles (trialing duration) := by
  have hsetup : s.cycles (setup r recorded) = [] :=
    cycles_of_not_runs s fun a ha => runs_of_mem_setup ha
  rw [actions, List.append_assoc, cycles, Trace.gather_append]
  exact congrArg (· ++ _) hsetup

theorem bridgeSession_setup (s : Simulation) (hpattern : r.pattern = none) (recorded : Bool) :
    (s.session (setup r recorded)).bridgeSession =
      s.bridgeSession.step (.write Register.control.address
        ({ loopback := r.loopback } : ControlReg).bits) := by
  rw [session_setup]
  unfold program
  rw [hpattern]
  rw [Session.step, Bridge.write_address]
  cases recorded <;> rfl

theorem operation_of_mem_trialing {a : Action} (h : a ∈ trialing duration) {o : Operation}
    (ho : a.operation? = some o) : o = .write Register.cyclesLatch.address 0 := by
  have hall : ∀ b ∈ trialing duration, ∀ o ∈ b.operation?,
      o = .write Register.cyclesLatch.address 0 := by
    simp [trialing, settling, measuring, latchAction, Action.operation?]
  exact hall a h o ho

theorem keepsLoopback_trialing {u : Simulation} (hsilent : u.Silent (trialing duration)) :
    Trace.Along Session.step Session.KeepsLoopback u.bridgeSession
      (u.allOperations (trialing duration)) := by
  refine along_operations (fun _ => trivial) (fun v hv => hsilent v hv) fun a ha o ho t => ?_
  obtain rfl := operation_of_mem_trialing ha ho
  exact ⟨by decide, by decide, by decide⟩

theorem ne_take_of_mem_trialing {u : Simulation} {o : Operation}
    (h : o ∈ u.allOperations (trialing duration)) : o ≠ .take := by
  rcases mem_allOperations h with rfl | ⟨received, rfl⟩ | ⟨a, ha, ho⟩
  · simp
  · simp
  · obtain rfl := operation_of_mem_trialing ha ho
    simp

theorem given_trialing (u : Simulation) (duration : Time) (t : Session) :
    Trace.gather Session.step (fun _ => Session.given) t (u.allOperations (trialing duration)) =
      [] := by
  refine List.eq_nil_iff_forall_not_mem.mpr fun w hw => ?_
  obtain ⟨earlier, o, later, hsplit, ho⟩ := Trace.exists_of_mem_gather hw
  have hmem : o ∈ u.allOperations (trialing duration) := by simp [hsplit]
  rcases mem_allOperations hmem with rfl | ⟨received, rfl⟩ | ⟨a, ha, hop⟩
  · exact nomatch ho
  · exact nomatch ho
  · obtain rfl := operation_of_mem_trialing ha hop
    exact nomatch ho

/-- With loopback asked for before the first edge, the words received up to the end of a trial are a
prefix of those that its transport held. -/
theorem received_prefix {t : Transport} {b : Bridge} {value : UInt32} {u : Simulation}
    (hb : Bridge.new p.bridge = .ok b)
    (hvalue : (ControlReg.ofBits value).loopback = true) (hreceived : t.received = #[])
    (hu : u.bridgeSession = Session.step ⟨b, t⟩ (.write Register.control.address value))
    (hsilent : u.Silent (trialing duration))
    (hnone : (u.session (trialing duration)).bridge.link.overflows = 0) :
    SampleWord.nonIdle (u.session (trialing duration)).transport.received.toList <+:
      SampleWord.nonIdle (t.pending.map (·.masked p.bridge.loopbackMask)) := by
  have hlast := bridgeSession_session u (trialing duration)
  have hlooping := Session.looping_start hb t hvalue
  have honLine := Session.onLine_start hb t hvalue
  obtain ⟨hqueued, hzero, hempty, hpending⟩ :
      u.bridge.crossings.rxFifo.queued = [] ∧ u.bridge.link.overflows = 0 ∧
        u.transport.received = #[] ∧ u.transport.pending = t.pending := by
    obtain rfl := Bridge.eq_ofParams hb
    have hbridge := congrArg Session.bridge hu
    have htransport := congrArg Session.transport hu
    have hwrite : Session.step ⟨Bridge.ofParams p.bridge, t⟩
        (.write Register.control.address value) =
        ⟨(Bridge.ofParams p.bridge).writeRegister .control value, t⟩ := rfl
    rw [hwrite] at hbridge htransport
    obtain rfl : u.transport = t := htransport
    have hqueue : (Bridge.ofParams p.bridge).crossings.rxFifo.queued = [] :=
      Crossing.Fifo.queued_new _ _
    refine ⟨?_, ?_, hreceived, rfl⟩
    · exact (congrArg (·.crossings.rxFifo.queued) hbridge).trans hqueue
    · exact congrArg (·.link.overflows) hbridge
  rw [← hu] at hlooping honLine
  have hbegins := Session.received_prefix_given hlooping honLine hqueued hzero hempty
    (keepsLoopback_trialing hsilent) (fun o ho => ne_take_of_mem_trialing ho)
    ((congrArg (·.bridge.link.overflows) hlast).symm.trans hnone)
  rw [given_trialing, List.append_nil, ← hlast] at hbegins
  rw [← hpending]
  exact hbegins

/-- A trial in loopback returns a prefix of its ramp, and counts all of it, unless words overflowed
or something was received before the loopback bit arrived. -/
theorem loopback_returns_prefix (hstart : start p r = .ok s) (hloopback : r.loopback = true)
    (hpattern : r.pattern = none)
    (hmask : p.bridge.loopbackMask &&& nativeMask = nativeMask) {out : TrialReport}
    {text : Option String} (hrun : run s r duration recorded = .ok (out, text))
    (hsilent : s.Silent (actions r duration recorded)) (hnone : out.overflows = 0) :
    let received := SampleWord.nonIdle
      (s.session (actions r duration recorded)).transport.received.toList
    received <+: rampWords r.words ∧ out.matched = received.length := by
  intro received
  rw [run_eq] at hrun
  split at hrun
  · obtain ⟨rfl, -⟩ := Prod.mk.inj (Except.ok.inj hrun)
    have hbegins : received <+: rampWords r.words := by
      obtain ⟨controlPeriod, linkPeriod, -, -, hbridge, hs⟩ := eq_of_new (new_of_start hstart)
      have hvalue :
          (ControlReg.ofBits ({ loopback := r.loopback } : ControlReg).bits).loopback = true := by
        rw [hloopback]
        decide
      have hsplit : s.session (actions r duration recorded) =
          (s.session (setup r recorded)).session (trialing duration) := by
        rw [actions, List.append_assoc]
        exact Trace.final_append ..
      have hsilent : (s.session (setup r recorded)).Silent (trialing duration) := by
        unfold Silent
        rw [← cycles_actions]
        exact hsilent
      have hnone : (s.session (actions r duration recorded)).bridge.link.overflows = 0 := hnone
      have hbegin := bridgeSession_setup s hpattern recorded
      rw [show s.bridgeSession = ⟨.ofParams p.bridge, ({} : Transport).send (rampWords r.words)⟩
        by rw [hs]; rfl] at hbegin
      rw [hsplit] at hnone
      have hall := received_prefix hbridge hvalue rfl hbegin hsilent hnone
      rw [Transport.pending_send, List.nil_append, nonIdle_rampWords hmask, ← hsplit] at hall
      exact hall
    exact ⟨hbegins, matching_of_prefix hbegins⟩
  · exact nomatch hrun

theorem start_onDefaultClocks {b : BridgeParams} (hb : Bridge.new b = .ok (.ofParams b))
    (x : TransceiverParams) (r : TrialRequest) :
    start { bridge := b, transceiver := x } r =
      .ok (onDefaultClocks b x (({} : Transport).send (rampWords r.words))) := by
  unfold start
  rw [new_onDefaultClocks hb]
  rfl

/-- The transmit tap lies outside its eye, but what the transceiver makes of the pads comes back
only after the loopback bit. -/
theorem loopback_returns_prefix_late :
    let p : SimulationParams :=
      { bridge := { rxDelay := ⟨16⟩ }, transceiver := { phaseInverted := true } }
    let r : TrialRequest := { loopback := true, words := 3 }
    let s := onDefaultClocks p.bridge p.transceiver (({} : Transport).send (rampWords r.words))
    let last := s.session (actions r (.upTo 300000000) true)
    let out := report r (s.session (setup r true ++ settling (.upTo 300000000))) last
    let text := last.recording.map (·.dump.text)
    start p r = .ok s ∧ r.loopback = true ∧ r.pattern = none ∧
      p.bridge.loopbackMask &&& nativeMask = nativeMask ∧
      run s r (.upTo 300000000) true = .ok (out, text) ∧
      s.Silent (actions r (.upTo 300000000) true) ∧ out.overflows = 0 ∧
      let received := SampleWord.nonIdle
        (s.session (actions r (.upTo 300000000) true)).transport.received.toList
      received <+: rampWords r.words ∧ out.matched = received.length := by
  intro p r s last out text
  have hstart : start { bridge := { rxDelay := ⟨16⟩ }, transceiver := { phaseInverted := true } } r =
      .ok s := start_onDefaultClocks rfl _ _
  have hmask : p.bridge.loopbackMask &&& nativeMask = nativeMask := by decide
  have hrun : run s r (.upTo 300000000) true = .ok (out, text) := run_of_start hstart (by decide)
  have hsilent : s.Silent (actions r (.upTo 300000000) true) := by decide +kernel
  have hlast : last.bridge.link.overflows = 0 := by decide +kernel
  have hnone : out.overflows = 0 := (overflows_report r _ last).trans hlast
  exact ⟨hstart, rfl, rfl, hmask, hrun, hsilent, hnone,
    loopback_returns_prefix (p := p) (r := r) hstart rfl rfl hmask hrun hsilent hnone⟩

/-- With both taps outside their eyes a random word comes back ahead of the ramp, and none of the
ramp counts. -/
theorem random_word_returned :
    let r : TrialRequest := { loopback := true, words := 8 }
    let s := onDefaultClocks {} {} (({} : Transport).send (rampWords r.words))
    let last := s.session (actions r (.upTo 100000000) false)
    let out := report r (s.session (setup r false ++ settling (.upTo 100000000))) last
    start {} r = .ok s ∧ ({} : SimulationParams).bridge.loopbackMask &&& nativeMask = nativeMask ∧
      run s r (.upTo 100000000) false = .ok (out, last.recording.map (·.dump.text)) ∧
      out.overflows = 0 ∧ out.matched = 0 ∧
      SampleWord.nonIdle last.transport.received.toList = [⟨0x9680a650000⟩, rampWord 0] ∧
      ¬SampleWord.nonIdle last.transport.received.toList <+: rampWords r.words := by
  intro r s last out
  have hstart : start {} r = .ok s := start_onDefaultClocks rfl _ _
  have hreceived : last.transport.received.toList = [⟨0x9680a650000⟩, rampWord 0] := by
    decide +kernel
  have hnone : last.bridge.link.overflows = 0 := by decide +kernel
  have hmatched : out.matched = 0 := by
    rw [matched_report, hreceived]
    decide +kernel
  have hoverflows : out.overflows = 0 := (overflows_report r _ last).trans hnone
  refine ⟨hstart, by decide, run_of_start hstart (by decide), hoverflows, hmatched, ?_, ?_⟩
  · rw [hreceived]
    decide +kernel
  · rw [hreceived]
    decide +kernel

/-- Inside both eyes of a transceiver in loopback every trial in loopback is silent. -/
theorem silent_of_eyes (hstart : start p r = .ok s) (hloopback : r.loopback = true)
    (hpattern : r.pattern = none) (hmode : p.transceiver.mode = .loopback)
    (htx : p.transceiver.txEye.contains p.bridge.txDelay = true)
    (hrx : p.transceiver.rxEye.contains p.bridge.rxDelay = true) (duration : Time)
    (recorded : Bool) : s.Silent (actions r duration recorded) := by
  have hvalue :
      (ControlReg.ofBits ({ loopback := r.loopback } : ControlReg).bits).loopback = true := by
    rw [hloopback]
    decide
  have hhushed := hushed_start (new_of_start hstart) hmode htx hrx hvalue
  have hsetup : Hushed p.bridge.loopbackMask p.transceiver (s.session (setup r recorded)) := by
    rw [session_setup]
    unfold program
    rw [hpattern]
    cases recorded with
    | false => exact hhushed
    | true => exact ⟨hhushed.bridge, hhushed.params_eq, hhushed.txEye, hhushed.rxEye, hhushed.zero⟩
  unfold Silent
  rw [cycles_actions]
  refine silent_of_hushed hsetup fun a ha => ?_
  rcases List.mem_append.mp ha with hsettling | hmeasuring
  · simp only [settling, latchAction, List.mem_cons, List.not_mem_nil, or_false] at hsettling
    rcases hsettling with rfl | rfl
    · exact trivial
    · exact ⟨by decide, by decide, by decide, by decide⟩
  · simp only [measuring, latchAction, List.mem_cons, List.not_mem_nil, or_false] at hmeasuring
    rcases hmeasuring with rfl | rfl | rfl
    · exact trivial
    · exact ⟨by decide, by decide, by decide, by decide⟩
    · exact trivial

end Trial
end LinkBridge
