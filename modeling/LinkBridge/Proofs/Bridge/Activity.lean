import LinkBridge.Proofs.Activity
import LinkBridge.Proofs.Bridge.Session
import LinkBridge.Proofs.Crossing.Pulse

/-!
What the status register says of the link clock.

Every sixteen link cycles a level flips, and a control cycle looks whether it is the one that the
control cycle before found.  So the clock counts as active if between two control cycles of the
window, `syncStages` cycles back, an odd number of pulses was sent (`clockActive_iff`).

A clock that runs is therefore seen as long as no more than one pulse falls between two control
cycles.  Two pulses cancel out: with thirty-two link cycles to each control cycle the link clock
counts as stopped.  A clock that did stop is seen as such after what was on its way has come out and
a whole window has passed.
-/

namespace LinkBridge

open Crossing

def Operation.isControl : Operation → Bool
  | .control => true
  | _ => false

namespace Bridge

section Control

variable (b : Bridge) (t : Transport)

@[simp] theorem activity_tickControl :
    (b.tickControl t).1.crossings.activity = b.crossings.activity.tick.1 := rfl

@[simp] theorem monitor_tickControl :
    (b.tickControl t).1.control.activity =
      b.control.activity.tick b.crossings.activity.tick.2 := rfl

end Control

section Link

variable (b : Bridge) (received : LinkSample)

@[simp] theorem divider_tickLink :
    (b.tickLink received).link.divider = b.link.divider.tick.1 := rfl

@[simp] theorem activity_tickLink :
    (b.tickLink received).crossings.activity =
      if b.link.divider.tick.2 then b.crossings.activity.pulse else b.crossings.activity := rfl

end Link

theorem activity_writeRegister (b : Bridge) (r : Register) (value : UInt32) :
    (b.writeRegister r value).control.activity = b.control.activity := by
  cases r <;> rfl

/-- So many control cycles and link cycles have run.  `links k` is the number of link cycles before
the `k`-th control cycle. -/
structure Ticked (b : Bridge) (p : BridgeParams) (links : Nat → Nat)
    (controlCycles linkCycles : Nat) : Prop where
  divider_eq : b.link.divider.count = linkCycles % activityDivisor
  level_eq : b.crossings.activity.level = oddPulses linkCycles
  crossing : b.crossings.activity.Fed p.syncStages (fun k => oddPulses (links k)) controlCycles
  monitor : b.control.activity.Watches p.activityWindow
    (fun d => oddPulses (links (d + 1 - p.syncStages)) ≠ oddPulses (links (d - p.syncStages)))
    controlCycles

namespace Ticked

variable {b : Bridge} {p : BridgeParams} {links : Nat → Nat} {controlCycles linkCycles : Nat}

theorem start (hp : p.check = .ok ()) (hreset : links 0 = 0) :
    (ofParams p).Ticked p links 0 0 where
  divider_eq := rfl
  level_eq := rfl
  crossing := by
    refine PulseCrossing.Fed.new (BridgeParams.minStages_le hp) ?_
    rw [hreset]
    rfl
  monitor := ActivityMonitor.Watches.new (BridgeParams.activityWindow_pos hp)

theorem tickControl (h : b.Ticked p links controlCycles linkCycles)
    (hwindow : 0 < p.activityWindow) (hlinks : links (controlCycles + 1) = linkCycles)
    (t : Transport) :
    (b.tickControl t).1.Ticked p links (controlCycles + 1) linkCycles := by
  have hlevel : b.crossings.activity.level = oddPulses (links (controlCycles + 1)) := by
    rw [hlinks, h.level_eq]
  exact ⟨h.divider_eq, h.level_eq, h.crossing.tick hlevel,
    h.monitor.tick hwindow (h.crossing.sees_iff hlevel)⟩

theorem tickLink (h : b.Ticked p links controlCycles linkCycles) (received : LinkSample) :
    (b.tickLink received).Ticked p links controlCycles (linkCycles + 1) := by
  have hcount : b.link.divider.tick.1.count = (linkCycles + 1) % activityDivisor := by
    show (b.link.divider.count + 1) % activityDivisor = _
    rw [h.divider_eq, Nat.mod_add_mod]
  have hpulse : b.link.divider.tick.2 = decide ((linkCycles + 1) % activityDivisor = 0) := by
    rw [← hcount]
    rfl
  refine ⟨hcount, ?_, ?_, h.monitor⟩
  · rw [activity_tickLink, hpulse, oddPulses_succ, ← h.level_eq]
    by_cases hflip : (linkCycles + 1) % activityDivisor = 0
    · rw [if_pos hflip, if_pos (decide_eq_true hflip)]
      rfl
    · rw [if_neg hflip, if_neg (by simpa using hflip)]
  · rw [activity_tickLink]
    split
    · exact h.crossing.pulse
    · exact h.crossing

theorem writeRegister (h : b.Ticked p links controlCycles linkCycles) (r : Register)
    (value : UInt32) : (b.writeRegister r value).Ticked p links controlCycles linkCycles := by
  refine ⟨h.divider_eq, h.level_eq, h.crossing, ?_⟩
  rw [activity_writeRegister]
  exact h.monitor

end Ticked
end Bridge

namespace Session

open Operation (isControl isLink)

/-- The number of link cycles before the `k`-th control cycle.  It counts all link cycles if there
are fewer control cycles. -/
def linkCyclesBefore : List Operation → Nat → Nat
  | _, 0 => 0
  | [], _ => 0
  | o :: rest, k + 1 => linkCyclesBefore rest (k + 1 - o.isControl.toNat) + o.isLink.toNat

/-- The number of pulses sent before the `k`-th control cycle. -/
def pulsesBefore (ops : List Operation) (k : Nat) : Nat := linkCyclesBefore ops k / activityDivisor

theorem linkCyclesBefore_zero (ops : List Operation) : linkCyclesBefore ops 0 = 0 := by
  cases ops <;> rfl

theorem linkCyclesBefore_le_succ (ops : List Operation) (k : Nat) :
    linkCyclesBefore ops k ≤ linkCyclesBefore ops (k + 1) := by
  induction ops generalizing k with
  | nil => cases k <;> exact Nat.le_refl _
  | cons o rest ih =>
    cases k with
    | zero => exact Nat.zero_le _
    | succ k =>
      refine Nat.add_le_add_right ?_ _
      cases o with
      | control => exact ih k
      | _ => exact ih (k + 1)

theorem linkCyclesBefore_append {before after : List Operation} {k : Nat}
    (h : before.countP isControl < k) :
    linkCyclesBefore (before ++ after) k =
      linkCyclesBefore after (k - before.countP isControl) + before.countP isLink := by
  induction before generalizing k with
  | nil => rfl
  | cons o rest ih =>
    obtain ⟨k, rfl⟩ := Nat.exists_eq_succ_of_ne_zero (Nat.ne_zero_of_lt h)
    rw [List.countP_cons] at h
    rw [List.countP_cons, List.countP_cons]
    cases o with
    | control =>
      show linkCyclesBefore (rest ++ after) k =
        linkCyclesBefore after (k + 1 - (rest.countP isControl + 1)) + rest.countP isLink
      rw [ih (Nat.lt_of_succ_lt_succ h), Nat.add_sub_add_right]
    | link received => exact congrArg (· + 1) (ih h)
    | _ => exact ih h

theorem linkCyclesBefore_of_none {ops : List Operation} (h : ∀ o ∈ ops, o.isLink = false)
    (k : Nat) : linkCyclesBefore ops k = 0 := by
  induction ops generalizing k with
  | nil => cases k <;> rfl
  | cons o rest ih =>
    obtain ⟨ho, hrest⟩ := List.forall_mem_cons.mp h
    cases k with
    | zero => rfl
    | succ k => rw [linkCyclesBefore, ih hrest, ho, Bool.toNat_false]

section Run

variable {p : BridgeParams} {s : Session} {links : Nat → Nat} {controlCycles linkCycles : Nat}

theorem ticked_step (h : s.bridge.Ticked p links controlCycles linkCycles)
    (hwindow : 0 < p.activityWindow) {o : Operation}
    (ho : o = .control → links (controlCycles + 1) = linkCycles) :
    (s.step o).bridge.Ticked p links (controlCycles + o.isControl.toNat)
      (linkCycles + o.isLink.toNat) := by
  cases o with
  | control => exact h.tickControl hwindow (ho rfl) s.transport
  | link received => exact h.tickLink received
  | write address value =>
    rcases s.step_write address value with hstep | ⟨r, -, hstep⟩
    · rw [hstep]
      exact h
    · rw [hstep]
      exact h.writeRegister r value
  | _ => exact h

theorem ticked_run (h : s.bridge.Ticked p links controlCycles linkCycles)
    (hwindow : 0 < p.activityWindow) (ops : List Operation)
    (hlinks : ∀ k, links (controlCycles + (k + 1)) = linkCyclesBefore ops (k + 1) + linkCycles) :
    (s.run ops).bridge.Ticked p links (controlCycles + ops.countP isControl)
      (linkCycles + ops.countP isLink) := by
  induction ops generalizing s controlCycles linkCycles with
  | nil => exact h
  | cons o rest ih =>
    have hnow : o = .control → links (controlCycles + 1) = linkCycles := by
      rintro rfl
      have hfirst := hlinks 0
      rw [linkCyclesBefore, show 0 + 1 - Operation.control.isControl.toNat = 0 from rfl,
        linkCyclesBefore_zero] at hfirst
      exact hfirst.trans (Nat.zero_add linkCycles)
    have hlater : ∀ k, links (controlCycles + o.isControl.toNat + (k + 1)) =
        linkCyclesBefore rest (k + 1) + (linkCycles + o.isLink.toNat) := by
      intro k
      have hk := hlinks (k + o.isControl.toNat)
      cases o with
      | control =>
        rw [Nat.add_right_comm]
        exact hk
      | link received => exact hk.trans (Nat.add_right_comm (linkCyclesBefore rest (k + 1)) 1 _)
      | _ => exact hk
    have hrest := ih (ticked_step h hwindow hnow) hlater
    rw [List.countP_cons, List.countP_cons, Nat.add_comm (rest.countP _),
      Nat.add_comm (rest.countP _), ← Nat.add_assoc, ← Nat.add_assoc]
    cases o <;> exact hrest

end Run

/-! ### The clock as it is reported -/

section New

variable {p : BridgeParams} {b : Bridge}

/-- The window that counts is the last one that has ended. -/
theorem clockActive_iff (hb : Bridge.new p = .ok b) (t : Transport) (ops : List Operation) :
    let cycles := ops.countP isControl
    let last := cycles - cycles % p.activityWindow
    (run ⟨b, t⟩ ops).bridge.status.rxClockActive = true ↔
      ∃ d, last - p.activityWindow < d ∧ d ≤ last ∧
        oddPulses (linkCyclesBefore ops (d + 1 - p.syncStages)) ≠
          oddPulses (linkCyclesBefore ops (d - p.syncStages)) := by
  intro cycles last
  have hp := Bridge.check_of_new hb
  obtain rfl := Bridge.eq_ofParams hb
  have hstart := Bridge.Ticked.start hp (linkCyclesBefore_zero ops)
  have hrun := ticked_run (s := ⟨_, t⟩) hstart (BridgeParams.activityWindow_pos hp) ops
    fun k => congrArg (linkCyclesBefore ops) (Nat.zero_add (k + 1))
  rw [Nat.zero_add] at hrun
  exact hrun.monitor.active_iff

/-- Without link cycles nothing is sent, and what was on its way is out of the window by now. -/
theorem clockActive_of_silent (hb : Bridge.new p = .ok b) (t : Transport) (ops : List Operation)
    {silent : List Operation} (hsilent : ∀ o ∈ silent, o.isLink = false)
    (hlong : p.syncStages + 2 * p.activityWindow ≤ silent.countP isControl) :
    (run ⟨b, t⟩ (ops ++ silent)).bridge.status.rxClockActive = false := by
  have hp := Bridge.check_of_new hb
  have hmod := Nat.mod_lt ((ops ++ silent).countP isControl) (BridgeParams.activityWindow_pos hp)
  have hcount : (ops ++ silent).countP isControl =
      ops.countP isControl + silent.countP isControl := List.countP_append
  rw [Bool.eq_false_iff]
  intro hactive
  obtain ⟨d, hlow, -, hflip⟩ := (clockActive_iff hb t (ops ++ silent)).mp hactive
  refine hflip ?_
  rw [linkCyclesBefore_append (by omega), linkCyclesBefore_append (by omega),
    linkCyclesBefore_of_none hsilent, linkCyclesBefore_of_none hsilent]

/-- Whatever the link clock did before, once it stands still the status says so after the stages of
the crossing and two windows, and from then on for as long as it stands still. -/
theorem clock_inactive_of_stopped (hb : Bridge.new p = .ok b) (t : Transport)
    (ops : List Operation) {stopped : List Operation} (hstopped : ∀ o ∈ stopped, o.isLink = false)
    (hlong : p.syncStages + 2 * p.activityWindow ≤ stopped.countP isControl) :
    let now := (run ⟨b, t⟩ ops).run stopped
    now.bridge.status.rxClockActive = false ∧
      ∀ further : List Operation, (∀ o ∈ further, o.isLink = false) →
        (now.run further).bridge.status.rxClockActive = false := by
  intro now
  have hnow : now = run ⟨b, t⟩ (ops ++ stopped) := (Trace.final_append ..).symm
  refine ⟨?_, fun further hfurther => ?_⟩
  · rw [hnow]
    exact clockActive_of_silent hb t ops hstopped hlong
  · have hlater : now.run further = run ⟨b, t⟩ (ops ++ (stopped ++ further)) := by
      rw [hnow, ← List.append_assoc]
      exact (Trace.final_append ..).symm
    rw [hlater]
    refine clockActive_of_silent hb t ops (List.forall_mem_append.mpr ⟨hstopped, hfurther⟩) ?_
    rw [List.countP_append]
    omega

/-- The clock was reported active when it stopped. -/
theorem clock_inactive_of_stopped_after_running :
    let p : BridgeParams := { activityWindow := 1 }
    let ops : List Operation := List.replicate 16 (.link default) ++ [.control, .control]
    let stopped : List Operation :=
      [.control, .write Register.control.address 0x10300, .control, .send [⟨1⟩], .control, .take,
        .control]
    let before := run ⟨Bridge.ofParams p, {}⟩ ops
    let now := before.run stopped
    Bridge.new p = .ok (Bridge.ofParams p) ∧ before.bridge.status.rxClockActive = true ∧
      (∀ o ∈ stopped, o.isLink = false) ∧
      p.syncStages + 2 * p.activityWindow ≤ stopped.countP isControl ∧
      now.bridge.status.rxClockActive = false ∧
        ∀ further : List Operation, (∀ o ∈ further, o.isLink = false) →
          (now.run further).bridge.status.rxClockActive = false := by
  intro p ops stopped before now
  have hstopped : ∀ o ∈ stopped, o.isLink = false := by decide
  have hlong : p.syncStages + 2 * p.activityWindow ≤ stopped.countP isControl := by decide
  have hb : Bridge.new { activityWindow := 1 } =
      .ok (Bridge.ofParams { activityWindow := 1 }) := rfl
  exact ⟨hb, by decide +kernel, hstopped, hlong,
    clock_inactive_of_stopped hb {} ops hstopped hlong⟩

/-! ### A clock that runs -/

/-- A pulse is due in every window of control cycles, wherever it begins. -/
def RunsIn (window : Nat) (ops : List Operation) : Prop :=
  ∀ i, 0 < i → i + window ≤ ops.countP isControl →
    linkCyclesBefore ops i + activityDivisor ≤ linkCyclesBefore ops (i + window)

/-- Between two control cycles there is time for one pulse only. -/
def Resolved (ops : List Operation) : Prop :=
  ∀ i, 0 < i → i < ops.countP isControl →
    linkCyclesBefore ops (i + 1) ≤ linkCyclesBefore ops i + activityDivisor

/-- If no two pulses come together, then a stretch with time for a pulse has one alone. -/
theorem exists_odd_pulses {ops : List Operation} {window i : Nat}
    (hruns : linkCyclesBefore ops i + activityDivisor ≤ linkCyclesBefore ops (i + window))
    (hsingle : ∀ k, i ≤ k → k < i + window →
      linkCyclesBefore ops (k + 1) ≤ linkCyclesBefore ops k + activityDivisor) :
    ∃ k, i ≤ k ∧ k < i + window ∧ (pulsesBefore ops (k + 1) - pulsesBefore ops k) % 2 = 1 := by
  have hsixteen : activityDivisor = 16 := rfl
  by_contra hnone
  have hsame : ∀ j ≤ window, pulsesBefore ops (i + j) = pulsesBefore ops i := by
    intro j
    induction j with
    | zero => exact fun _ => rfl
    | succ j ih =>
      intro hj
      have heven : ¬(pulsesBefore ops (i + j + 1) - pulsesBefore ops (i + j)) % 2 = 1 :=
        fun hodd => hnone ⟨i + j, by omega, by omega, hodd⟩
      have hle := linkCyclesBefore_le_succ ops (i + j)
      have hone := hsingle (i + j) (by omega) (by omega)
      rw [← ih (by omega)]
      show pulsesBefore ops (i + j + 1) = _
      simp only [pulsesBefore, hsixteen] at heven hone ⊢
      omega
  have hend := hsame window (Nat.le_refl window)
  simp only [pulsesBefore, hsixteen] at hend hruns
  omega

/-- At the end of a window the link clock is reported active exactly if between two control cycles,
so many of them back as the crossing has stages, an odd number of pulses was sent.  So a running
clock is reported active if no more than sixteen link cycles fall between two control cycles. -/
theorem clock_active_of_running (hb : Bridge.new p = .ok b) (t : Transport)
    {ops : List Operation} (hwindow : p.activityWindow ∣ ops.countP isControl)
    (hlong : 2 * p.activityWindow + p.syncStages ≤ ops.countP isControl) :
    let cycles := ops.countP isControl
    let status := (run ⟨b, t⟩ ops).bridge.status
    (status.rxClockActive = true ↔
      ∃ k, cycles < k + p.activityWindow + p.syncStages ∧ k + p.syncStages ≤ cycles ∧
        (pulsesBefore ops (k + 1) - pulsesBefore ops k) % 2 = 1) ∧
      (RunsIn p.activityWindow ops → Resolved ops → status.rxClockActive = true) := by
  intro cycles status
  have hp := Bridge.check_of_new hb
  have hpos := BridgeParams.activityWindow_pos hp
  have hstages := BridgeParams.minStages_le hp
  have htwo : minStages = 2 := rfl
  have hlaw : status.rxClockActive = true ↔
      ∃ k, cycles < k + p.activityWindow + p.syncStages ∧ k + p.syncStages ≤ cycles ∧
        (pulsesBefore ops (k + 1) - pulsesBefore ops k) % 2 = 1 := by
    have hmod : cycles % p.activityWindow = 0 := Nat.mod_eq_zero_of_dvd hwindow
    have hflip : ∀ k, oddPulses (linkCyclesBefore ops (k + 1)) ≠
        oddPulses (linkCyclesBefore ops k) ↔
          (pulsesBefore ops (k + 1) - pulsesBefore ops k) % 2 = 1 :=
      fun k => oddPulses_ne_iff (linkCyclesBefore_le_succ ops k)
    refine (clockActive_iff hb t ops).trans ?_
    show (∃ d, cycles - cycles % p.activityWindow - p.activityWindow < d ∧
      d ≤ cycles - cycles % p.activityWindow ∧ _) ↔ _
    rw [hmod, Nat.sub_zero]
    constructor
    · rintro ⟨d, hlow, hhigh, hd⟩
      obtain ⟨k, rfl⟩ := Nat.exists_eq_add_of_le' (show p.syncStages ≤ d by omega)
      rw [Nat.add_right_comm, Nat.add_sub_cancel, Nat.add_sub_cancel, hflip] at hd
      exact ⟨k, by omega, hhigh, hd⟩
    · rintro ⟨k, hlow, hhigh, hd⟩
      refine ⟨k + p.syncStages, by omega, hhigh, ?_⟩
      rw [Nat.add_right_comm, Nat.add_sub_cancel, Nat.add_sub_cancel, hflip]
      exact hd
  refine ⟨hlaw, fun hruns hsingle => hlaw.mpr ?_⟩
  obtain ⟨i, hi⟩ : ∃ i, i + p.activityWindow + p.syncStages = cycles + 1 :=
    ⟨cycles + 1 - p.activityWindow - p.syncStages, by omega⟩
  obtain ⟨k, hlow, hhigh, hodd⟩ := exists_odd_pulses (hruns i (by omega) (by omega))
    fun k hlow hhigh => hsingle k (by omega) (by omega)
  exact ⟨k, by omega, by omega, hodd⟩

/-- Eight link cycles for each control cycle. -/
theorem clock_active_of_running_at_half_rate :
    let p : BridgeParams := { activityWindow := 2 }
    let gap : List Operation := List.replicate 8 (.link default) ++ [.control]
    let ops := gap ++ gap ++ gap ++ gap ++ gap ++ gap
    let cycles := ops.countP isControl
    let status := (run ⟨Bridge.ofParams p, {}⟩ ops).bridge.status
    Bridge.new p = .ok (Bridge.ofParams p) ∧ p.activityWindow ∣ cycles ∧
      2 * p.activityWindow + p.syncStages ≤ cycles ∧ RunsIn p.activityWindow ops ∧
      Resolved ops ∧
      (status.rxClockActive = true ↔
        ∃ k, cycles < k + p.activityWindow + p.syncStages ∧ k + p.syncStages ≤ cycles ∧
          (pulsesBefore ops (k + 1) - pulsesBefore ops k) % 2 = 1) ∧
      status.rxClockActive = true := by
  intro p gap ops cycles status
  have hb : Bridge.new { activityWindow := 2 } =
      .ok (Bridge.ofParams { activityWindow := 2 }) := rfl
  have hwindow : p.activityWindow ∣ ops.countP isControl := by decide
  have hlong : 2 * p.activityWindow + p.syncStages ≤ ops.countP isControl := by decide
  have hruns : RunsIn p.activityWindow ops := by
    have hall : ∀ i < 5, 0 < i →
        linkCyclesBefore ops i + activityDivisor ≤ linkCyclesBefore ops (i + 2) := by decide
    intro i hpos hle
    have hsix : ops.countP isControl = 6 := by decide
    have htwo : p.activityWindow = 2 := rfl
    exact hall i (by omega) hpos
  have hresolved : Resolved ops := by
    have hall : ∀ i < 6, 0 < i →
        linkCyclesBefore ops (i + 1) ≤ linkCyclesBefore ops i + activityDivisor := by decide
    intro i hpos hlt
    exact hall i hlt hpos
  obtain ⟨hlaw, hactive⟩ := clock_active_of_running hb {} hwindow hlong
  exact ⟨hb, hwindow, hlong, hruns, hresolved, hlaw, hactive hruns hresolved⟩

/-- With thirty-two link cycles to each control cycle the pulses cancel out. -/
theorem running_clock_reported_stopped :
    let p : BridgeParams := { activityWindow := 1 }
    let gap : List Operation := List.replicate 32 (.link default) ++ [.control]
    let ops := gap ++ gap ++ gap ++ gap
    Bridge.new p = .ok (Bridge.ofParams p) ∧ p.activityWindow ∣ ops.countP isControl ∧
      2 * p.activityWindow + p.syncStages ≤ ops.countP isControl ∧
      RunsIn p.activityWindow ops ∧
      (run ⟨Bridge.ofParams p, {}⟩ ops).bridge.status.rxClockActive = false := by
  intro p gap ops
  have hb : Bridge.new { activityWindow := 1 } =
      .ok (Bridge.ofParams { activityWindow := 1 }) := rfl
  have hruns : RunsIn p.activityWindow ops := by
    have hall : ∀ i < 4, 0 < i →
        linkCyclesBefore ops i + activityDivisor ≤ linkCyclesBefore ops (i + 1) := by
      decide +kernel
    intro i hpos hle
    have hfour : ops.countP isControl = 4 := by decide
    have hone : p.activityWindow = 1 := rfl
    exact hall i (by omega) hpos
  exact ⟨hb, by decide, by decide, hruns, by decide +kernel⟩

end New
end Session
end LinkBridge
