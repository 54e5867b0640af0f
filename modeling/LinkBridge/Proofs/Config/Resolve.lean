import LinkBridge.Config.Resolve
import LinkBridge.Proofs.Simulation.Session
import LinkBridge.Proofs.Text.Blank

/-!
What a configuration that passes its check can rely on.

The limits of a bridge stand twice: a configuration is held to them before it is resolved, and a
bridge holds its parameters to them when it is built.  `check_agrees_with_construction` says that
the two agree, because both ask the same of the same three settings and resolving carries these
over as they are (`Resolves`).  So whatever is checked again after a file was loaded passes: the
resolving, the limits of the bridge and the periods of the clocks (`simulation_of_load`).
-/

namespace LinkBridge

open Crossing

theorem Bridge.new_of_check {p : BridgeParams} (h : p.check = .ok ()) :
    Bridge.new p = .ok (.ofParams p) := by
  unfold Bridge.new
  rw [h]

namespace LinkConfig

variable {c : LinkConfig} {params : SimulationParams}

/-- What resolving reads, checks and carries over. -/
structure Resolves (c : LinkConfig) (params : SimulationParams) : Prop where
  controlClock : resolveClock "clocks.sys" c.clocks.control = .ok params.controlClock
  linkClock : resolveClock "clocks.link" c.clocks.link = .ok params.linkClock
  transport : checkTransport c.transport params.controlClock = .ok ()
  linkPhase : resolvePhase c.clocks.linkPhase = .ok params.linkPhase
  txDelay : resolveTap "bridge.tx_delay" c.bridge.txDelay = .ok params.bridge.txDelay
  rxDelay : resolveTap "bridge.rx_delay" c.bridge.rxDelay = .ok params.bridge.rxDelay
  txEye : resolveWindow "transceiver.tx_eye" c.transceiver.txEye = .ok params.transceiver.txEye
  rxEye : resolveWindow "transceiver.rx_eye" c.transceiver.rxEye = .ok params.transceiver.rxEye
  bridge : params.bridge =
    { syncStages := c.bridge.syncStages, fifoDepth := c.bridge.fifoDepth,
      activityWindow := c.bridge.activityWindow, loopbackMask := c.bridge.loopbackMask,
      txDelay := params.bridge.txDelay, rxDelay := params.bridge.rxDelay, polarity := c.polarity }
  transceiver : params.transceiver =
    { mode := c.transceiver.mode, txEye := params.transceiver.txEye,
      rxEye := params.transceiver.rxEye, latency := c.transceiver.latency,
      phaseInverted := c.transceiver.phaseInverted, seed := c.transceiver.seed,
      polarity := c.transceiver.polarity }

theorem resolves (h : c.resolve = .ok params) : Resolves c params := by
  unfold resolve at h
  simp only [bind_eq_ok] at h
  obtain ⟨control, hcontrol, link, hlink, _, htransport, phase, hphase, txDelay, htxDelay,
    rxDelay, hrxDelay, txEye, htxEye, rxEye, hrxEye, hparams⟩ := h
  obtain rfl := Except.ok.inj hparams
  exact ⟨hcontrol, hlink, htransport, hphase, htxDelay, hrxDelay, htxEye, hrxEye, rfl, rfl⟩

/-- Resolving carries over what the limits of the bridge are about. -/
theorem Resolves.check_bridge (h : Resolves c params) :
    params.bridge.check = .ok () ↔
      minStages ≤ c.bridge.syncStages ∧ goodDepth c.bridge.fifoDepth = true ∧
        0 < c.bridge.activityWindow := by
  rw [h.bridge]
  exact BridgeParams.check_eq_ok_iff

theorem checkLimits_eq_ok_iff :
    c.checkLimits = .ok () ↔
      (minStages ≤ c.bridge.syncStages ∧ goodDepth c.bridge.fifoDepth = true ∧
        0 < c.bridge.activityWindow) ∧ (Text.trim c.dwell.toList).isEmpty = false := by
  rw [← Nat.not_lt, Nat.pos_iff_ne_zero]
  unfold checkLimits
  by_cases hstages : c.bridge.syncStages < minStages
  · simp [hstages]
  · by_cases hdepth : goodDepth c.bridge.fifoDepth = true
    · by_cases hwindow : c.bridge.activityWindow = 0
      · simp [hstages, hdepth, hwindow]
      · by_cases hdwell : (Text.trim c.dwell.toList).isEmpty = true
        · simp [hstages, hdepth, hwindow, hdwell]
        · simp [hstages, hdepth, hwindow, hdwell]
    · simp [hstages, hdepth]

theorem check_eq_ok_iff :
    c.check = .ok () ↔ c.checkLimits = .ok () ∧ ∃ params, c.resolve = .ok params := by
  unfold check
  simp only [bind_eq_ok, mapError_eq_ok]
  exact ⟨fun ⟨_, hlimits, params, hresolve, _⟩ => ⟨hlimits, params, hresolve⟩,
    fun ⟨hlimits, params, hresolve⟩ => ⟨(), hlimits, params, hresolve, rfl⟩⟩

/-- A configuration that passes has a dwell that says something, and passes with any other such
dwell, since resolving does not read it. -/
theorem check_withDwell_iff (h : c.check = .ok ()) (text : String) :
    ({ c with dwell := text } : LinkConfig).check = .ok () ↔
      ∃ character ∈ text.toList, Text.isBlank character = false := by
  obtain ⟨hlimits, hresolves⟩ := check_eq_ok_iff.mp h
  obtain ⟨hbridge, -⟩ := checkLimits_eq_ok_iff.mp hlimits
  rw [check_eq_ok_iff, checkLimits_eq_ok_iff, Text.isEmpty_trim_eq_false_iff]
  exact ⟨fun hpass => hpass.1.2, fun hdwell => ⟨⟨hbridge, hdwell⟩, hresolves⟩⟩

theorem trim_dwell_of_check (h : c.check = .ok ()) : Text.trim c.dwell.toList ≠ [] := by
  have hdwell := (checkLimits_eq_ok_iff.mp (check_eq_ok_iff.mp h).1).2
  rwa [List.isEmpty_eq_false_iff] at hdwell

theorem check_default : ({} : LinkConfig).check = .ok () := by
  have hpass : ({} : LinkConfig).check.isOk = true := by decide +kernel
  cases h : ({} : LinkConfig).check with
  | ok _ => rfl
  | error e => rw [h] at hpass; exact nomatch hpass

theorem check_of_load {text : String} (h : load text = .ok c) : c.check = .ok () := by
  unfold load at h
  split at h
  · simp only [bind_eq_ok] at h
    obtain ⟨_, _, decoded, _, _, hcheck, hdecoded⟩ := h
    obtain rfl : decoded = c := Except.ok.inj hdecoded
    exact hcheck
  · exact nomatch h

/-- A configuration passes its check exactly if its dwell says something, it resolves, and the
bridge that it resolves to is within its limits.  A configuration that was loaded from a text
resolves again and its bridge can be built. -/
theorem check_agrees_with_construction (c : LinkConfig) :
    (c.check = .ok () ↔
      (∃ character ∈ c.dwell.toList, Text.isBlank character = false) ∧
        ∃ params, c.resolve = .ok params ∧ params.bridge.check = .ok ()) ∧
    ∀ text, load text = .ok c →
      ∃ params, c.resolve = .ok params ∧
        Bridge.new params.bridge = .ok (.ofParams params.bridge) := by
  have hcheck : c.check = .ok () ↔
      (∃ character ∈ c.dwell.toList, Text.isBlank character = false) ∧
        ∃ params, c.resolve = .ok params ∧ params.bridge.check = .ok () := by
    rw [check_eq_ok_iff, checkLimits_eq_ok_iff, Text.isEmpty_trim_eq_false_iff]
    constructor
    · rintro ⟨⟨hlimits, hdwell⟩, params, hresolve⟩
      exact ⟨hdwell, params, hresolve, (resolves hresolve).check_bridge.mpr hlimits⟩
    · rintro ⟨hdwell, params, hresolve, hbridge⟩
      exact ⟨⟨(resolves hresolve).check_bridge.mp hbridge, hdwell⟩, params, hresolve⟩
  refine ⟨hcheck, fun text hload => ?_⟩
  obtain ⟨-, params, hresolve, hbridge⟩ := hcheck.mp (check_of_load hload)
  exact ⟨params, hresolve, Bridge.new_of_check hbridge⟩

/-- A clock that resolves has a period, whichever domain it drives. -/
theorem period_of_resolveClock {field value : String} {f : Frequency} (domain : Domain)
    (h : resolveClock field value = .ok f) : ∃ period, Simulation.period domain f = .ok period := by
  unfold resolveClock at h
  split at h
  · exact nomatch h
  · rename_i f' _
    split at h
    · rename_i hsome
      obtain rfl : f' = f := Except.ok.inj h
      obtain ⟨period, hperiod⟩ := Option.isSome_iff_exists.mp hsome
      refine ⟨period, ?_⟩
      unfold Simulation.period
      rw [hperiod]
    · exact nomatch h

/-- What was loaded makes a simulation. -/
theorem simulation_of_load {text : String} (h : load text = .ok c) (transport : Transport) :
    ∃ params s, c.resolve = .ok params ∧ Simulation.new params transport = .ok s := by
  obtain ⟨hlimits, params, hresolve⟩ := check_eq_ok_iff.mp (check_of_load h)
  have hparams := resolves hresolve
  have hbridge := hparams.check_bridge.mpr (checkLimits_eq_ok_iff.mp hlimits).1
  obtain ⟨controlPeriod, hcontrol⟩ := period_of_resolveClock .control hparams.controlClock
  obtain ⟨linkPeriod, hlink⟩ := period_of_resolveClock .link hparams.linkClock
  exact ⟨params, _, hresolve,
    Simulation.new_eq hcontrol hlink (Bridge.new_of_check hbridge) transport⟩

/-- The empty text is accepted. -/
example : (load "").isOk = true := by decide +kernel

end LinkConfig
end LinkBridge
