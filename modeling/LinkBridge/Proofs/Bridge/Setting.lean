import LinkBridge.Proofs.Bridge.Session

/-!
Settings on their way to the link side.

The loopback bit and the pattern controls cross alike.  A control cycle drives a chain with what the
register says, a link cycle moves the chain on, and the link side works under what comes out.  So
the link side may rely on whatever holds of the reset value and of each value written.
-/

namespace LinkBridge

open Crossing

/-- A setting of the control side that crosses to the link side. -/
structure Setting (γ : Type) where
  register : Register
  decode : UInt32 → γ
  value : ControlSide → γ
  crossing : Crossings → Chain γ
  inForce : LinkControls → γ
  value_tickControl : ∀ b t, value (Bridge.tickControl b t).1.control = value b.control
  value_writeRegister : ∀ b r bits, value (Bridge.writeRegister b r bits).control =
    if r = register then decode bits else value b.control
  crossing_tickControl : ∀ b t, crossing (Bridge.tickControl b t).1.crossings =
    (crossing b.crossings).drive (value b.control)
  crossing_tickLink : ∀ b received, crossing (Bridge.tickLink b received).crossings =
    (crossing b.crossings).tick
  inForce_eq : ∀ b, inForce (Bridge.linkControls b) = (crossing b.crossings).tick.output

namespace Setting

def loopback : Setting Bool where
  register := .control
  decode bits := (ControlReg.ofBits bits).loopback
  value control := control.control.loopback
  crossing crossings := crossings.loopback
  inForce controls := controls.loopback
  value_tickControl _ _ := rfl
  value_writeRegister _ r _ := by cases r <;> rfl
  crossing_tickControl _ _ := rfl
  crossing_tickLink _ _ := rfl
  inForce_eq _ := rfl

def txPattern : Setting PatternControl where
  register := .txPattern
  decode := PatternControl.ofBits
  value control := control.txPattern
  crossing crossings := crossings.txPattern
  inForce controls := controls.tx
  value_tickControl _ _ := rfl
  value_writeRegister _ r _ := by cases r <;> rfl
  crossing_tickControl _ _ := rfl
  crossing_tickLink _ _ := rfl
  inForce_eq _ := rfl

def rxPattern : Setting PatternControl where
  register := .rxPattern
  decode := PatternControl.ofBits
  value control := control.rxPattern
  crossing crossings := crossings.rxPattern
  inForce controls := controls.rx
  value_tickControl _ _ := rfl
  value_writeRegister _ r _ := by cases r <;> rfl
  crossing_tickControl _ _ := rfl
  crossing_tickLink _ _ := rfl
  inForce_eq _ := rfl

variable {γ : Type} (setting : Setting γ) (P : γ → Prop)

/-- The setting and all copies of it on their way satisfy a predicate. -/
structure Keeps (b : Bridge) : Prop where
  value : P (setting.value b.control)
  crossing : (setting.crossing b.crossings).Holds P

variable {setting P}

/-- Only writes to its register change what a setting says. -/
theorem value_step {s : Session} (h : P (setting.value s.bridge.control)) {o : Operation}
    (ho : o.WritesOnly setting.register fun bits => P (setting.decode bits)) :
    P (setting.value (s.step o).bridge.control) := by
  cases o with
  | control =>
    show P (setting.value (s.bridge.tickControl s.transport).1.control)
    rw [setting.value_tickControl]
    exact h
  | write address bits =>
    rcases s.step_write address bits with hstep | ⟨r, rfl, hstep⟩
    · rw [hstep]
      exact h
    · rw [hstep, setting.value_writeRegister]
      split
      · exact ho (congrArg Register.address ‹_›)
      · exact h
  | _ => exact h

theorem value_run {s : Session} (h : P (setting.value s.bridge.control)) {ops : List Operation}
    (hops : ∀ o ∈ ops, o.WritesOnly setting.register fun bits => P (setting.decode bits)) :
    P (setting.value (s.run ops).bridge.control) :=
  Trace.final_invariant (P := fun s : Session => P (setting.value s.bridge.control))
    (fun _ _ hs ho => value_step hs ho) h (Trace.along_of_forall s fun o ho _ => hops o ho)

namespace Keeps

variable {b : Bridge}

theorem inForce (h : setting.Keeps P b) : P (setting.inForce b.linkControls) := by
  rw [setting.inForce_eq]
  exact h.crossing.tick.output

/-- Writes to the register are all that matters. -/
theorem step {s : Session} (h : setting.Keeps P s.bridge) {o : Operation}
    (ho : o.WritesOnly setting.register fun bits => P (setting.decode bits)) :
    setting.Keeps P (s.step o).bridge := by
  refine ⟨value_step h.value ho, ?_⟩
  cases o with
  | control =>
    show (setting.crossing (s.bridge.tickControl s.transport).1.crossings).Holds P
    rw [setting.crossing_tickControl]
    exact h.crossing.drive h.value
  | link received =>
    show (setting.crossing (s.bridge.tickLink received).crossings).Holds P
    rw [setting.crossing_tickLink]
    exact h.crossing.tick
  | write address bits =>
    rw [s.crossings_write]
    exact h.crossing
  | _ => exact h.crossing

end Keeps
end Setting
end LinkBridge
