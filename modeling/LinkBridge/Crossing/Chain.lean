/-!
Synchronizer chains.

A `Chain` moves a slowly changing value into another clock domain: the source domain drives it, and
each tick of the destination shifts it one register further.  A value driven and held comes out
after as many ticks as the chain has registers.
-/

namespace LinkBridge.Crossing

def minStages : Nat := 2

/-- A driven value and the registers behind it, the newest first. -/
structure Chain (α : Type) where
  source : α
  registers : List α
deriving DecidableEq, Repr

namespace Chain

variable {α : Type}

/-- A chain with every register at its reset value. -/
def new (stages : Nat) (reset : α) : Chain α :=
  { source := reset, registers := List.replicate (max stages minStages) reset }

def drive (c : Chain α) (value : α) : Chain α := { c with source := value }

def tick (c : Chain α) : Chain α := { c with registers := c.source :: c.registers.dropLast }

/-- The value that the destination sees: the oldest register. -/
def output (c : Chain α) : α := c.registers.getLastD c.source

def stages (c : Chain α) : Nat := c.registers.length

theorem stages_new (n : Nat) (reset : α) : (new n reset).stages = max n minStages := by
  simp [new, stages]

@[simp] theorem stages_drive (c : Chain α) (v : α) : (c.drive v).stages = c.stages := rfl

/-- A tick keeps the length of a chain that has a register at all. -/
theorem stages_tick (c : Chain α) (h : 0 < c.stages) : c.tick.stages = c.stages := by
  simp only [stages, tick, List.length_cons, List.length_dropLast] at *
  omega

end Chain
end LinkBridge.Crossing
