import LinkBridge.Crossing.Chain
import LinkBridge.Crossing.Gray
import LinkBridge.Power

/-!
Dual-clock queue.

A ring of a power of two of cells with a write and a read pointer.  Pointers count modulo twice the
depth, so that a full ring and an empty one differ, and cross as Gray codes through a chain each
way.  Both sides see the other's pointer late, which makes the queue look fuller to the writer and
emptier to the reader than it is, never the other way round.
-/

namespace LinkBridge.Crossing

/-- `writeChain` carries the read pointer to the writer, `readChain` the write pointer to the
reader. -/
structure Fifo (α : Type) where
  depth : Nat
  cells : Array α
  writePtr : Nat := 0
  writeChain : Chain Nat
  readPtr : Nat := 0
  readChain : Chain Nat
deriving DecidableEq, Repr

namespace Fifo

variable {α : Type}

/-- A queue of at least the given depth, rounded up to a power of two. -/
def new [Inhabited α] (depth stages : Nat) : Fifo α :=
  let depth := ceilPow2 (max depth 2)
  { depth, cells := Array.replicate depth default, writeChain := Chain.new stages 0,
    readChain := Chain.new stages 0 }

/-- Pointers count modulo this. -/
def modulus (f : Fifo α) : Nat := 2 * f.depth

/-- Cells in use as the writer sees it. -/
def fillSeen (f : Fifo α) : Nat :=
  (f.writePtr + f.modulus - ungray f.writeChain.output % f.modulus) % f.modulus

def writable (f : Fifo α) : Bool := f.fillSeen < f.depth

def readable (f : Fifo α) : Bool := ungray f.readChain.output != f.readPtr

/-- The oldest unread value, once the reader can see it. -/
def peek [Inhabited α] (f : Fifo α) : Option α :=
  if f.readable then some (f.cells.getD (f.readPtr % f.depth) default) else none

def push (f : Fifo α) (value : α) : Fifo α :=
  { f with
    cells := f.cells.setIfInBounds (f.writePtr % f.depth) value
    writePtr := (f.writePtr + 1) % f.modulus }

def drop (f : Fifo α) : Fifo α := { f with readPtr := (f.readPtr + 1) % f.modulus }

/-- A tick of the writer: an offered value is accepted unless the queue looks full.  The second
component says whether one was. -/
def writeTick (f : Fifo α) (input : Option α) : Fifo α × Bool :=
  let (f, accepted) :=
    match input with
    | some value => if f.writable then (f.push value, true) else (f, false)
    | none => (f, false)
  ({ f with writeChain := (f.writeChain.drive (gray f.readPtr)).tick }, accepted)

/-- A tick of the reader: when it is ready, the oldest visible value leaves the queue. -/
def readTick [Inhabited α] (f : Fifo α) (ready : Bool) : Fifo α × Option α :=
  let out := if ready then f.peek else none
  let f := if out.isSome then f.drop else f
  ({ f with readChain := (f.readChain.drive (gray f.writePtr)).tick }, out)

@[simp] theorem depth_writeTick (f : Fifo α) (input : Option α) :
    (f.writeTick input).1.depth = f.depth := by
  cases input with
  | none => rfl
  | some value =>
    simp only [writeTick]
    split <;> rfl

@[simp] theorem depth_readTick [Inhabited α] (f : Fifo α) (ready : Bool) :
    (f.readTick ready).1.depth = f.depth := by
  simp only [readTick]
  split
  · split <;> rfl
  · rfl

end Fifo
end LinkBridge.Crossing
