import LinkBridge.Sample.Word

/-!
Test patterns.

The counting pattern is a twelve-bit counter.  The pseudo-random pattern is the sequence of
x^15 + x^14 + 1, one fifteen-bit value for each sample word: the first half carries its low twelve
bits and their complement, the second half its bits from four up and theirs, so that a receiver can
put the value together and check it against itself.
-/

namespace LinkBridge

inductive PatternMode where
  | count
  | prbs
deriving DecidableEq, Repr, Inhabited

def PatternMode.name : PatternMode → String
  | .count => "count"
  | .prbs => "prbs"

/-- Both patterns use the low twelve bits of a field. -/
def fieldMask : UInt16 := 0x0fff

def nextCount (c : UInt16) : UInt16 := (c + 1) &&& fieldMask

structure Prbs where
  state : UInt16
deriving DecidableEq, Repr

namespace Prbs

def ofState (state : UInt16) : Prbs := ⟨state &&& 0x7fff⟩

def seed : Prbs := ⟨0x4001⟩

instance : Inhabited Prbs := ⟨seed⟩

/-- Shifts in the exclusive or of the two highest bits. -/
def shift (p : Prbs) : Prbs :=
  let feedback := ((p.state >>> 13) ^^^ (p.state >>> 14)) &&& 1
  ⟨((p.state <<< 1) &&& 0x7fff) ||| feedback⟩

def shiftTimes (p : Prbs) : Nat → Prbs
  | 0 => p
  | n + 1 => p.shift.shiftTimes n

/-- Replaces all fifteen bits.  The new bits are the next word of the sequence. -/
def next (p : Prbs) : Prbs := p.shiftTimes 15

end Prbs

/-- The four fields of a value: two of the first half, two of the second. -/
structure PrbsFields where
  ai : UInt16
  aq : UInt16
  bi : UInt16
  bq : UInt16
deriving DecidableEq, Repr

def PrbsFields.ofValue (v : UInt16) : PrbsFields :=
  ⟨v &&& fieldMask, (~~~v) &&& fieldMask, (v >>> 4) &&& fieldMask, ((~~~v) >>> 4) &&& fieldMask⟩

/-- The value of the two uncomplemented fields: the low twelve bits of one, the high four of the
other. -/
def PrbsFields.value (ai bi : UInt16) : UInt16 :=
  (ai &&& fieldMask) ||| (((bi &&& fieldMask) >>> 8) <<< 12)

end LinkBridge
