/-!
Gray code.

Neighbouring numbers have codes that differ in one bit, so a pointer can cross a clock boundary and
be read as its old or its new value, never as a third.
-/

namespace LinkBridge.Crossing

def gray (n : Nat) : Nat := n ^^^ (n >>> 1)

/-- Goes on shifting, and takes each shift into the number, until nothing is left to shift. -/
def ungrayFrom (number shift : Nat) : Nat :=
  if _h : shift = 0 then number else ungrayFrom (number ^^^ shift) (shift >>> 1)
termination_by shift
decreasing_by
  rw [Nat.shiftRight_eq_div_pow]
  omega

/-- The number of a Gray code: the exclusive or of all its right shifts. -/
def ungray (code : Nat) : Nat := ungrayFrom code (code >>> 1)

end LinkBridge.Crossing
