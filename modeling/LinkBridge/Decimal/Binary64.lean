import LinkBridge.Power

/-!
Binary64 numbers as exact values.

`Binary64.ofFloat` takes a float apart into `m * 2 ^ q`, and `Binary64.nearest` is the float nearest
to a quotient of naturals, a half going to the even mantissa.  Text is read and written on these
exact values, never through another float operation.
-/

namespace LinkBridge

/-- A binary64 number.  A finite one is `mantissa * 2 ^ exponent`, with its sign. -/
inductive Binary64 where
  | nan
  | infinite (negative : Bool)
  | finite (negative : Bool) (mantissa : Nat) (exponent : Int)
deriving DecidableEq, Repr

namespace Binary64

/-- The value of a bit pattern: one sign bit, eleven exponent bits, fifty-two fraction bits. -/
def ofBits (bits : UInt64) : Binary64 :=
  let n := bits.toNat
  let negative := pow2 63 ≤ n
  let field : Nat := n / pow2 52 % pow2 11
  let fraction := n % pow2 52
  if field = 2047 then
    if fraction = 0 then .infinite negative else .nan
  else if field = 0 then .finite negative fraction (-1074)
  else .finite negative (pow2 52 + fraction) ((field : Int) - 1075)

def ofFloat (x : Float) : Binary64 := ofBits x.toBits

/-- The quotient rounded to a whole number, a half going to the even neighbour. -/
def roundDiv (num den : Nat) : Nat :=
  let whole := num / den
  let rest := num % den
  if 2 * rest > den ∨ (2 * rest = den ∧ whole % 2 = 1) then whole + 1 else whole

/-- The quotient divided by `2 ^ e`, as a quotient again. -/
def shift (num den : Nat) (e : Int) : Nat × Nat :=
  if e < 0 then (num * pow2 (-e).toNat, den) else (num, den * pow2 e.toNat)

/-- The exponent of the greatest power of two that is at most the quotient of two positive numbers.
The difference of their own exponents is right or one too great. -/
def floorLog2 (num den : Nat) : Int :=
  let guess : Int := (Nat.log2 num : Int) - (Nat.log2 den : Int)
  let (n, d) := shift num den guess
  if d ≤ n then guess else guess - 1

/-- Bits of the nonnegative float nearest to a quotient.  The least exponent is that of the
subnormal numbers, and a quotient past the greatest finite float is infinite. -/
def nearestBits (num den : Nat) : Nat :=
  if num = 0 then 0
  else
    let q := max (floorLog2 num den - 52) (-1074)
    let (n, d) := shift num den q
    let m := roundDiv n d
    let (m, q) := if m = pow2 53 then (pow2 52, q + 1) else (m, q)
    if q > 971 then 2047 * pow2 52
    else if m < pow2 52 then m
    else (q + 1075).toNat * pow2 52 + (m - pow2 52)

/-- The float nearest to a quotient, with a sign. -/
def nearest (negative : Bool) (num den : Nat) : Float :=
  Float.ofBits (UInt64.ofNat ((if negative then pow2 63 else 0) + nearestBits num den))

/-- A nonnegative number rounded to a whole one, a half upwards.  There is none for an infinite
number; a negative one and what is not a number count as zero. -/
def roundHalfUp : Binary64 → Option Nat
  | .finite false mantissa exponent =>
    let (n, d) := if exponent < 0 then (mantissa, pow2 (-exponent).toNat)
      else (mantissa * pow2 exponent.toNat, 1)
    some ((2 * n + d) / (2 * d))
  | .infinite false => none
  | _ => some 0

def infinity (negative : Bool) : Float := nearest negative (pow2 1024) 1

def notANumber : Float := Float.ofBits 0x7ff8000000000000

def ofInt (n : Int) : Float := nearest (n < 0) n.natAbs 1

end Binary64
end LinkBridge
