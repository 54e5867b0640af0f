import LinkBridge.Decimal.Binary64
import LinkBridge.Power
import LinkBridge.Text.Digits

/-!
The fewest digits that read back.

A finite positive float stands for every real nearer to it than to its neighbours; the ends of that
interval belong to it when its mantissa is even.  Of the decimals in the interval `shortest` takes
one with the fewest digits, and of two such the nearer one, a tie going up.  The text is positional
for every size of number, and a whole number has no point.
-/

namespace LinkBridge.Decimal

/-- `digits * 10 ^ scale`. -/
structure Scaled where
  digits : Nat
  scale : Int
deriving DecidableEq, Repr

/-- The interval of a float, in units of `num / den`: `low`, the value itself and `high`. -/
structure Interval where
  num : Nat
  den : Nat
  low : Nat
  value : Nat
  high : Nat
  closed : Bool

/-- The interval of `m * 2 ^ q` in units of a quarter of `2 ^ q`.  The neighbour below a power of
two is half as far away as the one above. -/
def Interval.around (m : Nat) (q : Int) : Interval :=
  let (num, den) := Binary64.shift 1 1 (2 - q)
  { num, den
    low := if m = pow2 52 then 4 * m - 1 else 4 * m - 2
    value := 4 * m
    high := 4 * m + 2
    closed := m % 2 = 0 }

/-- `num / den * units` compared with `digits * 10 ^ scale`, both multiplied up to naturals. -/
def Interval.sides (i : Interval) (units : Nat) (x : Scaled) : Nat × Nat :=
  if x.scale < 0 then (units * i.num * pow10 (-x.scale).toNat, x.digits * i.den)
  else (units * i.num, x.digits * pow10 x.scale.toNat * i.den)

def Interval.contains (i : Interval) (x : Scaled) : Bool :=
  let (low, a) := i.sides i.low x
  let (high, b) := i.sides i.high x
  if i.closed then low ≤ a && b ≤ high else low < a && b < high

/-- The exponent of the leading decimal digit of `units * num / den`, found upwards from a guess
that is at most a few too small. -/
def Interval.leadingFrom (i : Interval) : Nat → Int → Int
  | 0, e => e
  | steps + 1, e =>
    let (v, bound) := i.sides i.value { digits := 1, scale := e + 1 }
    if bound ≤ v then i.leadingFrom steps (e + 1) else e

def Interval.leading (i : Interval) : Int :=
  let binary := Binary64.floorLog2 (i.value * i.num) i.den
  i.leadingFrom 4 (binary * 30103 / 100000 - 2)

/-- The neighbours of the value on the grid of a scale: the nearer of those in the interval. -/
def Interval.onGrid? (i : Interval) (scale : Int) : Option Scaled :=
  let (v, unit) := i.sides i.value { digits := 1, scale }
  let below : Scaled := { digits := v / unit, scale }
  let above : Scaled := { digits := v / unit + 1, scale }
  let upwards := unit ≤ 2 * (v % unit)
  match below.digits != 0 && i.contains below, i.contains above with
  | true, true => some (if upwards then above else below)
  | true, false => some below
  | false, true => some above
  | false, false => none

/-- The first grid, from coarse to fine, with a point in the interval. -/
def Interval.firstHit (i : Interval) : Nat → Int → Scaled
  | 0, scale => { digits := i.value, scale }
  | steps + 1, scale => (i.onGrid? scale).getD (i.firstHit steps (scale - 1))

/-- Seventeen digits always suffice for a binary64 number.  The first grid is one coarser than the
leading digit, because the interval may reach up to the next power of ten. -/
def shortest (m : Nat) (q : Int) : Scaled :=
  let i := Interval.around m q
  i.firstHit 18 (i.leading + 1)

/-- Positional text of `digits * 10 ^ scale`, without zeros after the last digit of a fraction. -/
def Scaled.text (x : Scaled) : List Char :=
  let ds := Digits.render 10 x.digits
  if 0 ≤ x.scale then ds ++ List.replicate x.scale.toNat '0'
  else
    let places := (-x.scale).toNat
    let filled := Digits.padLeft (places + 1) '0' ds
    let whole := filled.take (filled.length - places)
    let fraction := filled.drop (filled.length - places)
    whole ++ '.' :: fraction

/-- A float with the fewest digits that read back, in positional form. -/
def showFloat (x : Float) : String :=
  match Binary64.ofFloat x with
  | .nan => "NaN"
  | .infinite negative => if negative then "-inf" else "inf"
  | .finite negative m q =>
    let body := if m = 0 then ['0'] else (shortest m q).text
    String.ofList (if negative then '-' :: body else body)

end LinkBridge.Decimal
