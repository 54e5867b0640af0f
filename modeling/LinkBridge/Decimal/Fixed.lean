import LinkBridge.Decimal.Shortest
import LinkBridge.Power

/-!
A fixed count of decimal places.

The exact value of the float is rounded to the last place, a half going to the even digit.
-/

namespace LinkBridge.Decimal

/-- `m * 2 ^ q` in units of the last of `places` decimal places. -/
def roundToPlaces (places m : Nat) (q : Int) : Nat :=
  let (num, den) := Binary64.shift (m * pow10 places) 1 (-q)
  Binary64.roundDiv num den

/-- A float with exactly `places` digits after the point, for `places` above zero. -/
def showFixed (places : Nat) (x : Float) : String :=
  match Binary64.ofFloat x with
  | .finite negative m q =>
    let body := ({ digits := roundToPlaces places m q, scale := -(places : Int) } : Scaled).text
    String.ofList (if negative then '-' :: body else body)
  | _ => showFloat x

end LinkBridge.Decimal
