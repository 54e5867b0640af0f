import LinkBridge.Decimal.Binary64
import LinkBridge.Text.Digits

/-!
Simulated time.

A `Time` is a count of femtoseconds, either since the start of a simulation or of a span, and never
past the last instant `2 ^ 64 - 1`.  Adding saturates there: a clock edge that would fall later is
held at the last instant.
-/

namespace LinkBridge

/-- The last instant, in femtoseconds. -/
def Time.lastFs : Nat := 18446744073709551615

structure Time where
  fs : Nat
  le_last : fs ≤ Time.lastFs
deriving DecidableEq, Repr

namespace Time

@[ext] theorem ext {a b : Time} (h : a.fs = b.fs) : a = b := by
  cases a
  cases b
  cases h
  rfl

def zero : Time := ⟨0, Nat.zero_le _⟩

def last : Time := ⟨lastFs, Nat.le_refl _⟩

instance : Inhabited Time := ⟨zero⟩

/-- The given count of femtoseconds, or the last instant if that is sooner. -/
def upTo (fs : Nat) : Time := ⟨min fs lastFs, Nat.min_le_right _ _⟩

/-- The given count of femtoseconds, if it is not past the last instant. -/
def ofNat? (fs : Nat) : Option Time :=
  if h : fs ≤ lastFs then some ⟨fs, h⟩ else none

/-- A float count of femtoseconds as the nearest time, a half rounded up. -/
def ofFloat (fs : Float) : Time :=
  match (Binary64.ofFloat fs).roundHalfUp with
  | some n => upTo n
  | none => last

def after (t span : Time) : Time := upTo (t.fs + span.fs)

/-- The span from the earlier instant `s` to `t`. -/
def since (t s : Time) : Time := ⟨t.fs - s.fs, Nat.le_trans (Nat.sub_le _ _) t.le_last⟩

def earlier (a b : Time) : Time := if a.fs ≤ b.fs then a else b

theorem after_fs (t span : Time) : (t.after span).fs = min (t.fs + span.fs) lastFs := rfl

/-- Short of the last instant nothing is lost by saturating. -/
theorem after_fs_of_le {t span : Time} (h : t.fs + span.fs ≤ lastFs) :
    (t.after span).fs = t.fs + span.fs := by
  rw [after_fs]
  omega

/-- The last instant is reached exactly if the sum reaches it. -/
theorem after_eq_last_iff {t span : Time} : t.after span = last ↔ lastFs ≤ t.fs + span.fs := by
  have hmin := after_fs t span
  constructor
  · intro h
    have hfs : (t.after span).fs = lastFs := congrArg Time.fs h
    omega
  · intro h
    apply ext
    show (t.after span).fs = lastFs
    omega

/-- One span after another is a span of their sum. -/
theorem after_after (t a b : Time) : (t.after a).after b = t.after (a.after b) := by
  apply ext
  simp only [after_fs]
  omega

theorem le_after (t span : Time) : t.fs ≤ (t.after span).fs := by
  rw [after_fs]
  have := t.le_last
  omega

end Time

inductive TimeUnit where
  | fs
  | ps
  | ns
  | us
  | ms
  | s
deriving DecidableEq, Repr

namespace TimeUnit

def symbol : TimeUnit → String
  | .fs => "fs"
  | .ps => "ps"
  | .ns => "ns"
  | .us => "us"
  | .ms => "ms"
  | .s => "s"

/-- Femtoseconds in one unit. -/
def femtoseconds : TimeUnit → Nat
  | .fs => 1
  | .ps => 1000
  | .ns => 1000000
  | .us => 1000000000
  | .ms => 1000000000000
  | .s => 1000000000000000

def all : List TimeUnit := [.fs, .ps, .ns, .us, .ms, .s]

/-- Units that a time is shown in, from the largest. -/
def shown : List TimeUnit := [.ms, .us, .ns, .ps]

end TimeUnit

namespace Time

/-- The largest shown unit in which the time is a whole number; femtoseconds for no time at all. -/
def unit (t : Time) : TimeUnit :=
  if t.fs = 0 then .fs
  else (TimeUnit.shown.find? fun u => t.fs % u.femtoseconds = 0).getD .fs

def text (t : Time) : String :=
  Digits.decimal (t.fs / t.unit.femtoseconds) ++ " " ++ t.unit.symbol

def nanoseconds (t : Time) : Nat := t.fs / TimeUnit.ns.femtoseconds

/-- Seconds: the float nearest to the count of femtoseconds, divided by `1e15`. -/
def seconds (t : Time) : Float := Binary64.nearest false t.fs 1 / 1e15

def ofUnits (count : Nat) (u : TimeUnit) : Time := upTo (count * u.femtoseconds)

end Time
end LinkBridge
