/-!
Powers of two and of ten, and the limits of fixed-width numbers.
-/

namespace LinkBridge

def pow2 (n : Nat) : Nat := Nat.pow 2 n

/-- The least power of two that is not below a number. -/
def ceilPow2 (n : Nat) : Nat := if n ≤ 1 then 1 else pow2 ((n - 1).log2 + 1)

def pow10 (n : Nat) : Nat := Nat.pow 10 n

/-- The first number that does not fit in 32 bits. -/
def limit32 : Nat := 4294967296

/-- The first number that does not fit in 64 bits. -/
def limit64 : Nat := 18446744073709551616

/-- The first number that does not fit in 63 bits, which are left beside a sign. -/
def limit63 : Nat := 9223372036854775808

end LinkBridge
