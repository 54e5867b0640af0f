/-!
Identifier codes of waveform variables.

Codes are texts over the 94 printable characters from `!` to `~`, numbered so that all codes of one
character come first, then all of two, and so on, each number having one code.
-/

namespace LinkBridge.Waveform

def codeBase : Nat := 94

def codeChar (digit : Nat) : Char := Char.ofNat (33 + digit)

/-- The code of a number, its lowest digit first.  What is left after the lowest digit counts from
one, so that no code is another with a zero in front. -/
def code (n : Nat) : List Char :=
  if _h : n < codeBase then [codeChar n]
  else codeChar (n % codeBase) :: code (n / codeBase - 1)
termination_by n
decreasing_by
  have := Nat.div_le_self n codeBase
  simp only [codeBase] at *
  omega

theorem code_ne_nil (n : Nat) : code n ≠ [] := by
  unfold code
  split <;> simp

end LinkBridge.Waveform
