/-!
White space and trimming.

The set is the Unicode property White_Space, which every text field of the program is trimmed by:
frequencies, durations, masks and the scan dwell.
-/

namespace LinkBridge.Text

/-- Characters with the Unicode property White_Space. -/
def isBlank (c : Char) : Bool :=
  let n := c.toNat
  (9 ≤ n && n ≤ 13) || n == 0x20 || n == 0x85 || n == 0xa0 || n == 0x1680 ||
    (0x2000 ≤ n && n ≤ 0x200a) || n == 0x2028 || n == 0x2029 || n == 0x202f ||
    n == 0x205f || n == 0x3000

def trimStart (cs : List Char) : List Char := cs.dropWhile isBlank

def trimEnd (cs : List Char) : List Char := (cs.reverse.dropWhile isBlank).reverse

def trim (cs : List Char) : List Char := trimEnd (trimStart cs)

/-- Every blank of core's own class is a blank here. -/
theorem isBlank_of_isWhitespace {c : Char} (h : c.isWhitespace = true) : isBlank c = true := by
  simp only [Char.isWhitespace, Bool.or_eq_true, decide_eq_true_eq, or_assoc] at h
  rcases h with h | h | h | h <;> subst h <;> decide

/-- What stands in front of a suffix, if the text ends in it. -/
def stripSuffix? (cs suffix : List Char) : Option (List Char) :=
  if suffix.reverse.isPrefixOf cs.reverse then some (cs.take (cs.length - suffix.length)) else none

/-- ASCII capital letters made small; every other character stays as it is. -/
def asciiLower (cs : List Char) : List Char :=
  cs.map fun c => if 'A' ≤ c ∧ c ≤ 'Z' then Char.ofNat (c.toNat + 32) else c

end LinkBridge.Text
