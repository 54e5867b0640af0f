import LinkBridge.Power

/-!
Random words.

A seeded stream of 32-bit words: the ChaCha stream cipher with twelve rounds over a key that a
small linear congruential generator draws from the seed.  The same seed always gives the same
words, so that a simulation can be repeated.
-/

namespace LinkBridge.Random

def rotateLeft (x : UInt32) (count : UInt32) : UInt32 := (x <<< count) ||| (x >>> (32 - count))

/-- A right rotation by a count below 32. -/
def rotateRight (x : UInt32) (count : UInt32) : UInt32 :=
  if count = 0 then x else (x >>> count) ||| (x <<< (32 - count))

/-- One draw of the key generator: its new state and a word of the old bits, permuted. -/
def drawKeyWord (state : UInt64) : UInt64 × UInt32 :=
  let s := state * 6364136223846793005 + 11634580027462260723
  (s, rotateRight (((s >>> 18) ^^^ s) >>> 27).toUInt32 (s >>> 59).toUInt32)

structure Row where
  w0 : UInt32
  w1 : UInt32
  w2 : UInt32
  w3 : UInt32
deriving DecidableEq, Repr, Inhabited

namespace Row

def map (f : UInt32 → UInt32) (a : Row) : Row := ⟨f a.w0, f a.w1, f a.w2, f a.w3⟩

def zip (f : UInt32 → UInt32 → UInt32) (a b : Row) : Row :=
  ⟨f a.w0 b.w0, f a.w1 b.w1, f a.w2 b.w2, f a.w3 b.w3⟩

/-- The row with its words moved one place to the left. -/
def turn (a : Row) : Row := ⟨a.w1, a.w2, a.w3, a.w0⟩

def toList (a : Row) : List UInt32 := [a.w0, a.w1, a.w2, a.w3]

def draw (state : UInt64) : UInt64 × Row :=
  let (s, w0) := drawKeyWord state
  let (s, w1) := drawKeyWord s
  let (s, w2) := drawKeyWord s
  let (s, w3) := drawKeyWord s
  (s, ⟨w0, w1, w2, w3⟩)

end Row

structure Matrix where
  a : Row
  b : Row
  c : Row
  d : Row
deriving DecidableEq, Repr, Inhabited

namespace Matrix

/-- One step of a quarter round on all four columns: add, mix and rotate. -/
def addMix (a b d : Row) (count : UInt32) : Row × Row :=
  let a := a.zip (· + ·) b
  (a, (d.zip (· ^^^ ·) a).map (rotateLeft · count))

def columns (m : Matrix) : Matrix :=
  let (a, d) := addMix m.a m.b m.d 16
  let (c, b) := addMix m.c d m.b 12
  let (a, d) := addMix a b d 8
  let (c, b) := addMix c d b 7
  { a, b, c, d }

/-- Turns the diagonals into columns. -/
def skew (m : Matrix) : Matrix :=
  { m with b := m.b.turn, c := m.c.turn.turn, d := m.d.turn.turn.turn }

def unskew (m : Matrix) : Matrix :=
  { m with b := m.b.turn.turn.turn, c := m.c.turn.turn, d := m.d.turn }

/-- The quarter round on every column and then on every diagonal. -/
def doubleRound (m : Matrix) : Matrix := m.columns.skew.columns.unskew

def rounds (m : Matrix) : Nat → Matrix
  | 0 => m
  | n + 1 => m.doubleRound.rounds n

def add (m n : Matrix) : Matrix :=
  { a := m.a.zip (· + ·) n.a, b := m.b.zip (· + ·) n.b, c := m.c.zip (· + ·) n.c,
    d := m.d.zip (· + ·) n.d }

def words (m : Matrix) : List UInt32 := m.a.toList ++ m.b.toList ++ m.c.toList ++ m.d.toList

end Matrix

/-- A stream: its key, the number of the next block and the unused words of the last one. -/
structure Stream where
  key0 : Row
  key1 : Row
  block : Nat := 0
  unused : List UInt32 := []
deriving DecidableEq, Repr

namespace Stream

def ofSeed (seed : UInt64) : Stream :=
  let (s, key0) := Row.draw seed
  let (_, key1) := Row.draw s
  { key0, key1 }

/-- Sixteen words of the stream by the number of their block. -/
def blockWords (s : Stream) (block : Nat) : List UInt32 :=
  let start : Matrix :=
    { a := ⟨0x61707865, 0x3320646e, 0x79622d32, 0x6b206574⟩, b := s.key0, c := s.key1,
      d := ⟨UInt32.ofNat block, UInt32.ofNat (block / limit32), 0, 0⟩ }
  ((start.rounds 6).add start).words

def next (s : Stream) : Stream × UInt32 :=
  match s.unused with
  | w :: rest => ({ s with unused := rest }, w)
  | [] =>
    match s.blockWords s.block with
    | w :: rest => ({ s with block := s.block + 1, unused := rest }, w)
    | [] => (s, 0)

/-- A random bit is the top bit of a word. -/
def nextBit (s : Stream) : Stream × Bool :=
  let (s, w) := s.next
  (s, w >>> 31 != 0)

end Stream
end LinkBridge.Random
