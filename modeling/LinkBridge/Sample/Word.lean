import LinkBridge.Text.Digits

/-!
Words on either side of the bridge.

A `SampleWord` is the 64-bit unit of the transport, four 16-bit slices with slice 0 lowest.  A
`LinkWord` is what one link cycle moves: a 16-bit field for each of the two phases, phase 0 low in
the packed form.  A `LinkSample` adds the frame bit seen on each phase.
-/

namespace LinkBridge

structure SampleWord where
  bits : UInt64
deriving DecidableEq, Repr

namespace SampleWord

instance : Inhabited SampleWord := ⟨⟨0⟩⟩

/-- The word of four slices, lowest first. -/
def ofSlices (a b c d : UInt16) : SampleWord :=
  ⟨a.toUInt64 ||| (b.toUInt64 <<< 16) ||| (c.toUInt64 <<< 32) ||| (d.toUInt64 <<< 48)⟩

/-- A slice by its index; the index counts modulo four. -/
def slice (w : SampleWord) (index : Nat) : UInt16 :=
  (w.bits >>> (16 * UInt64.ofNat (index % 4))).toUInt16

def slices (w : SampleWord) : List UInt16 := [w.slice 0, w.slice 1, w.slice 2, w.slice 3]

/-- Text for diagnostics: all sixteen hexadecimal digits. -/
def debug (w : SampleWord) : String := "SampleWord(" ++ Digits.hex 16 w.bits.toNat ++ ")"

end SampleWord

structure LinkWord where
  phase0 : UInt16
  phase1 : UInt16
deriving DecidableEq, Repr

namespace LinkWord

instance : Inhabited LinkWord := ⟨⟨0, 0⟩⟩

def ofPacked (bits : UInt32) : LinkWord := ⟨bits.toUInt16, (bits >>> 16).toUInt16⟩

def packed (w : LinkWord) : UInt32 := w.phase0.toUInt32 ||| (w.phase1.toUInt32 <<< 16)

/-- The bits of the packed word that a mask keeps. -/
def masked (w : LinkWord) (mask : UInt32) : LinkWord := ofPacked (w.packed &&& mask)

/-- A field by its phase; the phase counts modulo two. -/
def phase (w : LinkWord) (index : Nat) : UInt16 := if index % 2 = 0 then w.phase0 else w.phase1

def debug (w : LinkWord) : String :=
  "LinkWord([" ++ Digits.hex 4 w.phase0.toNat ++ ", " ++ Digits.hex 4 w.phase1.toNat ++ "])"

end LinkWord

/-- The frame level of the first half of a sample word. -/
def frameFirst : Bool := true

/-- The twelve bits of each field that the transceiver carries. -/
def nativeMask : UInt32 := 0x0fff0fff

structure LinkSample where
  word : LinkWord
  frame0 : Bool
  frame1 : Bool
deriving DecidableEq, Repr

namespace LinkSample

instance : Inhabited LinkSample := ⟨⟨default, false, false⟩⟩

/-- A word with the same frame level on both phases, as a transmitter drives it. -/
def framed (word : LinkWord) (frame : Bool) : LinkSample := ⟨word, frame, frame⟩

def isFirst (s : LinkSample) : Bool := s.frame0 == frameFirst

/-- The frame bits as a number, phase 0 lowest. -/
def frameBits (s : LinkSample) : UInt8 := s.frame0.toUInt8 ||| (s.frame1.toUInt8 <<< 1)

/-- Whether the sample was taken on the expected edges: both phases show one frame level. -/
def isAligned (s : LinkSample) : Bool := s.frame0 == s.frame1

/-- What a receiver sees that samples half a cycle late: phase 1 of one cycle before phase 0 of
the next. -/
def late (previous current : LinkSample) : LinkSample :=
  ⟨⟨previous.word.phase1, current.word.phase0⟩, previous.frame1, current.frame0⟩

end LinkSample
end LinkBridge
