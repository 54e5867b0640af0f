import LinkBridge.Sample.Word

/-!
Width conversion.

A sample word crosses the link as two link words: the low and the high half of the word rotated
right by sixteen bits.  `TxConverter` holds the second half back for one cycle; `RxConverter` waits
for a first half and joins it with the sample right after it.
-/

namespace LinkBridge

/-- A 64-bit word rotated right by a count of bits between 1 and 63. -/
def rotateRight (x : UInt64) (count : UInt64) : UInt64 := (x >>> count) ||| (x <<< (64 - count))

namespace SampleWord

/-- The two link words of a sample word, first half first. -/
def split (w : SampleWord) : LinkWord × LinkWord :=
  let r := rotateRight w.bits 16
  (LinkWord.ofPacked r.toUInt32, LinkWord.ofPacked (r >>> 32).toUInt32)

def join (first second : LinkWord) : SampleWord :=
  ⟨rotateRight (first.packed.toUInt64 ||| (second.packed.toUInt64 <<< 32)) 48⟩

end SampleWord

/-- Holds the second half of a word whose first half was sent. -/
structure TxConverter where
  pending : Option LinkWord := none
deriving DecidableEq, Repr

namespace TxConverter

/-- A new word can start only in a first slot, and not before the last one is out. -/
def ready (c : TxConverter) (firstSlot : Bool) : Bool := firstSlot && c.pending.isNone

def tick (c : TxConverter) (firstSlot : Bool) (input : Option SampleWord) :
    TxConverter × Option LinkWord :=
  match c.pending, firstSlot, input with
  | some _, true, _ => (c, none)
  | some half, false, _ => ({}, some half)
  | none, true, some word => ({ pending := some word.split.2 }, some word.split.1)
  | none, _, _ => (c, none)

end TxConverter

/-- Holds a first half until the next sample. -/
structure RxConverter where
  first : Option LinkWord := none
deriving DecidableEq, Repr

namespace RxConverter

/-- A gap in the samples drops a waiting half, and so does another first half. -/
def tick (c : RxConverter) (sample : Option LinkSample) : RxConverter × Option SampleWord :=
  match sample with
  | none => ({}, none)
  | some s =>
    if s.isFirst then ({ first := some s.word }, none)
    else ({}, c.first.map fun first => SampleWord.join first s.word)

end RxConverter
end LinkBridge
