import BinDelegation.Partition
import BinDelegation.Text.Hex

/-! # Bins

A bin serves the prefixes from `low` to `high`. It is named by them: by the one prefix if it serves
one, else by both with a dash between. The bins of a partition can be had all at once, or one after
the other by a walk that can skip and that knows how many are left.
-/

namespace BinDelegation

namespace Partition

/-- A prefix as text, padded to the width of the partition. -/
def prefixText (p : Partition) (value : UInt64) : String := Hex.padded p.width value.toNat

/-- The name of a bin that serves the prefixes from `low` to `high`. -/
def binName (p : Partition) (low high : UInt64) : String :=
  if low = high then p.prefixText low else p.prefixText low ++ "-" ++ p.prefixText high

/-- The name of the bin that serves a prefix. -/
def binForPrefix (p : Partition) (value : UInt64) : String :=
  let low := value - value % p.binSize
  p.binName low (low + p.binSize - 1)

end Partition

/-- A bin: its name, the first and last prefix it serves, and the texts of all of them. -/
structure Bin where
  name : String
  low : UInt64
  high : UInt64
  hashPrefixes : List String
deriving DecidableEq, Repr

namespace Bin

/-- The bin of a partition that begins at a prefix. -/
def startingAt (p : Partition) (low : UInt64) : Bin :=
  let high := low + p.binSize - 1
  { name := p.binName low high
    low := low
    high := high
    hashPrefixes := (List.range p.binSize.toNat).map fun i => p.prefixText (low + UInt64.ofNat i) }

/-- Whether a bin serves a prefix. -/
def contains (b : Bin) (value : UInt64) : Bool := b.low ≤ value && value ≤ b.high

end Bin

namespace Partition

/-- The bins in ascending order. -/
def bins (p : Partition) : List Bin :=
  (List.range p.count).map fun i => Bin.startingAt p (UInt64.ofNat i * p.binSize)

/-- The first prefix of the bin with this name, if the text begins as such a name does: with the
digits of a prefix, alone or before a dash. -/
def lowOfName? (p : Partition) (name : String) : Option UInt64 :=
  let digits := name.toList.takeWhile (· ≠ '-')
  if digits.length = p.width ∧ digits.all Hex.isLowerDigit then
    (Hex.value? digits).map UInt64.ofNat
  else none

/-- Whether a text is the name of one of the bins. -/
def isBinName (p : Partition) (name : String) : Bool :=
  match p.lowOfName? name with
  | some low => low < p.space && p.binForPrefix low == name
  | none => false

end Partition

/-- A walk over the bins of a partition, up to the prefix that comes next. -/
structure BinWalk where
  partition : Partition
  nextLow : UInt64 := 0

namespace BinWalk

/-- The walk before the first bin. -/
def start (p : Partition) : BinWalk := { partition := p }

/-- The next bin and the walk behind it, or nothing at the end. -/
def next? (w : BinWalk) : Option (Bin × BinWalk) :=
  if w.partition.space ≤ w.nextLow then none
  else
    some (Bin.startingAt w.partition w.nextLow,
      { w with nextLow := w.nextLow + w.partition.binSize })

/-- The walk behind the next `n` bins, or at the end. -/
def skip (w : BinWalk) : (n : Nat) → BinWalk
  | 0 => w
  | n + 1 =>
    match w.next? with
    | some (_, w) => w.skip n
    | none => w

/-- The bin that comes after `n` others, and the walk behind it; at the end, no bin. -/
def nth (w : BinWalk) (n : Nat) : Option Bin × BinWalk :=
  let w := w.skip n
  match w.next? with
  | some (bin, w) => (some bin, w)
  | none => (none, w)

/-- How many bins are left. -/
def length (w : BinWalk) : Nat :=
  let space := w.partition.space
  ((space - min w.nextLow space) / w.partition.binSize).toNat

/-- The least and the most bins that can be left. -/
def sizeHint (w : BinWalk) : Nat × Option Nat := (w.length, some w.length)

/-- The next bins, `fuel` of them at most. -/
def take (w : BinWalk) : (fuel : Nat) → List Bin
  | 0 => []
  | fuel + 1 =>
    match w.next? with
    | some (bin, w) => bin :: w.take fuel
    | none => []

/-- The bins that are left: no more than there are in all. -/
def toList (w : BinWalk) : List Bin := w.take w.partition.count

end BinWalk

end BinDelegation
