import BinDelegation.Error

/-! # Partitions of the hash prefix space

The hashes of target paths are divided by their leading hexadecimal digits. The number of bins is a
power of two up to 65536, so it is kept as its exponent. From it follow the number of digits, which
are counted as they are shifted out of the number of the last bin, the number of prefixes with so
many digits, and how many of them there are to a bin.
-/

namespace BinDelegation

/-- A division of the hash prefixes among `2 ^ bits` bins. -/
structure Partition where
  /-- How many leading bits of a hash tell the bins apart. -/
  bits : Nat
  bits_le : bits ≤ 16
deriving DecidableEq, Repr

namespace Partition

/-- The largest number of bins. -/
def maxCount : Nat := 65536

/-- The number of bins. -/
def count (p : Partition) : Nat := 1 <<< p.bits

/-- How many hexadecimal digits a number has in all, none for zero. -/
def digitsOf (rest : Nat) : Nat := if rest = 0 then 0 else digitsOf (rest >>> 4) + 1
termination_by rest
decreasing_by rw [Nat.shiftRight_eq_div_pow]; omega

/-- How many leading digits of a hash select its bin: as many as the number of the last bin has, and
one if that is zero. -/
def width (p : Partition) : Nat := 1 + digitsOf ((p.count - 1) >>> 4)

/-- The number of hash prefixes. -/
def space (p : Partition) : UInt64 := UInt64.ofNat (Nat.pow 16 p.width)

/-- The number of prefixes in each bin. -/
def binSize (p : Partition) : UInt64 := p.space / UInt64.ofNat p.count

/-- Whether the bins have all prefixes among them. -/
def divides (p : Partition) : Bool := p.binSize * UInt64.ofNat p.count == p.space

private theorem log2_le_of_le {n : Nat} (h : n ≤ maxCount) : n.log2 ≤ 16 := by
  by_cases hn : n = 0
  · subst hn; decide
  · have : 2 ^ n.log2 ≤ 2 ^ 16 := Nat.le_trans (Nat.log2_self_le hn) h
    exact (Nat.pow_le_pow_iff_right (by decide)).1 this

/-- The partition into a number of bins: positive, a power of two, not above the largest, and one
that divides the prefixes evenly; the first of these that fails is reported. -/
def ofCount (n : Nat) : Except Error Partition :=
  if n = 0 then .error (.invalidConfiguration "bin count must be positive")
  else if n ≠ 1 <<< n.log2 then
    .error (.invalidConfiguration ("bin count must be a power of two, got " ++ toString n))
  else if h : n ≤ maxCount then
    let p : Partition := ⟨n.log2, log2_le_of_le h⟩
    if p.divides then .ok p
    else
      .error (.invalidConfiguration ("bin count " ++ toString n
        ++ " does not evenly divide prefix space " ++ toString p.space))
  else
    .error (.invalidConfiguration ("bin count must not exceed " ++ toString maxCount ++ ", got "
      ++ toString n))

/-- Thirty-two bins. -/
def standard : Partition := ⟨5, by decide⟩

end Partition

end BinDelegation
