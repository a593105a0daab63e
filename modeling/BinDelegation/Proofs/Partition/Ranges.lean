import BinDelegation.Proofs.Partition.Names
import BinDelegation.Proofs.Text.Pieces

/-!
# The ranges that names tell

A name is made for every number of 64 bits, be it a prefix or not. It can be read back: its parts
are the first and the last number of a range, which is as long as a bin and begins at a multiple of
that length. Lengths are powers of two, so the last range ends just where the numbers end. Two
numbers have the same name exactly if they are in the same range.

The prefix is not checked where a name is computed, and behind the prefixes of the partition the
subtraction and the addition there might wrap around. They do not: a number less its remainder is a
multiple of the length (`toNat_sub_mod`), and there is room behind it up to the end of the numbers
because the length divides `2 ^ 64` (`binSize_dvd`, `range_le_size`).

Digits of such numbers may be more than the width, which is a least width. Reading a name back does
not depend on it, as the dash parts the two numbers.
-/

namespace BinDelegation.Partition

variable (p : Partition)

/-- The first and the last number of the range that a name tells: its parts before and behind a
dash, or twice the same number if there is no dash. -/
def rangeOfName? (name : String) : Option (Nat × Nat) :=
  match pieces '-' name.toList with
  | [digits] => (Hex.value? digits).map fun n => (n, n)
  | [first, last] => do return (← Hex.value? first, ← Hex.value? last)
  | _ => none

/-! ## Names are read back -/

/-- The text of a prefix has no dash. -/
theorem dash_notMem_prefixText (value : UInt64) : '-' ∉ (p.prefixText value).toList := by
  intro hdash
  exact absurd (p.isLowerDigit_of_mem_prefixText hdash) (by decide)

/-- A name tells the two numbers that it is made for. -/
theorem rangeOfName?_binName (low high : UInt64) :
    rangeOfName? (p.binName low high) = some (low.toNat, high.toNat) := by
  have hread (value : UInt64) : Hex.value? (p.prefixText value).toList = some value.toNat :=
    Hex.value?_padded p.width value.toNat
  have hpieces (value : UInt64) :
      pieces '-' (p.prefixText value).toList = [(p.prefixText value).toList] :=
    pieces_of_not_mem (p.dash_notMem_prefixText value)
  rw [binName]
  -- A bin of one prefix is named by that prefix alone.
  split
  · next hsame =>
    rw [rangeOfName?, hpieces, hsame]
    simp only [hread, Option.map_some]
  · have hdash : "-".toList = ['-'] := rfl
    have hparts : pieces '-' (p.prefixText low ++ "-" ++ p.prefixText high).toList
        = [(p.prefixText low).toList, (p.prefixText high).toList] := by
      rw [String.toList_append, String.toList_append, hdash, List.append_assoc,
        List.singleton_append, pieces_append, hpieces, hpieces, List.singleton_append]
    rw [rangeOfName?, hparts]
    simp only [hread, Option.bind_eq_bind, Option.bind_some, Option.pure_def]

/-! ## Ranges -/

/-- The numbers of 64 bits are divided evenly by the length of a bin. -/
theorem binSize_dvd : p.binSize.toNat ∣ UInt64.size := by
  have hwidth := p.width_le
  rw [binSize_toNat]
  exact Nat.pow_dvd_pow 2 (show 4 * p.width - p.bits ≤ 64 by omega)

/-- The range of a number ends before the numbers do. -/
theorem range_le_size (value : UInt64) :
    p.binSize.toNat * (value.toNat / p.binSize.toNat) + p.binSize.toNat ≤ UInt64.size := by
  obtain ⟨ranges, hranges⟩ := p.binSize_dvd
  have hlt : value.toNat / p.binSize.toNat < ranges := by
    rw [Nat.div_lt_iff_lt_mul p.binSize_pos, Nat.mul_comm, ← hranges]
    exact value.toNat_lt
  calc p.binSize.toNat * (value.toNat / p.binSize.toNat) + p.binSize.toNat
      = p.binSize.toNat * (value.toNat / p.binSize.toNat + 1) := (Nat.mul_succ _ _).symm
    _ ≤ p.binSize.toNat * ranges := Nat.mul_le_mul_left _ hlt
    _ = UInt64.size := hranges.symm

/-- The name of a number tells the range of the number. -/
theorem rangeOfName?_binForPrefix (value : UInt64) :
    rangeOfName? (p.binForPrefix value)
      = some (p.binSize.toNat * (value.toNat / p.binSize.toNat),
        p.binSize.toNat * (value.toNat / p.binSize.toNat) + p.binSize.toNat - 1) := by
  have hlow := p.toNat_sub_mod value
  have hroom := p.range_le_size value
  rw [← hlow] at hroom
  show rangeOfName? (p.binName (value - value % p.binSize)
    (value - value % p.binSize + p.binSize - 1)) = _
  rw [rangeOfName?_binName, p.toNat_add_binSize hroom, hlow]

/-- Numbers of one range have one name, and numbers of different ranges have different names. A name
tells a range: it holds the number, begins at a multiple of the length of a bin and is as long as
one. -/
theorem binForPrefix_separates (value other : UInt64) :
    (p.binForPrefix value = p.binForPrefix other ↔ value / p.binSize = other / p.binSize) ∧
    ∃ low high : Nat, rangeOfName? (p.binForPrefix value) = some (low, high) ∧
      low ≤ value.toNat ∧ value.toNat ≤ high ∧ p.binSize.toNat ∣ low ∧
      high - low + 1 = p.binSize.toNat := by
  have hpos := p.binSize_pos
  refine ⟨⟨fun hname => ?_, fun hquotient => ?_⟩, _, _, p.rangeOfName?_binForPrefix value,
    Nat.mul_div_le _ _, ?_, Nat.dvd_mul_right _ _, by omega⟩
  · have hranges := p.rangeOfName?_binForPrefix value
    rw [hname, rangeOfName?_binForPrefix] at hranges
    have hlow := (Prod.mk.inj (Option.some.inj hranges)).1
    refine UInt64.toNat_inj.1 ?_
    rw [UInt64.toNat_div, UInt64.toNat_div]
    exact (Nat.eq_of_mul_eq_mul_left hpos hlow).symm
  · have hquotient := congrArg UInt64.toNat hquotient
    rw [UInt64.toNat_div, UInt64.toNat_div] at hquotient
    have hlow : value - value % p.binSize = other - other % p.binSize := by
      refine UInt64.toNat_inj.1 ?_
      rw [toNat_sub_mod, toNat_sub_mod, hquotient]
    rw [binForPrefix, binForPrefix, hlow]
  · have hlt := Nat.lt_mul_div_succ value.toNat hpos
    rw [Nat.mul_succ] at hlt
    omega

/-- The last range of all, and the first one behind the prefixes, whose name is wider than those of
the bins. -/
example : standard.binForPrefix 0xffffffffffffffff = "fffffffffffffff8-ffffffffffffffff" ∧
    standard.binForPrefix 0x100 = "100-107" := by decide +kernel

end BinDelegation.Partition
