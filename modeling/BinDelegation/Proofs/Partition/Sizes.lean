import BinDelegation.Partition
import Mathlib.Tactic.Ring
import Mathlib.Tactic.NormNum

/-!
# Sizes of a partition

All sizes of a partition follow from the number of bins, a power of two. The number of digits is
counted by shifting (`digitsOf`), and `digitsOf_le_iff` says what the count is compared with: it is
at most `k` exactly for numbers below `16 ^ k`. So the digits that select a bin are a quarter of the
bits that do, rounded up, and one at least (`width_eq`).

With so many digits the bins divide the prefixes evenly, each with `2 ^ (4 * width - bits)` of them
(`binSize_toNat`, `binSize_mul_count`). So the last check of a number of bins never fails
(`divides_eq_true`), and the numbers that are accepted are the powers of two up to 65536
(`exists_ofCount_eq_ok_iff`). All sizes are small, so no arithmetic on prefixes passes 64 bits.
-/

namespace BinDelegation.Partition

variable (p : Partition)

/-! ## Digits -/

theorem count_eq : p.count = 2 ^ p.bits := by
  rw [count, Nat.one_shiftLeft]

theorem count_pos : 0 < p.count := by
  rw [count_eq]
  positivity

/-- The digits are counted up to the least power of sixteen that the number is below. -/
theorem digitsOf_le_iff {rest k : Nat} : digitsOf rest ≤ k ↔ rest < 16 ^ k := by
  induction k generalizing rest with
  | zero =>
    rw [digitsOf]
    split <;> omega
  | succ k ih =>
    rw [digitsOf]
    split
    · next hzero => exact iff_of_true (Nat.zero_le _) (hzero ▸ by positivity)
    -- A shift by a digit divides by sixteen, and one digit fewer is left to count.
    · rw [Nat.add_le_add_iff_right, ih, Nat.shiftRight_eq_div_pow,
        Nat.div_lt_iff_lt_mul (by positivity)]
      rfl

/-- So many digits are enough to tell the bins apart exactly if they have as many bits as that
takes. -/
theorem width_le_iff {k : Nat} (hk : 0 < k) : p.width ≤ k ↔ p.bits ≤ 4 * k := by
  obtain ⟨more, rfl⟩ := Nat.exists_eq_succ_of_ne_zero hk.ne'
  have hpow : 16 ^ more * 16 = 2 ^ (4 * (more + 1)) := by
    rw [← pow_succ, pow_mul]
    norm_num
  rw [width, Nat.add_comm, Nat.succ_eq_add_one, Nat.add_le_add_iff_right, digitsOf_le_iff,
    Nat.shiftRight_eq_div_pow, Nat.div_lt_iff_lt_mul (by positivity)]
  calc p.count - 1 < 16 ^ more * 2 ^ 4 ↔ p.count ≤ 16 ^ more * 16 := by
        have hcount := p.count_pos
        omega
    _ ↔ p.bits ≤ 4 * (more + 1) := by
        rw [hpow, count_eq, Nat.pow_le_pow_iff_right (by decide)]

theorem width_pos : 0 < p.width := by
  rw [width]
  omega

/-- Four bits of the number of a bin make up a digit. -/
theorem width_eq : p.width = max 1 ((p.bits + 3) / 4) := by
  refine Nat.le_antisymm ((p.width_le_iff (by omega)).2 (by omega)) ?_
  have hbits := (p.width_le_iff p.width_pos).1 (Nat.le_refl _)
  have hpos := p.width_pos
  omega

/-- A prefix has four digits at most, as there are no more than 65536 bins. -/
theorem width_le : p.width ≤ 4 := by
  have hbits := p.bits_le
  rw [width_eq]
  omega

/-- The digits of a prefix have bits enough to tell the bins apart. -/
theorem bits_le_width : p.bits ≤ 4 * p.width := by
  rw [width_eq]
  omega

/-! ## Prefixes -/

/-- A prefix has four digits at most. -/
theorem prefixes_le : 16 ^ p.width ≤ 65536 := by
  calc 16 ^ p.width ≤ 16 ^ 4 := Nat.pow_le_pow_right (by decide) p.width_le
    _ = 65536 := by norm_num

/-- The bits that tell bins apart and the bits within a bin make up the digits of a prefix. -/
theorem two_pow_mul_count : 2 ^ (4 * p.width - p.bits) * p.count = 16 ^ p.width := by
  rw [count_eq, ← pow_add, Nat.sub_add_cancel p.bits_le_width, pow_mul]
  norm_num

/-- The prefixes are as many as their digits allow. -/
theorem toNat_space : p.space.toNat = 16 ^ p.width := by
  have hprefixes := p.prefixes_le
  rw [space, Nat.pow_eq, UInt64.toNat_ofNat_of_lt' (by rw [UInt64.size]; omega)]

/-- The number of bins fits into 64 bits. -/
theorem toNat_count : (UInt64.ofNat p.count).toNat = p.count := by
  have hprefixes := p.prefixes_le
  have hle : p.count ≤ 16 ^ p.width := by
    rw [← p.two_pow_mul_count]
    exact Nat.le_mul_of_pos_left _ (by positivity)
  rw [UInt64.toNat_ofNat_of_lt' (by rw [UInt64.size]; omega)]

/-- The size of a bin has the bits that do not tell bins apart. -/
theorem binSize_toNat : p.binSize.toNat = 2 ^ (4 * p.width - p.bits) := by
  rw [binSize, UInt64.toNat_div, toNat_space, toNat_count, ← two_pow_mul_count]
  exact Nat.mul_div_cancel _ p.count_pos

theorem binSize_pos : 0 < p.binSize.toNat := by
  rw [binSize_toNat]
  positivity

/-- The bins divide the prefixes evenly. -/
theorem binSize_mul_count : p.binSize.toNat * p.count = 16 ^ p.width := by
  rw [binSize_toNat, two_pow_mul_count]

/-- The bins have all prefixes among them, so no number of bins is refused for that. -/
theorem divides_eq_true : p.divides = true := by
  rw [divides, beq_iff_eq, ← UInt64.toNat_inj, UInt64.toNat_mul, toNat_count, binSize_mul_count,
    toNat_space]
  have hprefixes := p.prefixes_le
  exact Nat.mod_eq_of_lt (by omega)

/-- The prefixes of one bin come before the end of the prefixes. -/
theorem bin_le_prefixes {i : Nat} (hi : i < p.count) :
    i * p.binSize.toNat + p.binSize.toNat ≤ 16 ^ p.width := by
  calc i * p.binSize.toNat + p.binSize.toNat = p.binSize.toNat * (i + 1) := by ring
    _ ≤ p.binSize.toNat * p.count := Nat.mul_le_mul_left _ hi
    _ = 16 ^ p.width := p.binSize_mul_count

/-- Every prefix belongs to a bin. -/
theorem div_binSize_lt {n : Nat} (hn : n < 16 ^ p.width) : n / p.binSize.toNat < p.count := by
  rw [Nat.div_lt_iff_lt_mul p.binSize_pos, mul_comm, binSize_mul_count]
  exact hn

/-! ## Numbers of bins -/

/-- A number of bins is accepted for the partition that has as many. -/
theorem ofCount_eq_ok {n : Nat} : ofCount n = .ok p ↔ p.count = n := by
  rw [count_eq, ofCount, Nat.one_shiftLeft]
  simp only [divides_eq_true, if_true]
  constructor
  · intro h
    split at h
    · cases h
    split at h
    · cases h
    · next hpower =>
      split at h
      · cases h
        exact (not_not.1 hpower).symm
      · cases h
  -- The checks come one after the other: not zero, a power of two, not too many, and evenly
  -- divided.
  · rintro rfl
    have hle : 2 ^ p.bits ≤ maxCount := Nat.pow_le_pow_right (by decide) p.bits_le
    have hlog : (2 ^ p.bits).log2 = p.bits := Nat.log2_two_pow
    have hpos : 2 ^ p.bits ≠ 0 := by positivity
    rw [if_neg hpos, if_neg (not_not.2 (by rw [hlog])), dif_pos hle]
    cases p
    simp only [hlog]

/-- The numbers of bins that are accepted. -/
theorem exists_ofCount_eq_ok_iff {n : Nat} :
    (∃ p, ofCount n = .ok p) ↔ (∃ k, n = 2 ^ k) ∧ n ≤ 65536 := by
  constructor
  · rintro ⟨p, h⟩
    obtain rfl := p.ofCount_eq_ok.1 h
    rw [count_eq]
    exact ⟨⟨p.bits, rfl⟩, Nat.pow_le_pow_right (by decide) p.bits_le⟩
  · rintro ⟨⟨k, rfl⟩, hle⟩
    have hk : k ≤ 16 := (Nat.pow_le_pow_iff_right (by decide)).1 hle
    exact ⟨⟨k, hk⟩, (ofCount_eq_ok _).2 (count_eq _)⟩

/-- The bits of a partition are those of the number it was made from. -/
theorem bits_of_ofCount {p : Partition} {k : Nat} (h : ofCount (2 ^ k) = .ok p) : p.bits = k := by
  have hcount := p.ofCount_eq_ok.1 h
  rw [count_eq] at hcount
  exact Nat.pow_right_injective (Nat.le_refl 2) hcount

end BinDelegation.Partition
