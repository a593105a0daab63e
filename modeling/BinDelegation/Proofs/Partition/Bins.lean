import BinDelegation.Bin
import BinDelegation.Proofs.Partition.Sizes
import BinDelegation.Proofs.Text.Hex

/-!
# The bins of a partition

Bin number `i` serves the `binSize` prefixes from `i * binSize` on. Its name and its list of prefix
texts tell just as much: a prefix text stands in the list of one bin only, the one whose number is
the prefix divided by `binSize`, and different bins have different names.

The program computes with 64-bit numbers that wrap around. `low_binAt` and `high_binAt` turn the
ends of a bin into natural numbers; that nothing wraps there follows from the bounds in `Sizes`. All
that comes after is arithmetic on natural numbers, with `n / binSize = i` as the one form of "prefix
`n` belongs to bin `i`".

Only `toNat_sub_mod` and `toNat_add_binSize` are about numbers that need not be prefixes. A name is
computed for such numbers as well, and its range may end where the numbers do.
-/

namespace BinDelegation.Partition

variable (p : Partition)

/-- Bin number `i`. -/
def binAt (i : Nat) : Bin := Bin.startingAt p (UInt64.ofNat i * p.binSize)

/-- The text of a prefix, as digits of the width of the partition. -/
def digits (n : Nat) : String := String.ofList (Hex.fixed p.width n)

theorem bins_eq : p.bins = (List.range p.count).map p.binAt := rfl

@[simp] theorem length_bins : p.bins.length = p.count := by
  rw [bins_eq, List.length_map, List.length_range]

theorem getElem?_bins {i : Nat} (hi : i < p.count) : p.bins[i]? = some (p.binAt i) := by
  rw [bins_eq, List.getElem?_map, List.getElem?_range hi]
  rfl

/-- Nothing else stands among the bins. -/
theorem getElem?_bins_eq_some {i : Nat} {b : Bin} (h : p.bins[i]? = some b) :
    i < p.count ∧ b = p.binAt i := by
  have hi : i < p.count := by
    obtain ⟨hi, -⟩ := List.getElem?_eq_some_iff.1 h
    rwa [length_bins] at hi
  rw [p.getElem?_bins hi] at h
  exact ⟨hi, (Option.some.inj h).symm⟩

/-- A prefix that has its place in the partition is written by digits of the width alone. -/
theorem prefixText_eq {value : UInt64} (h : value.toNat < 16 ^ p.width) :
    p.prefixText value = p.digits value.toNat :=
  Hex.padded_eq p.width_pos h

theorem toList_digits (n : Nat) : (p.digits n).toList = Hex.fixed p.width n := by
  rw [digits, String.toList_ofList]

/-- Prefixes are told apart by their texts. -/
theorem digits_inj {m n : Nat} (hm : m < 16 ^ p.width) (hn : n < 16 ^ p.width)
    (h : p.digits m = p.digits n) : m = n := by
  refine Hex.fixed_inj hm hn ?_
  rw [← toList_digits, ← toList_digits, h]

/-- The texts of prefixes are the lower-case digits that have the width of the partition. -/
theorem exists_digits_iff {s : String} : (∃ n < 16 ^ p.width, s = p.digits n) ↔
    s.toList.length = p.width ∧ ∀ c ∈ s.toList, Hex.isLowerDigit c = true := by
  constructor
  · rintro ⟨n, -, rfl⟩
    rw [toList_digits]
    exact ⟨Hex.length_fixed _ _, fun c hc => Hex.isLowerDigit_of_mem_fixed hc⟩
  · rintro ⟨hlength, hlower⟩
    obtain ⟨n, hn, hfixed⟩ := Hex.exists_fixed_eq s.toList hlower
    rw [hlength] at hn hfixed
    exact ⟨n, hn, by rw [digits, hfixed, String.ofList_toList]⟩

/-! ## Where bins begin and end -/

/-- A bin begins behind those before it. -/
theorem low_binAt {i : Nat} (hi : i < p.count) :
    (p.binAt i).low.toNat = i * p.binSize.toNat := by
  have hend := p.bin_le_prefixes hi
  have hprefixes := p.prefixes_le
  have hpos := p.binSize_pos
  -- There are no more bins than prefixes, so neither factor nor product passes 64 bits.
  have hcount : p.count ≤ 65536 := by
    have hmul := p.binSize_mul_count
    have := Nat.le_mul_of_pos_left p.count hpos
    omega
  show (UInt64.ofNat i * p.binSize).toNat = _
  rw [UInt64.toNat_mul, UInt64.toNat_ofNat_of_lt' (by rw [UInt64.size]; omega)]
  exact Nat.mod_eq_of_lt (by omega)

/-- The bin of a number begins at a multiple of the size of bins. -/
theorem toNat_sub_mod (value : UInt64) :
    (value - value % p.binSize).toNat = p.binSize.toNat * (value.toNat / p.binSize.toNat) := by
  have hmod : value % p.binSize ≤ value := by
    rw [UInt64.le_iff_toNat_le, UInt64.toNat_mod]
    exact Nat.mod_le _ _
  have hsplit := Nat.div_add_mod value.toNat p.binSize.toNat
  rw [UInt64.toNat_sub_of_le _ _ hmod, UInt64.toNat_mod]
  omega

/-- The last number of a bin that begins at a number with room behind it, up to the end of the
numbers. -/
theorem toNat_add_binSize {low : UInt64} (h : low.toNat + p.binSize.toNat ≤ UInt64.size) :
    (low + p.binSize - 1).toNat = low.toNat + p.binSize.toNat - 1 := by
  have hpos := p.binSize_pos
  rw [UInt64.size] at h
  -- At the very end the sum is zero, and one less is the last number.
  rw [UInt64.toNat_sub, UInt64.toNat_add, UInt64.toNat_one]
  omega

/-- A bin ends before the next one begins. -/
theorem high_binAt {i : Nat} (hi : i < p.count) :
    (p.binAt i).high.toNat = i * p.binSize.toNat + p.binSize.toNat - 1 := by
  have hlow := p.low_binAt hi
  have hend := p.bin_le_prefixes hi
  have hprefixes := p.prefixes_le
  show ((p.binAt i).low + p.binSize - 1).toNat = _
  rw [p.toNat_add_binSize (by rw [UInt64.size]; omega), hlow]

/-- A bin serves the prefixes that its number times the size of a bin leads to. -/
theorem mem_binAt_iff {i n : Nat} (hi : i < p.count) :
    (p.binAt i).low.toNat ≤ n ∧ n ≤ (p.binAt i).high.toNat ↔ n / p.binSize.toNat = i := by
  have hpos := p.binSize_pos
  -- A quotient is determined by the multiples on both sides of the number.
  rw [low_binAt p hi, high_binAt p hi, Nat.div_eq_iff hpos]

/-- The bins stand in ascending order. -/
theorem ascending_lows : (p.bins.map (·.low)).Pairwise (· < ·) := by
  rw [bins_eq, List.map_map, List.pairwise_map]
  refine List.pairwise_lt_range.imp_of_mem ?_
  intro i j hi hj hij
  rw [Function.comp_apply, Function.comp_apply, UInt64.lt_iff_toNat_lt,
    p.low_binAt (List.mem_range.1 hi), p.low_binAt (List.mem_range.1 hj)]
  exact Nat.mul_lt_mul_of_pos_right hij p.binSize_pos

/-! ## Prefix texts -/

/-- The list of a bin holds the texts of its prefixes in their order. -/
theorem hashPrefixes_binAt {i : Nat} (hi : i < p.count) :
    (p.binAt i).hashPrefixes
      = (List.range p.binSize.toNat).map fun j => p.digits (i * p.binSize.toNat + j) := by
  have hlow := p.low_binAt hi
  have hend := p.bin_le_prefixes hi
  have hprefixes := p.prefixes_le
  show (List.range p.binSize.toNat).map (fun j => p.prefixText ((p.binAt i).low + UInt64.ofNat j))
    = _
  apply List.map_congr_left
  intro j hj
  have hj' : j < p.binSize.toNat := List.mem_range.1 hj
  have hadd : ((p.binAt i).low + UInt64.ofNat j).toNat = i * p.binSize.toNat + j := by
    rw [UInt64.toNat_add, UInt64.toNat_ofNat_of_lt' (by rw [UInt64.size]; omega), hlow]
    exact Nat.mod_eq_of_lt (by omega)
  rw [p.prefixText_eq (by omega), hadd]

/-- The text of a prefix stands in the list of the bin that serves it, and in no other. -/
theorem digits_mem_hashPrefixes {i n : Nat} (hi : i < p.count) (hn : n < 16 ^ p.width) :
    p.digits n ∈ (p.binAt i).hashPrefixes ↔ n / p.binSize.toNat = i := by
  have hend := p.bin_le_prefixes hi
  have hpos := p.binSize_pos
  rw [hashPrefixes_binAt p hi, List.mem_map, Nat.div_eq_iff hpos]
  constructor
  · rintro ⟨j, hj, htext⟩
    have hj' : j < p.binSize.toNat := List.mem_range.1 hj
    have heq := p.digits_inj (by omega) hn htext
    omega
  · intro hrange
    refine ⟨n - i * p.binSize.toNat, List.mem_range.2 (by omega), ?_⟩
    rw [Nat.add_sub_cancel' (by omega)]

/-- Every text in the list of a bin is the text of a prefix. -/
theorem exists_of_mem_hashPrefixes {i : Nat} (hi : i < p.count) {s : String}
    (h : s ∈ (p.binAt i).hashPrefixes) : ∃ n < 16 ^ p.width, s = p.digits n := by
  have hend := p.bin_le_prefixes hi
  rw [hashPrefixes_binAt p hi, List.mem_map] at h
  obtain ⟨j, hj, rfl⟩ := h
  have hj' : j < p.binSize.toNat := List.mem_range.1 hj
  exact ⟨_, by omega, rfl⟩

/-- The lists of the bins, one behind the other, are the texts of all prefixes in their order. -/
theorem flatMap_hashPrefixes :
    p.bins.flatMap (·.hashPrefixes) = (List.range (16 ^ p.width)).map p.digits := by
  have hlists (n : Nat) (hn : n ≤ p.count) :
      ((List.range n).map p.binAt).flatMap (·.hashPrefixes)
        = (List.range (n * p.binSize.toNat)).map p.digits := by
    induction n with
    | zero => rw [Nat.zero_mul]; rfl
    | succ n ih =>
      rw [List.range_succ, List.map_append, List.flatMap_append, ih (Nat.le_of_succ_le hn),
        Nat.succ_mul, List.range_add, List.map_append, List.map_map, List.map_singleton,
        List.flatMap_singleton, p.hashPrefixes_binAt hn]
      rfl
  rw [bins_eq, hlists p.count (Nat.le_refl _), Nat.mul_comm, p.binSize_mul_count]

/-- The lists of the bins, one behind the other, ascend strictly. -/
theorem ascending_hashPrefixes : (p.bins.flatMap (·.hashPrefixes)).Pairwise (· < ·) := by
  rw [flatMap_hashPrefixes, List.pairwise_map]
  refine List.pairwise_lt_range.imp_of_mem fun _ hn hlt => ?_
  rw [String.lt_iff, toList_digits, toList_digits]
  exact Hex.fixed_lt_fixed (List.mem_range.1 hn) hlt

/-- The lists of the bins hold every text of lower-case digits of the width, and no other. -/
theorem mem_flatMap_hashPrefixes {s : String} : s ∈ p.bins.flatMap (·.hashPrefixes) ↔
    s.toList.length = p.width ∧ ∀ c ∈ s.toList, Hex.isLowerDigit c = true := by
  rw [flatMap_hashPrefixes, List.mem_map, ← exists_digits_iff]
  simp only [List.mem_range, eq_comm]

/-! ## Names -/

/-- A name begins with the digits of the first prefix, up to a dash if there is one. -/
theorem takeWhile_binName {low : UInt64} (high : UInt64) (h : low.toNat < 16 ^ p.width) :
    (p.binName low high).toList.takeWhile (· ≠ '-') = Hex.fixed p.width low.toNat := by
  -- A dash is no digit, so the digits are taken whole, whether a dash follows or not.
  have hdigit : ∀ c ∈ Hex.fixed p.width low.toNat, decide (c ≠ '-') = true := by
    intro c hc
    have hlower := Hex.isLowerDigit_of_mem_fixed hc
    apply decide_eq_true
    intro heq
    subst heq
    exact absurd hlower (by decide)
  have htext : (p.prefixText low).toList = Hex.fixed p.width low.toNat := by
    rw [prefixText_eq p h, toList_digits]
  rw [binName]
  split
  · rw [htext, ← List.append_nil (Hex.fixed _ _), List.takeWhile_append_of_pos hdigit]
    rfl
  · rw [String.toList_append, String.toList_append, htext, List.append_assoc,
      List.takeWhile_append_of_pos hdigit]
    simp

/-- The prefixes before a bin number leave room for the bin. -/
theorem low_lt_prefixes {i : Nat} (hi : i < p.count) :
    (p.binAt i).low.toNat < 16 ^ p.width := by
  have hend := p.bin_le_prefixes hi
  have hpos := p.binSize_pos
  rw [low_binAt p hi]
  omega

/-- Different bins have different names. -/
theorem name_binAt_inj {i j : Nat} (hi : i < p.count) (hj : j < p.count)
    (h : (p.binAt i).name = (p.binAt j).name) : i = j := by
  have hlow :
      Hex.fixed p.width (p.binAt i).low.toNat = Hex.fixed p.width (p.binAt j).low.toNat := by
    rw [← p.takeWhile_binName (p.binAt i).high (p.low_lt_prefixes hi),
      ← p.takeWhile_binName (p.binAt j).high (p.low_lt_prefixes hj)]
    exact congrArg (fun name => name.toList.takeWhile (· ≠ '-')) h
  have heq := Hex.fixed_inj (p.low_lt_prefixes hi) (p.low_lt_prefixes hj) hlow
  rw [low_binAt p hi, low_binAt p hj] at heq
  exact Nat.eq_of_mul_eq_mul_right p.binSize_pos heq

/-- The name that a prefix leads to by arithmetic is the name of the bin that serves it. -/
theorem binForPrefix_eq {value : UInt64} (h : value.toNat < 16 ^ p.width) :
    p.binForPrefix value = (p.binAt (value.toNat / p.binSize.toNat)).name := by
  have hi := p.div_binSize_lt h
  have hlow : value - value % p.binSize = (p.binAt (value.toNat / p.binSize.toNat)).low := by
    refine UInt64.toNat_inj.1 ?_
    rw [toNat_sub_mod, low_binAt p hi, Nat.mul_comm]
  show p.binName (value - value % p.binSize) (value - value % p.binSize + p.binSize - 1) = _
  rw [hlow]
  rfl

end BinDelegation.Partition
