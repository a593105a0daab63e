import BinDelegation.Proofs.Partition.Paths
import BinDelegation.Proofs.Selection
import Mathlib.Data.Nat.Digits.Defs

/-!
# Bins and the leading bits of a hash

A partition among `2 ^ k` bins reads whole hexadecimal digits, but it is the first `k` bits of the
hash of a path that select its bin: they are the number of the bin. Both the leading digits and the
leading bits of a byte string are quotients of the one number that all its bytes denote, and so is
the number of the bin.

`bigEndian` is that number. The bits of all bytes denote it (`ofDigits_flatMap_bitsOf`), and so do
the digits of their text (`Hex.toList_encode`); cutting either off behind a place divides by a power
of two or of sixteen. `div_binSize` then compares the two divisions: dividing a prefix by the size
of a bin drops just the bits by which the digits are too many.

It follows that a partition among fewer bins merges bins and never splits one
(`binForPath_coarser`), since fewer leading bits are a quotient of more of them.
-/

namespace BinDelegation

/-! ## Byte strings as numbers -/

/-- The eight bits of a byte, most significant first. -/
def bitsOf (b : UInt8) : List Nat := (List.range 8).map fun i => b.toNat / 2 ^ (7 - i) % 2

/-- The number that the first `k` bits of a byte string denote. -/
def leadingBits (k : Nat) (bytes : List UInt8) : Nat :=
  Nat.ofDigits 2 ((bytes.flatMap bitsOf).take k).reverse

/-- The number that a byte string denotes, most significant byte first. -/
def bigEndian (bytes : List UInt8) : Nat := Nat.ofDigits 256 (bytes.map (·.toNat)).reverse

/-- Another byte at the end counts as it is, and those before it count more. -/
theorem bigEndian_concat (bytes : List UInt8) (b : UInt8) :
    bigEndian (bytes ++ [b]) = b.toNat + 256 * bigEndian bytes := by
  rw [bigEndian, List.map_append, List.reverse_append]
  exact Nat.ofDigits_cons

/-- Bytes denote less than the next place counts. -/
theorem bigEndian_lt (bytes : List UInt8) : bigEndian bytes < 256 ^ bytes.length := by
  have hbytes : ∀ n ∈ (bytes.map (·.toNat)).reverse, n < 256 := by
    intro n hn
    obtain ⟨b, -, rfl⟩ := List.mem_map.1 (List.mem_reverse.1 hn)
    exact b.toNat_lt
  have hlt := Nat.ofDigits_lt_base_pow_length (by decide) hbytes
  rwa [List.length_reverse, List.length_map] at hlt

/-- The bits of a byte denote the byte. -/
theorem ofDigits_bitsOf (b : UInt8) : Nat.ofDigits 2 (bitsOf b).reverse = b.toNat := by
  have hbits : (bitsOf b).reverse = (List.range 8).map fun i => b.toNat / 2 ^ i % 2 := rfl
  have hlt := b.toNat_lt
  rw [hbits]
  simp only [List.range_succ, List.range_zero, List.nil_append, List.map_cons, List.map_nil,
    List.cons_append, Nat.ofDigits_cons, Nat.ofDigits_nil]
  omega

/-- The bits of all bytes denote the same number as the bytes. -/
theorem ofDigits_flatMap_bitsOf (bytes : List UInt8) :
    Nat.ofDigits 2 (bytes.flatMap bitsOf).reverse = bigEndian bytes := by
  induction bytes using List.reverseRecOn with
  | nil => rfl
  | append_singleton bytes b ih =>
    have hlength : (bitsOf b).reverse.length = 8 := rfl
    rw [bigEndian_concat, List.flatMap_append, List.flatMap_singleton, List.reverse_append,
      Nat.ofDigits_append, ofDigits_bitsOf, ih, hlength]
    norm_num

theorem length_flatMap_bitsOf (bytes : List UInt8) :
    (bytes.flatMap bitsOf).length = 8 * bytes.length := by
  simp [List.length_flatMap, bitsOf, mul_comm]

/-- Leading bits are a quotient of the whole number. -/
theorem leadingBits_eq {k : Nat} {bytes : List UInt8} (hk : k ≤ 8 * bytes.length) :
    leadingBits k bytes = bigEndian bytes / 2 ^ (8 * bytes.length - k) := by
  have hbits : ∀ n ∈ (bytes.flatMap bitsOf).reverse, n < 2 := by
    intro n hn
    obtain ⟨b, -, hmem⟩ := List.mem_flatMap.1 (List.mem_reverse.1 hn)
    obtain ⟨i, -, rfl⟩ := List.mem_map.1 hmem
    exact Nat.mod_lt _ (by decide)
  have hdrop : ((bytes.flatMap bitsOf).take k).reverse
      = (bytes.flatMap bitsOf).reverse.drop (8 * bytes.length - k) := by
    rw [List.drop_reverse, length_flatMap_bitsOf, Nat.sub_sub_self hk]
  rw [leadingBits, hdrop, ← Nat.ofDigits_div_pow_eq_ofDigits_drop _ (by decide) _ hbits,
    ofDigits_flatMap_bitsOf]

/-- Fewer leading bits are a quotient of more of them. -/
theorem leadingBits_div {j k : Nat} {bytes : List UInt8} (hjk : j ≤ k)
    (hk : k ≤ 8 * bytes.length) :
    leadingBits k bytes / 2 ^ (k - j) = leadingBits j bytes := by
  rw [leadingBits_eq hk, leadingBits_eq (hjk.trans hk), Nat.div_div_eq_div_mul, ← pow_add]
  congr 2
  omega

namespace Hex

/-- The digits of a byte string are those of the number that it denotes. -/
theorem toList_encode (bytes : List UInt8) :
    (encode bytes).toList = fixed (2 * bytes.length) (bigEndian bytes) := by
  rw [encode, String.toList_ofList]
  induction bytes using List.reverseRecOn with
  | nil => rfl
  | append_singleton bytes b ih =>
    have hlt := b.toNat_lt
    have hlow : (b.toNat + 256 * bigEndian bytes) % 16 = b.toNat % 16 := by omega
    have hhigh : (b.toNat + 256 * bigEndian bytes) / 16 % 16 = b.toNat / 16 % 16 := by omega
    have hrest : (b.toNat + 256 * bigEndian bytes) / 16 / 16 = bigEndian bytes := by omega
    have hbyte : fixed 2 b.toNat = [digit (b.toNat / 16 % 16)] ++ [digit (b.toNat % 16)] := rfl
    have hlength : 2 * (bytes ++ [b]).length = 2 * bytes.length + 1 + 1 := by simp [mul_add]
    rw [List.flatMap_append, List.flatMap_singleton, ih, bigEndian_concat, hbyte, hlength, fixed,
      fixed, hrest, hhigh, hlow, List.append_assoc]

end Hex

/-! ## Paths -/

/-- The SHA-256 digest of the UTF-8 bytes of a path. -/
def pathDigest (path : String) : List UInt8 := HashAlgorithm.sha256.digest path.toUTF8

theorem length_pathDigest (path : String) : (pathDigest path).length = 32 := by
  rw [pathDigest, HashAlgorithm.digest, Vector.length_toList]

/-- The number of a digest has 64 digits. -/
theorem bigEndian_pathDigest_lt (path : String) : bigEndian (pathDigest path) < 16 ^ 64 := by
  calc bigEndian (pathDigest path) < 256 ^ (pathDigest path).length := bigEndian_lt _
    _ = 16 ^ 64 := by rw [length_pathDigest]; norm_num

/-- The text of a hash is that of its number. -/
theorem toList_pathHash (path : String) :
    (pathHash path).toList = Hex.fixed 64 (bigEndian (pathDigest path)) := by
  rw [pathHash, hashHex, ← pathDigest, Hex.toList_encode, length_pathDigest]

/-- The leading bits of a digest are a quotient of its number. -/
theorem leadingBits_pathDigest {k : Nat} (hk : k ≤ 256) (path : String) :
    leadingBits k (pathDigest path) = bigEndian (pathDigest path) / 2 ^ (256 - k) := by
  have hlength := length_pathDigest path
  rw [leadingBits_eq (by omega), hlength]

namespace Partition

variable (p : Partition)

/-- The prefix of a path is a quotient of its digest. -/
theorem toNat_pathPrefix {path : String} {value : UInt64} (h : p.pathPrefix path = .ok value) :
    value.toNat = bigEndian (pathDigest path) / 16 ^ (64 - p.width) := by
  have hwidth : p.width + (64 - p.width) = 64 := by
    have := p.width_le
    omega
  obtain ⟨value', hvalue, hlt, hdigits⟩ := p.exists_pathPrefix path
  cases h.symm.trans hvalue
  rw [toList_pathHash, ← hwidth, Hex.take_fixed] at hdigits
  refine Hex.fixed_inj hlt ?_ hdigits
  rw [Nat.div_lt_iff_lt_mul (by positivity), ← pow_add, hwidth]
  exact bigEndian_pathDigest_lt path

/-- A prefix has whole digits; dividing it by the size of a bin drops the bits in excess. -/
theorem div_binSize {path : String} {value : UInt64} (h : p.pathPrefix path = .ok value) :
    value.toNat / p.binSize.toNat = leadingBits p.bits (pathDigest path) := by
  have hwidth := p.width_le
  have hbits := p.bits_le_width
  have hsixteen : (16 : Nat) ^ (64 - p.width) = 2 ^ (4 * (64 - p.width)) := by
    rw [pow_mul]
    norm_num
  -- Two divisions by powers of two are one, by the power of the sum.
  rw [leadingBits_pathDigest (by omega), p.toNat_pathPrefix h, binSize_toNat, hsixteen,
    Nat.div_div_eq_div_mul, ← pow_add]
  congr 2
  omega

/-- The bin of a path is the one that the leading bits of its digest number. -/
theorem binForPath_eq (path : String) : leadingBits p.bits (pathDigest path) < p.count ∧
    p.binForPath path = .ok (p.binAt (leadingBits p.bits (pathDigest path))).name := by
  obtain ⟨value, i, hvalue, -, hi, hdiv, hbin⟩ := p.exists_binForPath path
  rw [← p.div_binSize hvalue, hdiv]
  exact ⟨hi, hbin⟩

/-- Paths share a bin exactly if their digests have the same leading bits. -/
theorem binForPath_eq_iff {path path' : String} : p.binForPath path = p.binForPath path' ↔
    leadingBits p.bits (pathDigest path) = leadingBits p.bits (pathDigest path') := by
  obtain ⟨hi, hbin⟩ := p.binForPath_eq path
  obtain ⟨hi', hbin'⟩ := p.binForPath_eq path'
  rw [hbin, hbin', Except.ok.injEq]
  exact ⟨p.name_binAt_inj hi hi', fun h => by rw [h]⟩

/-- The bins of a partition among more bins are parts of those of one among fewer. -/
theorem binForPath_coarser {p q : Partition} (hbits : q.bits ≤ p.bits) {path path' : String}
    (h : p.binForPath path = p.binForPath path') : q.binForPath path = q.binForPath path' := by
  have hle := p.bits_le
  have hdiv (path : String) : leadingBits p.bits (pathDigest path) / 2 ^ (p.bits - q.bits)
      = leadingBits q.bits (pathDigest path) :=
    leadingBits_div hbits (by rw [length_pathDigest]; omega)
  rw [binForPath_eq_iff, ← hdiv, ← hdiv, p.binForPath_eq_iff.1 h]

/-- One bin serves a prefix: the one that the prefix divided by the size of a bin numbers. -/
theorem filter_contains {value : UInt64} (h : value.toNat < 16 ^ p.width) :
    p.bins.filter (·.contains value) = [p.binAt (value.toNat / p.binSize.toNat)] := by
  refine filter_eq_singleton (p.getElem?_bins (p.div_binSize_lt h)) ?_
  intro j b hb
  obtain ⟨hj, rfl⟩ := p.getElem?_bins_eq_some hb
  rw [Bin.contains, Bool.and_eq_true, decide_eq_true_eq, decide_eq_true_eq,
    UInt64.le_iff_toNat_le, UInt64.le_iff_toNat_le, p.mem_binAt_iff hj, eq_comm]

/-- One bin has its name. -/
theorem filter_name {i : Nat} (hi : i < p.count) :
    p.bins.filter (·.name == (p.binAt i).name) = [p.binAt i] := by
  refine filter_eq_singleton (p.getElem?_bins hi) ?_
  intro j b hb
  obtain ⟨hj, rfl⟩ := p.getElem?_bins_eq_some hb
  rw [beq_iff_eq]
  exact ⟨p.name_binAt_inj hj hi, fun h => h ▸ rfl⟩

/-- In a partition among `2 ^ k` bins, the number of the bin of a path is the first `k` bits of the
path's SHA-256 digest. Its range, and no other, has the prefix of the path, and it alone has its
name. So paths that share a bin share one among fewer bins as well. -/
theorem leadingBits_select_bin {k : Nat} {p : Partition} (hp : ofCount (2 ^ k) = .ok p) :
    (∀ path, ∃ b value, p.bins[leadingBits k (pathDigest path)]? = some b ∧
      p.binForPath path = .ok b.name ∧ p.pathPrefix path = .ok value ∧
      p.bins.filter (·.contains value) = [b] ∧ p.bins.filter (·.name == b.name) = [b]) ∧
    ∀ (j : Nat) (q : Partition), ofCount (2 ^ j) = .ok q → 2 ^ j ≤ 2 ^ k →
      ∀ path path', p.binForPath path = p.binForPath path' →
        q.binForPath path = q.binForPath path' := by
  have hbits : p.bits = k := bits_of_ofCount hp
  constructor
  · intro path
    obtain ⟨hi, hbin⟩ := p.binForPath_eq path
    obtain ⟨value, hvalue, hlt, -⟩ := p.exists_pathPrefix path
    have hserves := p.filter_contains hlt
    rw [p.div_binSize hvalue] at hserves
    rw [← hbits]
    exact ⟨_, value, p.getElem?_bins hi, hbin, hvalue, hserves, p.filter_name hi⟩
  · intro j q hq hle path path'
    refine binForPath_coarser ?_
    rw [bits_of_ofCount hq, hbits]
    exact (Nat.pow_le_pow_iff_right (by decide)).1 hle

/-- The digests of two paths begin with `ca97` and with `cd0a`, so both with the bits `11001`. -/
theorem leadingBits_select_bin_of_standard : ofCount (2 ^ 5) = .ok standard ∧
    (∃ b value, standard.bins[25]? = some b ∧ standard.binForPath "a" = .ok b.name ∧
      standard.pathPrefix "a" = .ok value ∧ standard.bins.filter (·.contains value) = [b]) ∧
    ∃ q, ofCount (2 ^ 3) = .ok q ∧ q.binForPath "a" = q.binForPath "g" := by
  have hcount : ofCount (2 ^ 5) = .ok standard := by decide +kernel
  have hcount' : ofCount (2 ^ 3) = .ok ⟨3, by decide⟩ := by decide +kernel
  have hnumber : leadingBits 5 (pathDigest "a") = 25 := by decide +kernel
  have hshared : standard.binForPath "a" = standard.binForPath "g" := by decide +kernel
  obtain ⟨hbins, hcoarser⟩ := leadingBits_select_bin hcount
  obtain ⟨b, value, hb, hbin, hvalue, hserves, -⟩ := hbins "a"
  rw [hnumber] at hb
  exact ⟨hcount, ⟨b, value, hb, hbin, hvalue, hserves⟩, _, hcount',
    hcoarser 3 _ hcount' (by decide) "a" "g" hshared⟩

end Partition

end BinDelegation
