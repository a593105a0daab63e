import BinDelegation.Proofs.Partition.Bins
import BinDelegation.Proofs.Partition.LeadingDigits

/-!
# The bins of paths

The hash of a path is sixty-four lower-case digits, so the arithmetic that finds the bin of a path
never fails: `exists_pathPrefix` reads the leading digits, and `exists_binForPath` names the bin
that serves them.

Reading digits off a text can fail in general: the text may be too short, hold other characters, or
be cut within one. `hexPrefixValue_eq` rules all of this out for a lower-case digest that is long
enough, and says which number comes out, as the one whose fixed-width text stands in front.

The number of a bin by arithmetic is then a quotient (`binForPrefix_eq`), and that bin exists
because the prefix is below `16 ^ width`. What follows about paths, their leading bits and the lists
of the bins only uses these two lemmas.
-/

namespace BinDelegation

/-- A lower-case digit is a digit. -/
theorem Hex.isDigit_of_isLowerDigit {c : Char} (h : isLowerDigit c = true) : IsDigit c := by
  rw [isDigit_iff]
  rw [isLowerDigit_iff] at h
  omega

/-- The leading digits of a lower-case digest denote their number. -/
theorem hexPrefixValue_eq {digest : String} {width : Nat} (hwidth : 0 < width) (hmax : width ≤ 15)
    (hlen : width ≤ digest.toList.length)
    (hdigits : ∀ c ∈ digest.toList, Hex.isLowerDigit c = true) :
    ∃ n < 16 ^ width, digest.toList.take width = Hex.fixed width n ∧
      hexPrefixValue digest width = .ok (UInt64.ofNat n) := by
  have hlength : (digest.toList.take width).length = width := by
    rw [List.length_take, Nat.min_eq_left hlen]
  obtain ⟨n, hn, hfixed⟩ := Hex.exists_fixed_eq (digest.toList.take width)
    fun c hc => hdigits c (List.mem_of_mem_take hc)
  rw [hlength] at hn hfixed
  have hall : ∀ c ∈ digest.toList, Hex.IsDigit c :=
    fun c hc => Hex.isDigit_of_isLowerDigit (hdigits c hc)
  -- Every digit is one byte, so the first bytes are those of the first digits.
  have hbytes : (utf8 digest).take width
      = (digest.toList.take width).flatMap String.utf8EncodeChar := by
    rw [utf8_eq_flatMap, Hex.flatMap_utf8EncodeChar_of_isDigit hall, ← List.map_take,
      Hex.flatMap_utf8EncodeChar_of_isDigit fun c hc => hall c (List.mem_of_mem_take hc)]
  have hdenotes : Hex.Denotes ((utf8 digest).take width) n := by
    obtain ⟨c, rest, hcons⟩ := List.exists_cons_of_length_pos (hlength.symm ▸ hwidth)
    -- A sign would be accepted, but no digit is one.
    have hc : c ≠ '+' := by
      rintro rfl
      have hplus := hdigits '+' (List.mem_of_mem_take (hcons ▸ List.mem_cons_self))
      exact absurd hplus (by decide)
    rw [hbytes, hcons, Hex.denotes_iff (List.cons_ne_nil c rest) (unsigned_of_ne_plus hc),
      ← hcons, ← hfixed, Hex.value?_fixed hn]
  have henough : width ≤ (utf8 digest).length := by rwa [Hex.length_utf8_of_isDigit hall]
  refine ⟨n, hn, hfixed.symm, hexPrefixValue_eq_ok_iff.2 ⟨hwidth, hmax, henough, ?_⟩⟩
  rwa [UInt64.toNat_ofNat_of_lt' (lt_size_of_lt_pow hmax hn)]

/-- The hash of a path has sixty-four lower-case digits. -/
theorem length_pathHash (path : String) : (pathHash path).toList.length = 64 := by
  rw [pathHash, hashHex, Hex.length_encode, HashAlgorithm.digest, Vector.length_toList]

/-- The hash of a path has lower-case digits only. -/
theorem isLowerDigit_of_mem_pathHash {path : String} {c : Char}
    (h : c ∈ (pathHash path).toList) : Hex.isLowerDigit c = true := by
  rw [pathHash, hashHex] at h
  exact Hex.isLowerDigit_of_mem_encode h

namespace Partition

variable (p : Partition)

/-- The prefix of a path is the number of the leading digits of its hash. -/
theorem exists_pathPrefix (path : String) :
    ∃ value, p.pathPrefix path = .ok value ∧ value.toNat < 16 ^ p.width ∧
      Hex.fixed p.width value.toNat = (pathHash path).toList.take p.width := by
  have hwidth := p.width_le
  have hprefixes := p.prefixes_le
  have hdigits : ∀ c ∈ (pathHash path).toList, Hex.isLowerDigit c = true :=
    fun c hc => isLowerDigit_of_mem_pathHash hc
  obtain ⟨n, hn, htake, hvalue⟩ := hexPrefixValue_eq p.width_pos (by omega)
    (by rw [length_pathHash]; omega) hdigits
  have hnat : (UInt64.ofNat n).toNat = n := UInt64.toNat_ofNat_of_lt' (by rw [UInt64.size]; omega)
  exact ⟨_, hvalue, by rwa [hnat], by rw [hnat, htake]⟩

/-- The bin of a path by arithmetic is the generated bin that serves the prefix of the path. -/
theorem exists_binForPath (path : String) :
    ∃ value i, p.pathPrefix path = .ok value ∧ value.toNat < 16 ^ p.width ∧ i < p.count ∧
      value.toNat / p.binSize.toNat = i ∧ p.binForPath path = .ok (p.binAt i).name := by
  obtain ⟨value, hvalue, hlt, -⟩ := p.exists_pathPrefix path
  refine ⟨value, _, hvalue, hlt, p.div_binSize_lt hlt, rfl, ?_⟩
  rw [binForPath, hvalue]
  exact congrArg Except.ok (p.binForPrefix_eq hlt)

end Partition

end BinDelegation
