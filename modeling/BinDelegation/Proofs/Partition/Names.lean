import BinDelegation.Proofs.Partition.Bins
import BinDelegation.RoleName
import Mathlib.Data.List.Nodup

/-!
# The names of bins

A name is recognized by its first digits alone: they lead to the bin that would have it, and the
name is written anew and compared. So the recognizer accepts the names of the bins and no other
text, without a look at the bins. Every name of a bin can be used as a role name.

Soundness is by the comparison: whatever is accepted equals the name of the bin that its number
leads to, and the number was checked to be a prefix (`isBinName_iff`). Completeness needs the other
direction, that the digits in front of a name are read as the first prefix of the bin
(`lowOfName?_name`), whatever stands behind them.

Names are at most two prefixes and a dash long (`length_name_le`) and made of lower-case digits and
that dash, so they pass the check of role names and fit into a file name.
-/

namespace BinDelegation

/-! ## Role names -/

namespace RoleName

/-- A role name is a text of allowed characters that is not empty and does not begin with a
point. -/
theorem isValid_iff {role : String} : isValid role = true ↔
    role.toList ≠ [] ∧ role.toList.head? ≠ some '.' ∧ ∀ c ∈ role.toList, allows c = true := by
  rw [isValid]
  cases role.toList with
  | nil => simp
  | cons first rest => simp

/-- Digits are allowed in role names. -/
theorem allows_of_isLowerDigit {c : Char} (h : Hex.isLowerDigit c = true) : allows c = true := by
  rw [Hex.isLowerDigit, Bool.or_eq_true, Bool.and_eq_true, Bool.and_eq_true] at h
  rcases h with h | ⟨hlow, hhigh⟩
  · simp [allows, h]
  · have hhigh' : c ≤ 'z' := Char.le_trans (of_decide_eq_true hhigh) (by decide)
    simp [allows, of_decide_eq_true hlow, hhigh']

end RoleName

namespace Partition

variable (p : Partition)

/-- No two bins have the same name. -/
theorem nodup_names : (p.bins.map (·.name)).Nodup := by
  rw [bins_eq, List.map_map]
  refine List.Nodup.map_on ?_ List.nodup_range
  intro i hi j hj
  exact p.name_binAt_inj (List.mem_range.1 hi) (List.mem_range.1 hj)

/-- A name among those of the bins is the name of a bin by its number. -/
theorem exists_of_mem_names {name : String} (h : name ∈ p.bins.map (·.name)) :
    ∃ i < p.count, (p.binAt i).name = name := by
  rw [bins_eq, List.map_map, List.mem_map] at h
  obtain ⟨i, hi, hname⟩ := h
  exact ⟨i, List.mem_range.1 hi, hname⟩

/-! ## Recognized names -/

/-- The name of a bin leads to the first prefix of the bin. -/
theorem lowOfName?_name {i : Nat} (hi : i < p.count) :
    p.lowOfName? (p.binAt i).name = some (p.binAt i).low := by
  have hlow := p.low_lt_prefixes hi
  have hdigits : (p.binAt i).name.toList.takeWhile (· ≠ '-')
      = Hex.fixed p.width (p.binAt i).low.toNat := p.takeWhile_binName (p.binAt i).high hlow
  have hlower : (Hex.fixed p.width (p.binAt i).low.toNat).all Hex.isLowerDigit = true :=
    List.all_eq_true.2 fun c hc => Hex.isLowerDigit_of_mem_fixed hc
  simp only [lowOfName?, hdigits, Hex.length_fixed, hlower, Hex.value?_fixed hlow, and_self,
    if_true, Option.map_some, UInt64.ofNat_toNat]

/-- The names of the bins are recognized, and no other text is. -/
theorem isBinName_iff {name : String} :
    p.isBinName name = true ↔ ∃ i < p.count, (p.binAt i).name = name := by
  constructor
  · intro h
    rw [isBinName] at h
    split at h
    · next low _ =>
      rw [Bool.and_eq_true, decide_eq_true_eq, beq_iff_eq, UInt64.lt_iff_toNat_lt, toNat_space] at h
      exact ⟨_, p.div_binSize_lt h.1, (p.binForPrefix_eq h.1).symm.trans h.2⟩
    · cases h
  -- The first prefix of a bin leads back to the bin, so its name is written again.
  · rintro ⟨i, hi, rfl⟩
    have hlow := p.low_lt_prefixes hi
    have hname : p.binForPrefix (p.binAt i).low = (p.binAt i).name := by
      rw [p.binForPrefix_eq hlow, p.low_binAt hi, Nat.mul_div_cancel _ p.binSize_pos]
    rw [isBinName, p.lowOfName?_name hi]
    simp only [hname, beq_self_eq_true, Bool.and_true, decide_eq_true_eq]
    rwa [UInt64.lt_iff_toNat_lt, toNat_space]

/-- A text is recognized as the name of a bin exactly if one of the bins has it for a name. -/
theorem isBinName_iff_exists_bin {name : String} :
    p.isBinName name = true ↔ ∃ b ∈ p.bins, b.name = name := by
  rw [isBinName_iff, bins_eq]
  constructor
  · rintro ⟨i, hi, hname⟩
    exact ⟨p.binAt i, List.mem_map_of_mem (List.mem_range.2 hi), hname⟩
  · rintro ⟨b, hb, hname⟩
    obtain ⟨i, hi, rfl⟩ := List.mem_map.1 hb
    exact ⟨i, List.mem_range.1 hi, hname⟩

/-- Upper case, a range that begins within a bin, a second dash and a lone first prefix. -/
example : ["80-87", "80-8F", "81-88", "80-87-", "80"].map standard.isBinName
    = [true, false, false, false, false] := by decide +kernel

/-! ## Names as roles -/

/-- A name is as long as two prefixes and a dash at most. -/
theorem length_name_le {i : Nat} (hi : i < p.count) :
    (p.binAt i).name.toList.length ≤ 2 * p.width + 1 := by
  have hend := p.bin_le_prefixes hi
  have hpos := p.binSize_pos
  have hhigh : (p.binAt i).high.toNat < 16 ^ p.width := by
    rw [p.high_binAt hi]
    omega
  have hlength {value : UInt64} (h : value.toNat < 16 ^ p.width) :
      (p.prefixText value).toList.length = p.width := by
    rw [p.prefixText_eq h, toList_digits, Hex.length_fixed]
  show (p.binName (p.binAt i).low (p.binAt i).high).toList.length ≤ _
  rw [binName]
  split
  · rw [hlength (p.low_lt_prefixes hi)]
    omega
  · rw [String.toList_append, String.toList_append, List.length_append, List.length_append,
      hlength (p.low_lt_prefixes hi), hlength hhigh]
    have hdash : "-".toList.length = 1 := rfl
    omega

/-- The text of a prefix has lower-case digits only. -/
theorem isLowerDigit_of_mem_prefixText {value : UInt64} {c : Char}
    (h : c ∈ (p.prefixText value).toList) : Hex.isLowerDigit c = true := by
  rw [prefixText, Hex.padded, String.toList_ofList] at h
  exact Hex.isLowerDigit_of_mem_fixed h

/-- A name is written with digits and a dash. -/
theorem isLowerDigit_or_dash_of_mem_name {low high : UInt64} {c : Char}
    (h : c ∈ (p.binName low high).toList) : Hex.isLowerDigit c = true ∨ c = '-' := by
  rw [binName] at h
  split at h
  · exact .inl (p.isLowerDigit_of_mem_prefixText h)
  · rw [String.toList_append, String.toList_append, List.mem_append, List.mem_append] at h
    rcases h with (h | h) | h
    · exact .inl (p.isLowerDigit_of_mem_prefixText h)
    · exact .inr (List.mem_singleton.1 h)
    · exact .inl (p.isLowerDigit_of_mem_prefixText h)

/-- Every name of a bin can be used as a role name. -/
theorem isValid_name {i : Nat} (hi : i < p.count) : RoleName.isValid (p.binAt i).name = true := by
  have hchars (c : Char) (hc : c ∈ (p.binAt i).name.toList) :
      Hex.isLowerDigit c = true ∨ c = '-' := p.isLowerDigit_or_dash_of_mem_name hc
  rw [RoleName.isValid_iff]
  refine ⟨fun hnil => ?_, fun hhead => ?_, fun c hc => ?_⟩
  · -- A name begins with the digits of its first prefix, of which there is at least one.
    have hdigits : (p.binAt i).name.toList.takeWhile (· ≠ '-')
        = Hex.fixed p.width (p.binAt i).low.toNat := p.takeWhile_binName _ (p.low_lt_prefixes hi)
    have hwidth := p.width_pos
    rw [hnil, List.takeWhile_nil] at hdigits
    rw [← Hex.length_fixed p.width (p.binAt i).low.toNat, ← hdigits] at hwidth
    exact absurd hwidth (Nat.lt_irrefl 0)
  · exact absurd (hchars '.' (List.mem_of_mem_head? hhead)) (by decide)
  · rcases hchars c hc with hdigit | rfl
    · exact RoleName.allows_of_isLowerDigit hdigit
    · decide

end Partition

end BinDelegation
