import BinDelegation.Proofs.Text.ByteOrder
import BinDelegation.Text.Hex
import Mathlib.Data.List.Induction
import Mathlib.Tactic.IntervalCases
import Mathlib.Tactic.Ring

/-!
# Digits of a fixed width

Numbers below `16 ^ width` and texts of `width` lower-case digits are the same thing: `value?` reads
back what `fixed` writes, and every such text is written by `fixed`.

`fixed` splits off the last digit of a number and goes on with the quotient, as many times as the
width says. So inductions are on the width, with the quotient by sixteen in place of the number; the
bound `n < 16 ^ width` goes over to the quotient. From reading back come injectivity (`fixed_inj`)
and the order (`fixed_lt_fixed`), and cutting digits off the end is dividing by a power of sixteen
(`take_fixed`).

Where a number may be too large for its width, `padded` writes as many digits as it needs. Both
agree on numbers that fit (`padded_eq`), and reading back works for all of them (`value?_padded`).
-/

namespace BinDelegation.Hex

/-- Every digit that writing produces is read back. -/
theorem digitValue?_digit : ∀ n < 16, digitValue? (digit n) = some n := by decide

theorem isLowerDigit_digit : ∀ n < 16, isLowerDigit (digit n) = true := by decide

theorem isLowerDigit_iff (c : Char) :
    isLowerDigit c = true ↔ (48 ≤ c.toNat ∧ c.toNat ≤ 57) ∨ (97 ≤ c.toNat ∧ c.toNat ≤ 102) := by
  simp only [isLowerDigit, Bool.or_eq_true, Bool.and_eq_true, decide_eq_true_eq]
  exact Iff.rfl

/-- Every lower-case digit is one that writing produces. -/
theorem exists_digit_of_isLowerDigit {c : Char} (h : isLowerDigit c = true) :
    ∃ n < 16, digit n = c := by
  have hc : Char.ofNat c.toNat = c := Char.ofNat_toNat c
  rcases (isLowerDigit_iff c).1 h with ⟨hlow, hhigh⟩ | ⟨hlow, hhigh⟩
  · refine ⟨c.toNat - 48, by omega, ?_⟩
    rw [← hc]
    interval_cases c.toNat <;> rfl
  · refine ⟨c.toNat - 87, by omega, ?_⟩
    rw [← hc]
    interval_cases c.toNat <;> rfl

/-- A digit behind others: their number counts sixteen times. -/
theorem value?_concat (digits : List Char) (c : Char) :
    value? (digits ++ [c]) = (value? digits).bind fun n => (digitValue? c).map (16 * n + ·) := by
  simp only [value?, List.foldlM_append, List.foldlM_cons, List.foldlM_nil]
  cases digits.foldlM (fun n c => (digitValue? c).map (16 * n + ·)) 0 <;> simp

/-- Digits of a sufficient width read back as the number that they were written for. -/
theorem value?_fixed {width n : Nat} (h : n < 16 ^ width) : value? (fixed width n) = some n := by
  induction width generalizing n with
  | zero =>
    have hn : n = 0 := by simpa using h
    subst hn
    rfl
  | succ width ih =>
    have hdiv : n / 16 < 16 ^ width := by
      rw [pow_succ] at h
      omega
    rw [fixed, value?_concat, ih hdiv, digitValue?_digit _ (Nat.mod_lt _ (by decide))]
    simp [Nat.div_add_mod]

/-- Numbers that fit a width are told apart by their digits. -/
theorem fixed_inj {width m n : Nat} (hm : m < 16 ^ width) (hn : n < 16 ^ width)
    (h : fixed width m = fixed width n) : m = n := by
  have hvalue := value?_fixed hm
  rw [h, value?_fixed hn] at hvalue
  exact (Option.some.inj hvalue).symm

theorem digit_lt_digit : ∀ n < 16, ∀ m < n, digit m < digit n := by decide

/-- Digits of one width are in the order of the numbers that they are written for. -/
theorem fixed_lt_fixed {width m n : Nat} (hn : n < 16 ^ width) (h : m < n) :
    fixed width m < fixed width n := by
  induction width generalizing m n with
  | zero =>
    rw [pow_zero] at hn
    omega
  | succ width ih =>
    rw [fixed, fixed]
    -- The digits but the last decide, unless they are the same.
    rcases Nat.lt_or_eq_of_le (Nat.div_le_div_right (c := 16) h.le) with hdiv | hdiv
    · have hn' : n / 16 < 16 ^ width := by
        rw [pow_succ] at hn
        omega
      exact append_lt_append _ _ (by rw [length_fixed, length_fixed]) (ih hn' hdiv)
    · rw [hdiv]
      refine List.append_left_lt (List.cons_lt_cons_iff.2 (.inl ?_))
      exact digit_lt_digit _ (Nat.mod_lt _ (by decide)) _ (by omega)

/-- The leading digits of a number are the digits of a quotient. -/
theorem take_fixed (width rest n : Nat) :
    (fixed (width + rest) n).take width = fixed width (n / 16 ^ rest) := by
  induction rest generalizing n with
  | zero =>
    rw [Nat.add_zero, pow_zero, Nat.div_one, List.take_of_length_le (length_fixed _ _).le]
  | succ rest ih =>
    have hshort : width ≤ (fixed (width + rest) (n / 16)).length := by
      rw [length_fixed]
      exact Nat.le_add_right _ _
    rw [← Nat.add_assoc, fixed, List.take_append_of_le_length hshort, ih,
      Nat.div_div_eq_div_mul, ← pow_succ']

/-- A number is written with lower-case digits. -/
theorem isLowerDigit_of_mem_fixed {width n : Nat} {c : Char} (h : c ∈ fixed width n) :
    isLowerDigit c = true := by
  induction width generalizing n with
  | zero => simp [fixed] at h
  | succ width ih =>
    rcases List.mem_append.1 h with h | h
    · exact ih h
    · rw [List.mem_singleton.1 h]
      exact isLowerDigit_digit _ (Nat.mod_lt _ (by decide))

/-- Every text of lower-case digits is written for a number that fits its width. -/
theorem exists_fixed_eq (digits : List Char) (h : ∀ c ∈ digits, isLowerDigit c = true) :
    ∃ n < 16 ^ digits.length, fixed digits.length n = digits := by
  induction digits using List.reverseRecOn with
  | nil => exact ⟨0, by simp, rfl⟩
  | append_singleton rest c ih =>
    obtain ⟨n, hn, hfixed⟩ := ih fun c hc => h c (List.mem_append_left _ hc)
    obtain ⟨d, hd, hdigit⟩ := exists_digit_of_isLowerDigit (h c (by simp))
    refine ⟨16 * n + d, ?_, ?_⟩
    · rw [List.length_append, List.length_singleton, pow_succ]
      omega
    · have hdiv : (16 * n + d) / 16 = n := by omega
      have hmod : (16 * n + d) % 16 = d := by omega
      rw [List.length_append, List.length_singleton, fixed, hdiv, hmod, hfixed, hdigit]

/-- A number that fits a width needs no more digits than that. -/
theorem digitCount_le {width n : Nat} (hwidth : 0 < width) (h : n < 16 ^ width) :
    digitCount n ≤ width := by
  rw [digitCount]
  by_cases hn : n = 0
  · subst hn
    simp only [Nat.log2_zero]
    omega
  · have hpow : n < 2 ^ (4 * width) := by rwa [pow_mul]
    have hlog : n.log2 < 4 * width := (Nat.log2_lt hn).2 hpow
    omega

/-- Padding a number that fits the width gives just its digits. -/
theorem padded_eq {width n : Nat} (hwidth : 0 < width) (h : n < 16 ^ width) :
    padded width n = String.ofList (fixed width n) := by
  rw [padded, Nat.max_eq_left (digitCount_le hwidth h)]

/-- A number has no more digits than it needs. -/
theorem lt_pow_digitCount (n : Nat) : n < 16 ^ digitCount n := by
  have hlog : n.log2 + 1 ≤ 4 * digitCount n := by
    rw [digitCount]
    omega
  calc n < 2 ^ (n.log2 + 1) := Nat.lt_log2_self
    _ ≤ 2 ^ (4 * digitCount n) := Nat.pow_le_pow_right (by decide) hlog
    _ = 16 ^ digitCount n := Nat.pow_mul 2 4 (digitCount n)

/-- Every number is read back, whether the width is enough for it or not. -/
theorem value?_padded (width n : Nat) : value? (padded width n).toList = some n := by
  rw [padded, String.toList_ofList]
  refine value?_fixed (Nat.lt_of_lt_of_le (lt_pow_digitCount n) ?_)
  exact Nat.pow_le_pow_right (by decide) (Nat.le_max_right width _)

/-! ## Bytes -/

/-- A byte is written with two digits. -/
theorem length_encode (bytes : List UInt8) : (encode bytes).toList.length = 2 * bytes.length := by
  rw [encode, String.toList_ofList, List.length_flatMap]
  simp [Nat.mul_comm]

/-- Bytes are written with lower-case digits. -/
theorem isLowerDigit_of_mem_encode {bytes : List UInt8} {c : Char}
    (h : c ∈ (encode bytes).toList) : isLowerDigit c = true := by
  rw [encode, String.toList_ofList, List.mem_flatMap] at h
  obtain ⟨b, -, hc⟩ := h
  exact isLowerDigit_of_mem_fixed hc

end BinDelegation.Hex
