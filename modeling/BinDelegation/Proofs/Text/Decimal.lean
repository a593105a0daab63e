import BinDelegation.Number.Numeral
import BinDelegation.Proofs.Text.ByteOrder
import Mathlib.Data.List.Basic
import Mathlib.Data.Nat.Digits.Defs
import Mathlib.Tactic.IntervalCases

/-!
# Decimal texts

A number is told by its decimal digits, and an integer by its text. Digits are not self-delimiting:
they end where the first other character stands. Numbers of one width are in the order of their
digits, and a run of digits is how its number is written unless a zero stands in front.

Digits are written by `ofNat` as few as possible, and by `padded` with zeros in front up to a width.
They are read by `value`, which takes any digits, and `number?`, which refuses other characters.
`value_cons` gives a digit its place value; the order of digits of one width follows from it by
induction, because what stands behind a digit never makes up for one (`value_lt_pow`).

`IsNumeral` is the specification that reading is compared with: at least one digit, and the number
that they denote. It allows zeros in front, and `IsNumeral.ofNat_eq_iff` says that these are the
only difference between a numeral and the digits that are written for its number.
-/

namespace BinDelegation

/-- Runs of characters of one kind end at the same place if no such character follows. -/
theorem run_append_inj {kind : Char → Bool} {x y r s : List Char} (hx : ∀ c ∈ x, kind c = true)
    (hy : ∀ c ∈ y, kind c = true) (hr : ∀ c ∈ r.head?, kind c = false)
    (hs : ∀ c ∈ s.head?, kind c = false) (h : x ++ r = y ++ s) : x = y ∧ r = s := by
  induction x generalizing y with
  | nil =>
    cases y with
    | nil => exact ⟨rfl, h⟩
    | cons c y =>
      have hkind : kind c = false := hr c (by rw [List.nil_append] at h; simp [h])
      simp [hy c List.mem_cons_self] at hkind
  | cons c x ih =>
    cases y with
    | nil =>
      have hkind : kind c = false := hs c (by rw [List.nil_append] at h; simp [← h])
      simp [hx c List.mem_cons_self] at hkind
    | cons d y =>
      rw [List.cons_append, List.cons_append, List.cons.injEq] at h
      obtain ⟨rfl, h⟩ := h
      obtain ⟨rfl, hrest⟩ := ih (fun c' hc' => hx c' (List.mem_cons_of_mem _ hc'))
        (fun c' hc' => hy c' (List.mem_cons_of_mem _ hc')) h
      exact ⟨rfl, hrest⟩

namespace Digits

/-- A number is written with digits. -/
theorem isDigit_of_mem_ofNat {n : Nat} {c : Char} (h : c ∈ ofNat n) : isDigit c = true := by
  obtain ⟨hlow, hhigh⟩ :=
    Char.isDigit_iff_toNat.1 (Nat.isDigit_of_mem_toDigits (by decide) (by decide) h)
  rw [isDigit, Bool.and_eq_true, decide_eq_true_eq, decide_eq_true_eq]
  exact ⟨UInt32.le_iff_toNat_le.2 hlow, UInt32.le_iff_toNat_le.2 hhigh⟩

/-- A number is the one that its digits denote. -/
theorem ofNat_inj {m n : Nat} (h : ofNat m = ofNat n) : m = n := by
  rw [← Nat.ofDigitChars_ten_toDigits (n := m), ← Nat.ofDigitChars_ten_toDigits (n := n)]
  exact congrArg (fun digits => Nat.ofDigitChars 10 digits 0) h

/-- A number is written with at least one digit. -/
theorem exists_cons_ofNat (n : Nat) : ∃ c rest, ofNat n = c :: rest ∧ isDigit c = true := by
  cases h : ofNat n with
  | nil => exact absurd h Nat.toDigits_ne_nil
  | cons c rest => exact ⟨c, rest, rfl, isDigit_of_mem_ofNat (h ▸ List.mem_cons_self)⟩

/-- The digits of a number denote it. -/
theorem value_ofNat (n : Nat) : value (ofNat n) = n := Nat.ofDigitChars_ten_toDigits

/-- Only zero begins with a zero. -/
theorem exists_cons_ofNat_of_pos {n : Nat} (h : 0 < n) :
    ∃ c rest, ofNat n = c :: rest ∧ c ≠ '0' := by
  induction n using Nat.strongRecOn with
  | ind n ih =>
    rw [ofNat, Nat.toDigits_eq_if (by decide)]
    split
    · next hn =>
      refine ⟨_, _, rfl, ?_⟩
      interval_cases n <;> decide
    · next hn =>
      obtain ⟨c, rest, hdigits, hc⟩ := ih (n / 10) (by omega) (by omega)
      rw [ofNat] at hdigits
      exact ⟨c, rest ++ [_], by rw [hdigits, List.cons_append], hc⟩

/-! ### The value of digits -/

theorem isDigit_iff {c : Char} : isDigit c = true ↔ 48 ≤ c.toNat ∧ c.toNat ≤ 57 := by
  rw [isDigit, Bool.and_eq_true, decide_eq_true_eq, decide_eq_true_eq]
  exact Iff.rfl

theorem digitValue_lt {c : Char} (h : isDigit c = true) : digitValue c < 10 := by
  have hhigh := (isDigit_iff.1 h).2
  unfold digitValue
  omega

theorem value_eq_ofDigitChars (digits : List Char) :
    value digits = Nat.ofDigitChars 10 digits 0 := (Nat.ofDigitChars_eq_foldl).symm

/-- A digit counts for the place that it stands at. -/
theorem value_cons (c : Char) (digits : List Char) :
    value (c :: digits) = digitValue c * 10 ^ digits.length + value digits := by
  rw [value_eq_ofDigitChars, value_eq_ofDigitChars, Nat.ofDigitChars_cons,
    Nat.ofDigitChars_eq_ofDigitChars_zero, Nat.mul_zero, Nat.zero_add, Nat.mul_comm]
  rfl

/-- Digits denote less than the next place counts. -/
theorem value_lt_pow {digits : List Char} (h : ∀ c ∈ digits, isDigit c = true) :
    value digits < 10 ^ digits.length := by
  induction digits with
  | nil => exact Nat.one_pos
  | cons c digits ih =>
    obtain ⟨hc, hdigits⟩ := List.forall_mem_cons.1 h
    have hdigit : digitValue c ≤ 9 := Nat.le_of_lt_succ (digitValue_lt hc)
    have hplace := Nat.mul_le_mul_right (10 ^ digits.length) hdigit
    have hrest := ih hdigits
    rw [value_cons, List.length_cons, Nat.pow_succ]
    omega

/-- Runs of the same number of digits are in the order of the numbers that they denote. -/
theorem value_lt_value {x y : List Char} (hx : ∀ c ∈ x, isDigit c = true)
    (hy : ∀ c ∈ y, isDigit c = true) (hlength : x.length = y.length) (h : x < y) :
    value x < value y := by
  induction x generalizing y with
  | nil =>
    obtain rfl := List.eq_nil_of_length_eq_zero hlength.symm
    exact absurd h (List.lt_irrefl [])
  | cons c x ih =>
    obtain ⟨d, y, rfl⟩ := List.exists_cons_of_length_eq_add_one hlength.symm
    rw [List.length_cons, List.length_cons, Nat.add_right_cancel_iff] at hlength
    rw [List.forall_mem_cons] at hx hy
    rw [value_cons, value_cons, hlength]
    rcases List.cons_lt_cons_iff.1 h with hlt | ⟨rfl, hlt⟩
    · -- The first digit is ahead, and what follows it stays below one of its place.
      have hcd : c.toNat < d.toNat := UInt32.lt_iff_toNat_lt.1 hlt
      have hdigit : digitValue c + 1 ≤ digitValue d := by
        have hlow := (isDigit_iff.1 hx.1).1
        unfold digitValue
        omega
      have hplace := Nat.mul_le_mul_right (10 ^ y.length) hdigit
      have hrest := value_lt_pow hx.2
      rw [hlength] at hrest
      rw [Nat.add_mul, Nat.one_mul] at hplace
      omega
    · exact Nat.add_lt_add_left (ih hx.2 hy.2 hlength hlt) _

/-! ### Digits of a least width -/

variable {width n : Nat}

/-- Padding adds digits. -/
theorem isDigit_of_mem_padded {c : Char} (h : c ∈ padded width n) : isDigit c = true := by
  rw [padded] at h
  rcases List.mem_append.1 h with hzero | hdigit
  · rw [List.eq_of_mem_replicate hzero]
    rfl
  · exact isDigit_of_mem_ofNat hdigit

theorem padded_ne_nil : padded width n ≠ [] :=
  List.append_ne_nil_of_right_ne_nil _ Nat.toDigits_ne_nil

/-- Padding fills the width. -/
theorem length_le_padded : width ≤ (padded width n).length := by
  rw [padded, List.length_append, List.length_replicate]
  omega

/-- A number that fits the width has just that many digits. -/
theorem length_padded (hwidth : 0 < width) (h : n < 10 ^ width) :
    (padded width n).length = width := by
  have hlength : (ofNat n).length ≤ width := Nat.toDigits_length 10 n width hwidth h
  rw [padded, List.length_append, List.length_replicate]
  omega

/-- Zeros in front do not count. -/
theorem value_padded (width n : Nat) : value (padded width n) = n := by
  have hzeros (k : Nat) : value (List.replicate k '0') = 0 := by
    induction k with
    | zero => rfl
    | succ k ih => exact ih
  rw [padded, value, List.foldl_append, ← value, hzeros]
  exact value_ofNat n

/-- A padded number is read back. -/
theorem number?_padded (width n : Nat) : number? (padded width n) = some n := by
  have hall : (padded width n).all isDigit = true :=
    List.all_eq_true.2 fun c hc => isDigit_of_mem_padded hc
  rw [number?, hall, List.isEmpty_eq_false_iff.2 padded_ne_nil, value_padded]
  rfl

/-- Numbers that fit a width are in the order of their digits. -/
theorem padded_lt_padded {m : Nat} (hwidth : 0 < width) (hn : n < 10 ^ width) (h : m < n) :
    padded width m < padded width n := by
  have hlength : (padded width n).length = (padded width m).length := by
    rw [length_padded hwidth hn, length_padded hwidth (Nat.lt_trans h hn)]
  have hne : padded width n ≠ padded width m := by
    intro heq
    have hvalue := congrArg value heq
    rw [value_padded, value_padded] at hvalue
    omega
  -- The digits are as many and not the same, so otherwise they would be in the other order.
  by_contra hnot
  have hvalue := value_lt_value (fun _ => isDigit_of_mem_padded) (fun _ => isDigit_of_mem_padded)
    hlength (Std.lt_of_le_of_ne (Std.not_lt.1 hnot) hne)
  rw [value_padded, value_padded] at hvalue
  omega

/-- Texts that begin with a number are in the order of the numbers, and if these are the same, in
the order of what is behind them. -/
theorem padded_append_lt {m : Nat} {c : Char} {x y : List Char} {behind : Prop} (hwidth : 0 < width)
    (hn : n < 10 ^ width) (h : m < n ∨ m = n ∧ behind) (hbehind : behind → x < y) :
    padded width m ++ c :: x < padded width n ++ c :: y := by
  rcases h with hlt | ⟨rfl, hrest⟩
  · refine append_lt_append _ _ ?_ (padded_lt_padded hwidth hn hlt)
    rw [length_padded hwidth hn, length_padded hwidth (Nat.lt_trans hlt hn)]
  · exact List.append_left_lt (List.cons_lt_cons_iff.2 (.inr ⟨rfl, hbehind hrest⟩))

/-- A number below a hundred has two digits. -/
theorem exists_padded_two (h : n < 100) :
    ∃ c c', padded 2 n = [c, c'] ∧ number? [c, c'] = some n := by
  have hlength : (padded 2 n).length = 2 := length_padded (by decide) h
  obtain ⟨c, c', htext⟩ := List.length_eq_two.1 hlength
  exact ⟨c, c', htext, htext ▸ number?_padded 2 n⟩

/-! ### Numerals -/

/-- A run of one or more decimal digits that denotes a number. -/
structure IsNumeral (run : List Char) (n : Nat) : Prop where
  ne_nil : run ≠ []
  digits : ∀ c ∈ run, '0' ≤ c ∧ c ≤ '9'
  value : Nat.ofDigitChars 10 run 0 = n

/-- A number is read from numerals. -/
theorem number?_eq_some_iff {run : List Char} {n : Nat} :
    number? run = some n ↔ IsNumeral run n := by
  have hdigits : run.all isDigit = true ↔ ∀ c ∈ run, '0' ≤ c ∧ c ≤ '9' := by
    simp only [List.all_eq_true, isDigit, Bool.and_eq_true, decide_eq_true_eq]
  rw [number?, value_eq_ofDigitChars]
  constructor
  · intro h
    split at h
    · next hrun =>
      rw [Bool.and_eq_true, Bool.not_eq_true', List.isEmpty_eq_false_iff] at hrun
      exact ⟨hrun.1, hdigits.1 hrun.2, Option.some.inj h⟩
    · cases h
  · intro h
    rw [List.isEmpty_eq_false_iff.2 h.ne_nil, hdigits.2 h.digits, h.value]
    rfl

/-- The digits of a number are a numeral. -/
theorem isNumeral_ofNat (n : Nat) : IsNumeral (ofNat n) n where
  ne_nil := Nat.toDigits_ne_nil
  digits c hc := by
    have hdigit := isDigit_of_mem_ofNat hc
    rwa [isDigit, Bool.and_eq_true, decide_eq_true_eq, decide_eq_true_eq] at hdigit
  value := Nat.ofDigitChars_ten_toDigits

/-- No zero stands in front of another digit. -/
def NoLeadingZero (run : List Char) : Prop := run.head? = some '0' → run = ['0']

/-- A digit is what its value is written as. -/
theorem ofNat_digitValue {c : Char} (h : isDigit c = true) : ofNat (digitValue c) = [c] := by
  have hlow := (isDigit_iff.1 h).1
  have hchar : Nat.digitChar (digitValue c) = c := by
    rw [← Char.toNat_inj, Nat.toNat_digitChar_of_lt_ten (digitValue_lt h)]
    exact Nat.add_sub_cancel' hlow
  rw [ofNat, Nat.toDigits_of_lt_base (digitValue_lt h), hchar]

/-- Digits behind those of a positive number make up the digits of another. -/
theorem ofNat_append {n : Nat} (hn : 0 < n) {digits : List Char}
    (h : ∀ c ∈ digits, isDigit c = true) :
    ofNat n ++ digits = ofNat (Nat.ofDigitChars 10 digits n) := by
  induction digits generalizing n with
  | nil => rw [List.append_nil, Nat.ofDigitChars_nil]
  | cons c digits ih =>
    obtain ⟨hc, hdigits⟩ := List.forall_mem_cons.1 h
    calc ofNat n ++ c :: digits = (ofNat n ++ ofNat (digitValue c)) ++ digits := by
          rw [ofNat_digitValue hc, List.append_cons]
      _ = ofNat (10 * n + digitValue c) ++ digits :=
          congrArg (· ++ digits)
            (Nat.toDigits_append_toDigits (by decide) hn (digitValue_lt hc))
      _ = ofNat (Nat.ofDigitChars 10 digits (10 * n + digitValue c)) := ih (by omega) hdigits
      _ = ofNat (Nat.ofDigitChars 10 (c :: digits) n) := by
          rw [Nat.ofDigitChars_cons]
          rfl

/-- A run of digits is what its number is written as, unless a zero stands in front. -/
theorem IsNumeral.ofNat_eq_iff {run : List Char} {n : Nat} (h : IsNumeral run n) :
    ofNat n = run ↔ NoLeadingZero run := by
  obtain ⟨hne, hdigits, hvalue⟩ := h
  obtain ⟨c, digits, rfl⟩ := List.exists_cons_of_ne_nil hne
  have hall : ∀ d ∈ c :: digits, isDigit d = true := by
    simpa only [isDigit, Bool.and_eq_true, decide_eq_true_eq] using hdigits
  obtain ⟨hc, hrest⟩ := List.forall_mem_cons.1 hall
  constructor
  -- Only zero is written with a zero in front.
  · intro hwritten hzero
    rcases Nat.eq_zero_or_pos n with rfl | hn
    · exact hwritten.symm
    · obtain ⟨d, rest, hcons, hd⟩ := exists_cons_ofNat_of_pos hn
      rw [hwritten, List.cons.injEq] at hcons
      exact absurd (hcons.1 ▸ Option.some.inj hzero) hd
  · intro hlead
    by_cases hzero : c = '0'
    · subst hzero
      rw [hlead rfl] at hvalue ⊢
      rw [← hvalue]
      rfl
    · have hpos : 0 < digitValue c := by
        have hlow := (isDigit_iff.1 hc).1
        have hne : c.toNat ≠ 48 := fun heq => hzero (Char.toNat_inj.1 heq)
        unfold digitValue
        omega
      have hfirst : Nat.ofDigitChars 10 digits (digitValue c) = n := by
        rw [Nat.ofDigitChars_cons, Nat.mul_zero, Nat.zero_add] at hvalue
        exact hvalue
      rw [← hfirst, ← ofNat_append hpos hrest, ofNat_digitValue hc, List.singleton_append]

end Digits

namespace WireInteger

/-- The characters of integers. -/
def isNumeralChar (c : Char) : Bool := c == '-' || Digits.isDigit c

/-- An integer is written with digits and a minus sign. -/
theorem isNumeralChar_of_mem_text {n : WireInteger} {c : Char} (h : c ∈ n.text) :
    isNumeralChar c = true := by
  rw [isNumeralChar, Bool.or_eq_true, beq_iff_eq]
  rw [text] at h
  split at h
  · rcases List.mem_cons.1 h with h | h
    · exact .inl h
    · exact .inr (Digits.isDigit_of_mem_ofNat h)
  · exact .inr (Digits.isDigit_of_mem_ofNat h)

/-- An integer is written with at least one character. -/
theorem exists_cons_text (n : WireInteger) :
    ∃ c rest, n.text = c :: rest ∧ isNumeralChar c = true := by
  cases h : n.text with
  | nil =>
    rw [text] at h
    split at h
    · cases h
    · exact absurd h Nat.toDigits_ne_nil
  | cons c rest => exact ⟨c, rest, rfl, isNumeralChar_of_mem_text (h ▸ List.mem_cons_self)⟩

/-- An integer is the one that its text denotes: its sign is seen at the first character. -/
theorem text_inj {m n : WireInteger} (h : m.text = n.text) : m = n := by
  -- No digit is a minus sign.
  have hminus (k : Nat) (digits : List Char) : '-' :: digits ≠ Digits.ofNat k := by
    intro heq
    obtain ⟨c, rest, hcons, hdigit⟩ := Digits.exists_cons_ofNat k
    rw [hcons, List.cons.injEq] at heq
    rw [← heq.1] at hdigit
    exact absurd hdigit (by decide)
  suffices hvalue : m.value = n.value by
    cases m
    cases n
    cases hvalue
    rfl
  rw [text, text] at h
  split at h
  · next hm =>
    split at h
    · next hn =>
      have habs := Digits.ofNat_inj (List.cons.inj h).2
      omega
    · exact absurd h (hminus _ _)
  · next hm =>
    split at h
    · exact absurd h.symm (hminus _ _)
    · next hn =>
      have habs := Digits.ofNat_inj h
      omega

end WireInteger

end BinDelegation
