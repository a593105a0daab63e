import BinDelegation.Proofs.Text.Decimal
import BinDelegation.Proofs.Text.Pieces
import BinDelegation.SpecVersion
import Mathlib.Data.UInt

/-!
# Texts of versions

The texts that are read as a version are three runs of digits with dots between them, and a text is
told by the runs. Versions print as runs without zeros in front, so a text comes back from its
version if it has none.

`Spells s a b c x y z` relates a text to its three runs and the numbers that they denote. All
statements on texts go through it: it holds for at most one choice of runs and numbers
(`Spells.unique`), a text is read if it spells a version of the supported major number
(`parse_eq_ok_iff`), and the text of a version spells it (`spells_text`). A run is any number of
digits whose value fits into 32 bits, so zeros in front are read but not printed.

Versions are ordered by their numbers, the major one first, and not by their texts, which would put
10 before 9.
-/

namespace BinDelegation.SpecVersion

open Digits (IsNumeral NoLeadingZero isNumeral_ofNat)

/-- Three runs of digits with dots between them, and the numbers that they denote. -/
structure Spells (s : String) (a b c : List Char) (x y z : Nat) : Prop where
  text : s.toList = a ++ '.' :: b ++ '.' :: c
  major : IsNumeral a x
  minor : IsNumeral b y
  patch : IsNumeral c z

/-- The numbers of a version, the most significant first. -/
def numbers (v : SpecVersion) : List Nat := [v.major.toNat, v.minor.toNat, v.patch.toNat]

variable {s : String} {a b c : List Char} {x y z : Nat} {v w : SpecVersion}

/-! ### Reading -/

/-- A run is read if it is a numeral whose value fits. -/
theorem number?_eq_some_iff {run : List Char} {n : UInt32} :
    number? run = some n ↔ IsNumeral run n.toNat := by
  rw [number?, ← Digits.number?_eq_some_iff]
  cases Digits.number? run with
  | none => simp
  | some k =>
    rw [Option.bind_eq_bind, Option.bind_some, Option.some.injEq]
    constructor
    · intro h
      split at h
      · next hk => rw [← Option.some.inj h, UInt32.toNat_ofNat_of_lt' hk]
      · cases h
    · rintro rfl
      rw [if_pos n.toNat_lt_size, UInt32.ofNat_toNat]

theorem dot_not_mem {run : List Char} {n : Nat} (h : IsNumeral run n) : '.' ∉ run :=
  fun hdot => absurd (h.digits '.' hdot).1 (by decide)

/-- The dots part a text into its runs. -/
theorem Spells.pieces_eq (h : Spells s a b c x y z) : pieces '.' s.toList = [a, b, c] := by
  rw [h.text, pieces_append, pieces_append, pieces_of_not_mem (dot_not_mem h.major),
    pieces_of_not_mem (dot_not_mem h.minor), pieces_of_not_mem (dot_not_mem h.patch)]
  rfl

/-- A text with three pieces is the pieces with dots between them. -/
theorem text_of_pieces_eq (h : pieces '.' s.toList = [a, b, c]) :
    s.toList = a ++ '.' :: b ++ '.' :: c := by
  obtain ⟨after, htext, hafter⟩ := exists_of_pieces_cons_cons h
  obtain ⟨last, rfl, hlast⟩ := exists_of_pieces_cons_cons hafter
  rw [htext, eq_of_pieces_singleton hlast, List.append_assoc, List.cons_append]

/-- A text is spelled in one way. -/
theorem Spells.unique {a' b' c' : List Char} {x' y' z' : Nat} (h : Spells s a b c x y z)
    (h' : Spells s a' b' c' x' y' z') :
    (a = a' ∧ b = b' ∧ c = c') ∧ x = x' ∧ y = y' ∧ z = z' := by
  have hruns := h.pieces_eq.symm.trans h'.pieces_eq
  simp only [List.cons.injEq, and_true] at hruns
  obtain ⟨rfl, rfl, rfl⟩ := hruns
  exact ⟨⟨rfl, rfl, rfl⟩, h.major.value.symm.trans h'.major.value,
    h.minor.value.symm.trans h'.minor.value, h.patch.value.symm.trans h'.patch.value⟩

/-- The numbers of a text are those that its runs denote. -/
theorem numbers?_eq_some_iff : numbers? s = some v ↔
    ∃ a b c, Spells s a b c v.major.toNat v.minor.toNat v.patch.toNat := by
  constructor
  · intro h
    unfold numbers? at h
    split at h
    · next a b c hpieces =>
      -- The three runs are read from left to right; the first one that fails ends the reading.
      obtain ⟨major, hmajor, h⟩ := Option.bind_eq_some_iff.1 h
      obtain ⟨minor, hminor, h⟩ := Option.bind_eq_some_iff.1 h
      obtain ⟨patch, hpatch, h⟩ := Option.bind_eq_some_iff.1 h
      cases h
      exact ⟨a, b, c, text_of_pieces_eq hpieces, number?_eq_some_iff.1 hmajor,
        number?_eq_some_iff.1 hminor, number?_eq_some_iff.1 hpatch⟩
    · cases h
  · rintro ⟨a, b, c, h⟩
    rw [numbers?, h.pieces_eq]
    simp only [number?_eq_some_iff.2 h.major, number?_eq_some_iff.2 h.minor,
      number?_eq_some_iff.2 h.patch]
    rfl

/-- A version is read from the texts that spell it, if its major number is supported. -/
theorem parse_eq_ok_iff : parse s = .ok v ↔
    v.major = supportedMajor ∧
      ∃ a b c, Spells s a b c v.major.toNat v.minor.toNat v.patch.toNat := by
  rw [← numbers?_eq_some_iff, parse]
  cases hnumbers : numbers? s with
  | none => simp
  | some u =>
    simp only [Option.some.injEq]
    constructor
    · intro h
      split at h
      · next hmajor =>
        cases h
        exact ⟨hmajor, rfl⟩
      · cases h
    · rintro ⟨hmajor, rfl⟩
      rw [if_pos hmajor]

/-- A text that is not read is an invalid argument. -/
theorem parse_ok_or_invalidArgument (s : String) : (∃ v, parse s = .ok v) ∨
    ∃ reason, parse s = .error (.invalidArgument reason) := by
  unfold parse
  split
  · exact .inr ⟨_, rfl⟩
  · split
    · exact .inl ⟨_, rfl⟩
    · exact .inr ⟨_, rfl⟩

/-- The texts that are read spell a version of the supported major number. -/
theorem exists_parse_eq_ok_iff : (∃ v, parse s = .ok v) ↔
    ∃ a b c y z, Spells s a b c 1 y z ∧ y ≤ 4294967295 ∧ z ≤ 4294967295 := by
  constructor
  · rintro ⟨v, h⟩
    obtain ⟨hmajor, a, b, c, hspells⟩ := parse_eq_ok_iff.1 h
    rw [hmajor] at hspells
    exact ⟨a, b, c, _, _, hspells, Nat.le_of_lt_succ v.minor.toNat_lt,
      Nat.le_of_lt_succ v.patch.toNat_lt⟩
  · rintro ⟨a, b, c, y, z, hspells, hy, hz⟩
    obtain ⟨minor, rfl⟩ : ∃ n : UInt32, n.toNat = y :=
      ⟨.ofNat y, UInt32.toNat_ofNat_of_lt' (Nat.lt_succ_of_le hy)⟩
    obtain ⟨patch, rfl⟩ : ∃ n : UInt32, n.toNat = z :=
      ⟨.ofNat z, UInt32.toNat_ofNat_of_lt' (Nat.lt_succ_of_le hz)⟩
    exact ⟨⟨1, minor, patch⟩, parse_eq_ok_iff.2 ⟨rfl, a, b, c, hspells⟩⟩

/-! ### Printing -/

/-- The text of a version spells it. -/
theorem spells_text (v : SpecVersion) :
    Spells v.text (digits v.major) (digits v.minor) (digits v.patch)
      v.major.toNat v.minor.toNat v.patch.toNat where
  text := String.toList_ofList
  major := isNumeral_ofNat _
  minor := isNumeral_ofNat _
  patch := isNumeral_ofNat _

/-- A version is read back from its text. -/
theorem parse_text (h : v.major = supportedMajor) : parse v.text = .ok v :=
  parse_eq_ok_iff.2 ⟨h, _, _, _, spells_text v⟩

/-- A text is how its version prints, unless a zero stands in front of a run. -/
theorem Spells.text_eq_iff (h : Spells s a b c v.major.toNat v.minor.toNat v.patch.toNat) :
    v.text = s ↔ NoLeadingZero a ∧ NoLeadingZero b ∧ NoLeadingZero c := by
  rw [← h.major.ofNat_eq_iff, ← h.minor.ofNat_eq_iff, ← h.patch.ofNat_eq_iff]
  constructor
  · rintro rfl
    exact ((spells_text v).unique h).1
  · rintro ⟨hmajor, hminor, hpatch⟩
    rw [← String.toList_inj, h.text, ← hmajor, ← hminor, ← hpatch]
    exact (spells_text v).text

/-! ### Ordering -/

/-- A version is below another one if its numbers are. -/
theorem order_eq_lt_iff (v w : SpecVersion) : order v w = .lt ↔ numbers v < numbers w := by
  simp only [order, Ordering.then_eq_lt, Std.compare_eq_lt, Std.compare_eq_iff_eq, numbers,
    List.cons_lt_cons_iff, UInt32.lt_iff_toNat_lt, UInt32.toNat_inj, List.not_lt_nil, and_false,
    or_false]

/-- Two versions are equal in order if their numbers are. -/
theorem order_eq_eq_iff (v w : SpecVersion) : order v w = .eq ↔ numbers v = numbers w := by
  simp only [order, Ordering.then_eq_eq, Std.compare_eq_iff_eq, numbers, List.cons.injEq,
    UInt32.toNat_inj, and_true]

theorem order_swap (v w : SpecVersion) : (order v w).swap = order w v := by
  simp only [order, Ordering.swap_then, ← Std.OrientedOrd.eq_swap]

theorem order_eq_gt_iff (v w : SpecVersion) : order v w = .gt ↔ numbers w < numbers v := by
  rw [← order_eq_lt_iff, ← order_swap v w, Ordering.swap_eq_lt]

/-- Texts and versions tell each other by runs of digits: those that are read, the numbers read off
them, what prints back, and the order. -/
theorem parse_text_order (s : String) :
    ((∃ v, parse s = .ok v) ↔
      ∃ a b c y z, Spells s a b c 1 y z ∧ y ≤ 4294967295 ∧ z ≤ 4294967295) ∧
    ((∃ v, parse s = .ok v) ∨ ∃ reason, parse s = .error (.invalidArgument reason)) ∧
    (∀ v a b c x y z, parse s = .ok v → Spells s a b c x y z →
      v.major.toNat = x ∧ v.minor.toNat = y ∧ v.patch.toNat = z ∧
        (v.text = s ↔ NoLeadingZero a ∧ NoLeadingZero b ∧ NoLeadingZero c)) ∧
    (∀ v, v.major = 1 → parse v.text = .ok v) ∧
    ∀ v w, (order v w = .lt ↔ numbers v < numbers w) ∧
      (order v w = .eq ↔ numbers v = numbers w) ∧ (order v w = .gt ↔ numbers w < numbers v) := by
  refine ⟨exists_parse_eq_ok_iff, parse_ok_or_invalidArgument s, ?_, fun v => parse_text,
    fun v w => ⟨order_eq_lt_iff v w, order_eq_eq_iff v w, order_eq_gt_iff v w⟩⟩
  intro v a b c x y z hparse hspells
  obtain ⟨-, a', b', c', hread⟩ := parse_eq_ok_iff.1 hparse
  obtain ⟨-, rfl, rfl, rfl⟩ := hread.unique hspells
  exact ⟨rfl, rfl, rfl, hspells.text_eq_iff⟩

/-- A text with zeros in front is read, and prints without them. -/
theorem parse_text_order_of_padded :
    parse "1.007.42" = .ok ⟨1, 7, 42⟩ ∧ text ⟨1, 7, 42⟩ ≠ "1.007.42" ∧
      parse (text ⟨1, 7, 42⟩) = .ok ⟨1, 7, 42⟩ := by
  have hparse : parse "1.007.42" = .ok ⟨1, 7, 42⟩ := by decide
  have hspells : Spells "1.007.42" ['1'] ['0', '0', '7'] ['4', '2'] 1 7 42 :=
    ⟨rfl, Digits.number?_eq_some_iff.1 rfl, Digits.number?_eq_some_iff.1 rfl,
      Digits.number?_eq_some_iff.1 rfl⟩
  obtain ⟨-, -, hread, hprinted, -⟩ := parse_text_order "1.007.42"
  obtain ⟨-, -, -, htext⟩ := hread _ _ _ _ _ _ _ hparse hspells
  refine ⟨hparse, fun heq => ?_, hprinted _ rfl⟩
  exact absurd ((htext.1 heq).2.1 rfl) (by decide)

end BinDelegation.SpecVersion
