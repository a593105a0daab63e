import Mathlib.Data.List.Basic

/-!
# Items of a list by a test and by a key

Look-ups in this project are searches through lists whose items are told apart by something: the
name of a bin, a prefix, the number of a program. A test that passes at one position of a list
selects the item there, by a search, and by a filter with nothing beside it.

Where items come in any order, they are put in the order of a key. `pairwise_mergeSort_key` says so
once for every kind of key, numbers as well as texts.
-/

namespace BinDelegation

variable {α : Type} {test : α → Bool} {items : List α} {i : Nat} {a : α}

/-- A test that passes at one position leaves the item there. -/
theorem filter_eq_singleton (hi : items[i]? = some a)
    (htest : ∀ j b, items[j]? = some b → (test b = true ↔ j = i)) : items.filter test = [a] := by
  induction items generalizing i with
  | nil => simp at hi
  | cons head rest ih =>
    have hhead := htest 0 head rfl
    have htail (j : Nat) (b : α) (hb : rest[j]? = some b) : test b = true ↔ j + 1 = i :=
      htest (j + 1) b hb
    -- The position tells whether the item is the head or stands in the rest.
    cases i with
    | zero =>
      rw [List.getElem?_cons_zero, Option.some.injEq] at hi
      subst hi
      rw [List.filter_cons_of_pos (hhead.2 rfl), List.filter_eq_nil_iff.2]
      intro b hb htrue
      obtain ⟨j, hj⟩ := List.mem_iff_getElem?.1 hb
      exact absurd ((htail j b hj).1 htrue) (Nat.succ_ne_zero j)
    | succ k =>
      rw [List.filter_cons_of_neg fun htrue => absurd (hhead.1 htrue) (Nat.succ_ne_zero k).symm]
      apply ih hi
      intro j b hb
      rw [htail j b hb, Nat.add_right_cancel_iff]

/-- A test that passes at one position finds the item there. -/
theorem find?_eq_some_of_filter (h : items.filter test = [a]) : items.find? test = some a := by
  rw [← List.head?_filter, h]
  rfl

/-- Items that are sorted by a key stand in the order of their keys. -/
theorem pairwise_mergeSort_key {κ : Type} [LE κ] [DecidableLE κ] [Std.IsLinearPreorder κ]
    (key : α → κ) (items : List α) :
    (items.mergeSort fun a b => key a ≤ key b).Pairwise fun a b => key a ≤ key b := by
  have htrans (a b c : α) (hab : decide (key a ≤ key b) = true)
      (hbc : decide (key b ≤ key c) = true) : decide (key a ≤ key c) = true :=
    decide_eq_true (Std.le_trans (of_decide_eq_true hab) (of_decide_eq_true hbc))
  have htotal (a b : α) : (decide (key a ≤ key b) || decide (key b ≤ key a)) = true := by
    rw [Bool.or_eq_true, decide_eq_true_eq, decide_eq_true_eq]
    exact Std.le_total
  exact (List.pairwise_mergeSort htrans htotal items).imp of_decide_eq_true

end BinDelegation
