import BinDelegation.Ascent
import Mathlib.Data.List.Chain
import Mathlib.Order.Bounds.Basic

/-!
# Strict ascent by neighbours

The check of a list goes through it once and compares each key with the one before it. It answers
with the first position that is out of order, counted from a position that the loop is given.

Only neighbours are compared, and that is enough: as the order is transitive, a list passes the
check exactly if each of its keys is below all that come behind it (`isChain_iff_pairwise_lt`). The
position that is named for another list is the first one out of order, and the items before it
ascend.

The loop is followed by induction on the keys, for every position that it may start at: once for a
list that passes (`firstFailure?_eq_none_iff`) and once for one that does not
(`firstFailure?_eq_some`), where the index that is found is told as an offset. Only at the end is
the offset turned into the least position out of order.
-/

namespace BinDelegation.Ascent

variable {κ : Type} [LT κ]

/-- The key at a position behind the first is not above the one before it. -/
def OutOfOrder [LE κ] {α : Type} (items : List α) (key : α → κ) (i : Nat) : Prop :=
  ∃ h : i < items.length, 0 < i ∧ key items[i] ≤ key items[i - 1]

/-- No position among items that ascend is out of order. -/
theorem not_outOfOrder_of_take [LE κ] [Std.IsLinearOrder κ] [Std.LawfulOrderLT κ] {α : Type}
    {items : List α} {key : α → κ} {i j : Nat}
    (h : (items.take i).Pairwise fun x y => key x < key y) (hj : j < i) :
    ¬OutOfOrder items key j := by
  rintro ⟨hlength, hpos, hle⟩
  have htake : j < (items.take i).length := by
    rw [List.length_take]
    omega
  have hlt := List.pairwise_iff_getElem.1 h (j - 1) j (by omega) htake (by omega)
  rw [List.getElem_take, List.getElem_take] at hlt
  exact Std.not_lt.2 hle hlt

/-- As the order is transitive, keys that are each below the next one are below all behind it. -/
theorem isChain_iff_pairwise_lt [LE κ] [Std.IsLinearOrder κ] [Std.LawfulOrderLT κ]
    {keys : List κ} : keys.IsChain (· < ·) ↔ keys.Pairwise (· < ·) := by
  have : Trans (α := κ) (· < ·) (· < ·) (· < ·) := ⟨Std.lt_trans⟩
  exact List.isChain_iff_pairwise

variable [DecidableLT κ]

/-- No position is out of order exactly if every key is below the next one. -/
theorem firstFailure?_eq_none_iff {position : Nat} {keys : List κ} :
    firstFailure? position keys = none ↔ keys.IsChain (· < ·) := by
  induction keys generalizing position with
  | nil => exact iff_of_true rfl .nil
  | cons a rest ih =>
    cases rest with
    | nil => exact iff_of_true rfl (.singleton a)
    | cons b rest =>
      rw [firstFailure?, List.isChain_cons_cons]
      split
      · next hlt => rw [ih, and_iff_right hlt]
      · next hlt => exact iff_of_false (Option.some_ne_none _) fun h => hlt h.1

/-- The keys before the position that is found are each below the next one. -/
theorem firstFailure?_eq_some {position found : Nat} {keys : List κ}
    (h : firstFailure? position keys = some found) :
    ∃ i, ∃ hi : i + 1 < keys.length, found = position + (i + 1) ∧ ¬keys[i] < keys[i + 1] ∧
      (keys.take (i + 1)).IsChain (· < ·) := by
  induction keys generalizing position with
  | nil => cases h
  | cons a rest ih =>
    cases rest with
    | nil => cases h
    | cons b rest =>
      rw [firstFailure?] at h
      split at h
      · next hlt =>
        -- The first two keys ascend, so what is found is found among the rest, one further on.
        obtain ⟨i, hi, hfound, hnot, hchain⟩ := ih h
        refine ⟨i + 1, Nat.succ_lt_succ hi, by omega, hnot, ?_⟩
        rw [List.take_succ_cons] at hchain
        rw [List.take_succ_cons, List.take_succ_cons, List.isChain_cons_cons]
        exact ⟨hlt, hchain⟩
      · next hnot =>
        exact ⟨0, Nat.succ_lt_succ (Nat.succ_pos _), (Option.some.inj h).symm, hnot, .singleton a⟩

/-- A list passes exactly if its keys ascend strictly, each below all that come behind it. -/
theorem ensure_eq_ok [LE κ] [Std.IsLinearOrder κ] [Std.LawfulOrderLT κ] {α : Type} {items : List α}
    {key : α → κ} : ensure items key = .ok () ↔ (items.map key).Pairwise (· < ·) := by
  have hnone : firstFailure? 0 (items.map key) = none ↔ (items.map key).Pairwise (· < ·) :=
    firstFailure?_eq_none_iff.trans isChain_iff_pairwise_lt
  rw [← hnone, ensure]
  cases firstFailure? 0 (items.map key) with
  | none => exact iff_of_true rfl rfl
  | some position => exact iff_of_false (fun h => by cases h) (Option.some_ne_none _)

/-- The lists that pass are those whose keys ascend, each below all that come behind it, so that
no key is there twice. Any other list is refused for its first position out of order, and the items
before that position ascend. -/
theorem ensure_ascends [LE κ] [Std.IsLinearOrder κ] [Std.LawfulOrderLT κ] {α : Type}
    (items : List α) (key : α → κ) :
    (ensure items key = .ok () ↔ items.Pairwise fun x y => key x < key y) ∧
    (ensure items key = .ok () → (items.map key).Nodup) ∧
    (¬(items.Pairwise fun x y => key x < key y) → ∃ i,
      ensure items key = .error
        (.invariant ("collection is not strictly ascending at index " ++ toString i)) ∧
      IsLeast {i | OutOfOrder items key i} i ∧
      (items.take i).Pairwise fun x y => key x < key y) := by
  have hok : ensure items key = .ok () ↔ items.Pairwise fun x y => key x < key y :=
    ensure_eq_ok.trans List.pairwise_map
  refine ⟨hok, fun h => (ensure_eq_ok.1 h).imp Std.ne_of_lt, fun hnot => ?_⟩
  cases hfound : firstFailure? 0 (items.map key) with
  | none =>
    have hascends := isChain_iff_pairwise_lt.1 (firstFailure?_eq_none_iff.1 hfound)
    exact absurd (List.pairwise_map.1 hascends) hnot
  | some found =>
    obtain ⟨i, hi, rfl, hle, hchain⟩ := firstFailure?_eq_some hfound
    rw [Nat.zero_add] at hfound
    rw [List.getElem_map, List.getElem_map, Std.not_lt] at hle
    rw [← List.map_take, isChain_iff_pairwise_lt, List.pairwise_map] at hchain
    rw [List.length_map] at hi
    -- No smaller position is out of order, since the items before the one that is found ascend.
    refine ⟨i + 1, by rw [ensure, hfound], ⟨⟨hi, Nat.succ_pos i, hle⟩, fun j hj => ?_⟩, hchain⟩
    exact Nat.le_of_not_lt fun hlt => not_outOfOrder_of_take hchain hlt hj

/-- The third text is as long as the second, and the last is shorter. -/
theorem ensure_ascends_of_lengths :
    (¬["a", "bcd", "efg", "hi"].Pairwise fun x y => x.length < y.length) ∧
    ensure ["a", "bcd", "efg", "hi"] String.length
      = .error (.invariant "collection is not strictly ascending at index 2") := by
  have hnot : ¬["a", "bcd", "efg", "hi"].Pairwise fun x y => x.length < y.length := by decide
  obtain ⟨-, -, hrefused⟩ := ensure_ascends ["a", "bcd", "efg", "hi"] String.length
  obtain ⟨i, herror, ⟨⟨hi, hpos, hle⟩, hleast⟩, -⟩ := hrefused hnot
  have hlast : i ≤ 2 := hleast ⟨by decide, by decide, by decide⟩
  have hne : i ≠ 1 := by
    rintro rfl
    have hlonger : "bcd".length ≤ "a".length := hle
    exact absurd hlonger (by decide)
  obtain rfl : i = 2 := by omega
  exact ⟨hnot, herror⟩

end BinDelegation.Ascent
