import BinDelegation.Text.Pieces
import Mathlib.Data.List.Basic

/-!
# Pieces between separators

The pieces of a list are told by the list, and the list by its pieces: none of them has a separator,
and one stands between each two.

Splitting at a separator always gives a piece, which may be empty; a list without separators is its
only piece. The pieces of two lists with a separator between them are the pieces of both
(`pieces_append`), and that is the one fact by which pieces are computed in proofs.

Backwards, a list is taken apart one piece at a time. `eq_of_pieces` says that the first piece is
all there is or has a separator behind it, from which two and three pieces follow by repetition.
Paths, version numbers and the names of bins are all read in this way.
-/

namespace BinDelegation

variable {α : Type} [DecidableEq α] {separator : α}

/-- There is always a piece. -/
theorem pieces_ne_nil (list : List α) : pieces separator list ≠ [] := by
  cases list with
  | nil => exact List.cons_ne_nil _ _
  | cons a rest =>
    rw [pieces]
    split
    · exact List.cons_ne_nil _ _
    · split <;> exact List.cons_ne_nil _ _

/-- The pieces before a separator and those behind it. -/
theorem pieces_append (before after : List α) :
    pieces separator (before ++ separator :: after)
      = pieces separator before ++ pieces separator after := by
  induction before with
  | nil => simp [pieces]
  | cons a rest ih =>
    rw [List.cons_append, pieces, pieces, ih]
    split
    · rfl
    · cases hpieces : pieces separator rest with
      | nil => exact absurd hpieces (pieces_ne_nil rest)
      | cons first others => rfl

/-- A list without separators is its only piece. -/
theorem pieces_of_not_mem {list : List α} (h : separator ∉ list) :
    pieces separator list = [list] := by
  induction list with
  | nil => rfl
  | cons a rest ih =>
    rw [List.mem_cons, not_or] at h
    rw [pieces, if_neg (Ne.symm h.1), ih h.2]

/-- The first piece is the whole list, or a separator stands behind it. -/
theorem eq_of_pieces {list first : List α} {others : List (List α)}
    (h : pieces separator list = first :: others) : others = [] ∧ list = first ∨
      ∃ after, list = first ++ separator :: after ∧ pieces separator after = others := by
  induction list generalizing first with
  | nil =>
    cases h
    exact .inl ⟨rfl, rfl⟩
  | cons a rest ih =>
    rw [pieces] at h
    split at h
    · next hseparator =>
      cases h
      exact .inr ⟨rest, by rw [hseparator, List.nil_append], rfl⟩
    · cases hrest : pieces separator rest with
      | nil => exact absurd hrest (pieces_ne_nil rest)
      | cons front others' =>
        rw [hrest] at h
        cases h
        -- The item stands before the first piece of the rest, and its separator is the next one
        -- there.
        rcases ih hrest with ⟨hothers, rfl⟩ | ⟨after, rfl, hafter⟩
        · exact .inl ⟨hothers, rfl⟩
        · exact .inr ⟨after, rfl, hafter⟩

/-- One piece is the whole list. -/
theorem eq_of_pieces_singleton {list piece : List α} (h : pieces separator list = [piece]) :
    list = piece := by
  rcases eq_of_pieces h with ⟨-, hlist⟩ | ⟨after, -, hafter⟩
  · exact hlist
  · exact absurd hafter (pieces_ne_nil after)

/-- Of two or more pieces the first has a separator behind it. -/
theorem exists_of_pieces_cons_cons {list first second : List α} {others : List (List α)}
    (h : pieces separator list = first :: second :: others) :
    ∃ after, list = first ++ separator :: after ∧ pieces separator after = second :: others := by
  rcases eq_of_pieces h with ⟨hothers, -⟩ | hafter
  · cases hothers
  · exact hafter

end BinDelegation
