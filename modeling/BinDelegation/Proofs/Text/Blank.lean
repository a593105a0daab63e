import BinDelegation.Text.Blank
import Mathlib.Data.List.DropRight

/-!
# Trimmed text

What trimming leaves is the one text that has no blank character at either end, and from which the
text that was trimmed differs by blank characters before and behind it.

Trimming drops blank characters from the front of a list, and from its end by way of the reversed
list. `Trims` describes the result without that: the trimmed text stands between blank characters,
and neither its first nor its last character is one. The description fits exactly one text
(`trims_iff`), so a statement about trimmed text may use either.

Nothing here depends on which characters are blank. That hexadecimal digits are not among them is
proved where key files are read.
-/

namespace BinDelegation.Blank

/-- A text is another one with blank characters before and behind it, and the other one has none at
its ends. -/
structure Trims (cs text : List Char) : Prop where
  around : ∃ front back, cs = front ++ text ++ back ∧ (∀ c ∈ front, isBlank c = true) ∧
    ∀ c ∈ back, isBlank c = true
  head : ∀ c ∈ text.head?, isBlank c = false
  last : ∀ c ∈ text.getLast?, isBlank c = false

theorem trim_eq_rdropWhile (cs : List Char) :
    trim cs = (cs.dropWhile isBlank).rdropWhile isBlank := rfl

/-- What is left once the blank characters before a text are gone does not begin with one. -/
theorem not_isBlank_of_head_dropWhile {cs : List Char} {c : Char}
    (h : (cs.dropWhile isBlank).head? = some c) : isBlank c = false := by
  have hne : cs.dropWhile isBlank ≠ [] := fun hnil => by simp [hnil] at h
  rw [← Option.some.inj ((List.head?_eq_some_head hne).symm.trans h)]
  exact List.head_dropWhile_not isBlank hne

/-- Trimming leaves a text that stands between blank characters and has none at its ends. -/
theorem trims_trim (cs : List Char) : Trims cs (trim cs) := by
  rw [trim_eq_rdropWhile]
  refine ⟨⟨cs.takeWhile isBlank, (cs.dropWhile isBlank).rtakeWhile isBlank, ?_,
    fun c hc => List.mem_takeWhile_imp hc, fun c hc => List.mem_rtakeWhile_imp hc⟩,
    fun c hc => ?_, fun c hc => ?_⟩
  · rw [List.append_assoc, List.rdropWhile_append_rtakeWhile, List.takeWhile_append_dropWhile]
  · -- The first character is that of the text before its end was cut off.
    refine not_isBlank_of_head_dropWhile (?_ : (cs.dropWhile isBlank).head? = some c)
    obtain ⟨back, hback⟩ := List.rdropWhile_prefix isBlank (l := cs.dropWhile isBlank)
    rw [← hback, List.head?_append, Option.mem_def.1 hc, Option.some_or]
  · obtain ⟨hne, hlast⟩ := List.mem_getLast?_eq_getLast hc
    rw [hlast]
    exact Bool.eq_false_iff.2 (List.rdropWhile_last_not isBlank _ hne)

/-- Trimming leaves the text that is told by its place between blank characters. -/
theorem Trims.trim_eq {cs text : List Char} (h : Trims cs text) : trim cs = text := by
  obtain ⟨front, back, rfl, hfront, hback⟩ := h.around
  rw [trim, List.append_assoc, List.dropWhile_append_of_pos hfront]
  cases text with
  | nil =>
    have hnil : ([] ++ back).dropWhile isBlank = [] := List.dropWhile_eq_nil_iff.2 hback
    rw [hnil]
    rfl
  | cons c rest =>
    -- Neither end of the text is blank, so each of the two passes stops where the text begins.
    have hhead : ¬ isBlank c = true := Bool.eq_false_iff.1 (h.head c rfl)
    have hend : ∀ c ∈ back.reverse, isBlank c = true :=
      fun c hc => hback c (List.mem_reverse.1 hc)
    have hlast : (c :: rest).rdropWhile isBlank = c :: rest :=
      List.rdropWhile_eq_self_iff.2 fun hne =>
        Bool.eq_false_iff.1 (h.last _ (List.getLast?_eq_some_getLast hne))
    rw [List.cons_append, List.dropWhile_cons_of_neg hhead, ← List.cons_append,
      List.reverse_append, List.dropWhile_append_of_pos hend]
    exact hlast

/-- There is one text that trimming may leave. -/
theorem trims_iff {cs text : List Char} : Trims cs text ↔ text = trim cs :=
  ⟨fun h => h.trim_eq.symm, fun h => h ▸ trims_trim cs⟩

end BinDelegation.Blank
