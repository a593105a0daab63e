import BinDelegation.Dict
import Mathlib.Data.List.Perm.Basic
import Mathlib.Data.List.Nodup
import Mathlib.Data.List.Induction

/-!
# Lookup in sorted dictionaries

A dictionary is known by its lookup: `Dict.get?_insert` says what an entry changes, and two
dictionaries that look up alike are equal.

Below the dictionary there is a list of entries in ascending order of their keys. The lemmas about
lists come first: what an entry that is put into the list does to a lookup needs no order
(`lookup_insertEntry`), and in an ascending list every entry is found by its key and keys are
distinct, so two such lists with the same entries are equal.

A dictionary can be entered pair by pair, the last value of a key over the earlier ones. Pairs of
distinct keys all stay, in another order perhaps (`Dict.perm_ofList`), and what is entered from a
dictionary is this dictionary again. Targets of a bin, keys of a table and the files of a tree are
dictionaries, so these lemmas are used throughout.
-/

namespace BinDelegation

variable {κ α : Type} [DecidableEq κ]

/-- The first entry answers for its key. -/
theorem lookup_cons_ite (key j : κ) (value : α) (rest : List (κ × α)) :
    ((key, value) :: rest).lookup j = if j = key then some value else rest.lookup j := by
  rw [List.lookup_cons]
  by_cases hj : j = key
  · simp [hj]
  · rw [beq_false_of_ne hj, if_neg hj]

/-- Among entries of distinct keys each is found by its key. -/
theorem lookup_of_nodup_keys {entries : List (κ × α)} (h : (entries.map (·.1)).Nodup)
    {entry : κ × α} (hmem : entry ∈ entries) : entries.lookup entry.1 = some entry.2 := by
  induction entries with
  | nil => cases hmem
  | cons head rest ih =>
    obtain ⟨key, value⟩ := head
    rw [List.map_cons, List.nodup_cons] at h
    rw [lookup_cons_ite]
    rcases List.mem_cons.1 hmem with rfl | hrest
    · rw [if_pos rfl]
    · have hne : entry.1 ≠ key := by
        rintro rfl
        exact h.1 (List.mem_map.2 ⟨entry, hrest, rfl⟩)
      rw [if_neg hne, ih h.2 hrest]

variable [LT κ]

/-- Putting an entry into a list shadows the old entries of its key and no other. -/
theorem lookup_insertEntry [DecidableLT κ] (k j : κ) (v : α) (entries : List (κ × α)) :
    (insertEntry k v entries).lookup j = if j = k then some v else entries.lookup j := by
  induction entries with
  | nil => rw [insertEntry, lookup_cons_ite]
  | cons head rest ih =>
    obtain ⟨key, value⟩ := head
    rw [insertEntry]
    -- The entry goes before a greater key, in the place of the same key, or further behind.
    split
    · rw [lookup_cons_ite]
    · split
      · next heq =>
        have hkey : k = key := heq
        subst hkey
        rw [lookup_cons_ite, lookup_cons_ite]
        by_cases hj : j = k <;> simp [hj]
      · next hne =>
        have hkey : ¬ k = key := hne
        rw [lookup_cons_ite, lookup_cons_ite, ih]
        by_cases hj : j = key
        · have hjk : ¬ j = k := fun h => hkey (h.symm.trans hj)
          rw [if_pos hj, if_neg hjk, if_pos hj]
        · rw [if_neg hj, if_neg hj]

/-- A new entry joins the others. -/
theorem insertEntry_perm [DecidableLT κ] {k : κ} {v : α} {entries : List (κ × α)}
    (h : k ∉ entries.map (·.1)) : (insertEntry k v entries).Perm ((k, v) :: entries) := by
  induction entries with
  | nil => exact .refl _
  | cons head rest ih =>
    rw [List.map_cons, List.mem_cons, not_or] at h
    rw [insertEntry]
    split
    · exact .refl _
    · rw [if_neg h.1]
      exact ((ih h.2).cons head).trans (.swap _ _ _)

section Ascending

variable [LE κ] [Std.LawfulOrderLT κ]

omit [DecidableEq κ] in
/-- The keys of an ascending list are distinct. -/
theorem Ascending.nodup_keys {entries : List (κ × α)} (h : Ascending entries) :
    (entries.map (·.1)).Nodup := by
  rw [List.Nodup, List.pairwise_map]
  refine h.imp ?_
  intro a b hlt heq
  exact Std.lt_irrefl (heq ▸ hlt)

/-- In an ascending list an entry is found by its key. -/
theorem Ascending.mem_iff_lookup {entries : List (κ × α)} (h : Ascending entries) {k : κ} {v : α} :
    (k, v) ∈ entries ↔ entries.lookup k = some v := by
  induction entries with
  | nil => simp
  | cons head rest ih =>
    obtain ⟨key, value⟩ := head
    obtain ⟨hhead, hrest⟩ := List.pairwise_cons.1 h
    rw [lookup_cons_ite, List.mem_cons, Prod.mk.injEq]
    by_cases hk : k = key
    · subst hk
      have hnot : (k, v) ∉ rest := fun hmem => Std.lt_irrefl (hhead (k, v) hmem)
      simp [hnot, eq_comm]
    · simp [hk, ih hrest]

omit [DecidableEq κ] in
/-- Two ascending lists with the same entries are equal. -/
theorem Ascending.eq_of_mem_iff [Std.IsLinearOrder κ] {entries entries' : List (κ × α)}
    (h : Ascending entries) (h' : Ascending entries')
    (hmem : ∀ entry, entry ∈ entries ↔ entry ∈ entries') : entries = entries' := by
  have hperm : entries.Perm entries' :=
    (List.perm_ext_iff_of_nodup h.nodup_keys.of_map h'.nodup_keys.of_map).2 hmem
  exact hperm.eq_of_pairwise
    (fun a b _ _ hab hba => absurd (Std.lt_trans hab hba) Std.lt_irrefl) h h'

end Ascending

namespace Dict

@[simp] theorem get?_empty (k : κ) : (empty : Dict κ α).get? k = none := rfl

/-- One entry answers for its key alone. -/
@[simp] theorem get?_singleton (k j : κ) (v : α) :
    (singleton k v).get? j = if j = k then some v else none :=
  lookup_cons_ite k j v []

/-- A dictionary of one entry has its key alone. -/
@[simp] theorem contains_singleton (k j : κ) (v : α) :
    (singleton k v).contains j = decide (j = k) := by
  rw [contains, get?_singleton]
  by_cases hj : j = k <;> simp [hj]

variable [LE κ] [Std.LawfulOrderLT κ]

/-- A new entry answers for its key, and the old ones for theirs. -/
@[simp] theorem get?_insert [Std.IsLinearOrder κ] [DecidableLT κ] (d : Dict κ α) (k j : κ) (v : α) :
    (d.insert k v).get? j = if j = k then some v else d.get? j :=
  lookup_insertEntry k j v d.entries

omit [DecidableEq κ] in
theorem nodup_entries (d : Dict κ α) : d.entries.Nodup := d.ascending.nodup_keys.of_map

/-- The entries are what is found by their keys. -/
theorem mem_entries {d : Dict κ α} {k : κ} {v : α} : (k, v) ∈ d.entries ↔ d.get? k = some v :=
  d.ascending.mem_iff_lookup

/-- An erased key is no longer found, and the others still are. -/
@[simp] theorem get?_erase (d : Dict κ α) (k j : κ) :
    (d.erase k).get? j = if j = k then none else d.get? j := by
  refine Option.ext fun v => ?_
  rw [← mem_entries, erase, List.mem_filter, mem_entries, decide_eq_true_eq]
  by_cases hj : j = k <;> simp [hj]

/-- Dictionaries that look up alike are equal. -/
theorem ext_get? [Std.IsLinearOrder κ] {d e : Dict κ α} (h : ∀ k, d.get? k = e.get? k) : d = e := by
  refine ext (d.ascending.eq_of_mem_iff e.ascending ?_)
  rintro ⟨k, v⟩
  rw [mem_entries, mem_entries, h]

/-- Entering pairs of distinct keys shadows the values that were under these keys before. -/
theorem get?_foldl_insert [Std.IsLinearOrder κ] [DecidableLT κ] {pairs : List (κ × α)}
    (h : (pairs.map (·.1)).Nodup) (d : Dict κ α) (k : κ) :
    (pairs.foldl (fun d entry => d.insert entry.1 entry.2) d).get? k
      = (pairs.lookup k).or (d.get? k) := by
  induction pairs generalizing d with
  | nil => rfl
  | cons head rest ih =>
    obtain ⟨key, value⟩ := head
    rw [List.map_cons, List.nodup_cons] at h
    rw [List.foldl_cons, ih h.2, get?_insert, lookup_cons_ite]
    by_cases hk : k = key
    -- No later pair has the key, so its value stays.
    · have hnone : rest.lookup k = none := by
        rw [List.lookup_eq_none_iff]
        intro entry hentry
        rw [bne_iff_ne]
        rintro rfl
        exact h.1 (List.mem_map.2 ⟨entry, hentry, hk⟩)
      rw [if_pos hk, if_pos hk, hnone]
      rfl
    · rw [if_neg hk, if_neg hk]

section OfList

variable [Std.IsLinearOrder κ] [DecidableLT κ] {pairs : List (κ × α)}

/-- Entering one pair more is an insertion behind all others. -/
theorem ofList_append (pairs : List (κ × α)) (k : κ) (v : α) :
    ofList (pairs ++ [(k, v)]) = (ofList pairs).insert k v := by
  simp [ofList]

/-- The entries of a dictionary that is entered pair by pair. -/
theorem entries_ofList :
    (ofList pairs).entries = pairs.foldl (fun entries pair => insertEntry pair.1 pair.2 entries) []
    := by
  rw [ofList]
  exact (List.foldl_hom Dict.entries fun _ _ => rfl).symm

/-- Every entry is one of the pairs. -/
theorem mem_of_mem_ofList {entry : κ × α} (h : entry ∈ (ofList pairs).entries) : entry ∈ pairs := by
  induction pairs using List.reverseRecOn with
  | nil => exact h
  | append_singleton pairs pair ih =>
    rw [ofList_append] at h
    rcases mem_insertEntry h with rfl | h
    · exact List.mem_append_right _ List.mem_cons_self
    · exact List.mem_append_left _ (ih h)

/-- Pairs of distinct keys all stay. -/
theorem perm_ofList (h : (pairs.map (·.1)).Nodup) : (ofList pairs).entries.Perm pairs := by
  induction pairs using List.reverseRecOn with
  | nil => exact .refl _
  | append_singleton pairs pair ih =>
    rw [List.map_append, List.nodup_append] at h
    have hpairs := ih h.1
    have hnew : pair.1 ∉ (ofList pairs).entries.map (·.1) := by
      intro hmem
      exact h.2.2 _ ((hpairs.map (·.1)).mem_iff.1 hmem) _ List.mem_cons_self rfl
    rw [ofList_append]
    refine (insertEntry_perm hnew).trans ((hpairs.cons pair).trans ?_)
    exact (List.perm_append_singleton pair pairs).symm

/-- Entering the entries of a dictionary gives the dictionary again. -/
theorem ofList_entries (d : Dict κ α) : ofList d.entries = d := by
  refine ext ((ofList d.entries).ascending.eq_of_mem_iff d.ascending fun entry => ?_)
  exact (perm_ofList d.ascending.nodup_keys).mem_iff

end OfList

end Dict

end BinDelegation
