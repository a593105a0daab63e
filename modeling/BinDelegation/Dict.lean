/-! # Sorted dictionaries

A dictionary is its list of entries in strictly ascending key order, so two dictionaries with the
same entries are equal, and writing one down is deterministic. Strings are ordered by code point,
which is also the order of their UTF-8 bytes.
-/

namespace BinDelegation

variable {κ α : Type} [LT κ]

/-- Puts an entry at its place in an ascending list, over an entry of the same key. -/
def insertEntry [DecidableLT κ] [DecidableEq κ] (k : κ) (v : α) : List (κ × α) → List (κ × α)
  | [] => [(k, v)]
  | entry :: rest =>
    if k < entry.1 then (k, v) :: entry :: rest
    else if k = entry.1 then (k, v) :: rest
    else entry :: insertEntry k v rest

/-- The keys of an entry list ascend strictly. -/
def Ascending (entries : List (κ × α)) : Prop := entries.Pairwise (·.1 < ·.1)

theorem mem_insertEntry [DecidableLT κ] [DecidableEq κ] {k : κ} {v : α} {entry : κ × α}
    {entries : List (κ × α)} (h : entry ∈ insertEntry k v entries) :
    entry = (k, v) ∨ entry ∈ entries := by
  induction entries with
  | nil => simpa [insertEntry] using h
  | cons head rest ih =>
    simp only [insertEntry] at h
    split at h
    · simpa using h
    · split at h
      · rcases List.mem_cons.1 h with h | h
        · exact .inl h
        · exact .inr (List.mem_cons_of_mem _ h)
      · rcases List.mem_cons.1 h with h | h
        · exact .inr (h ▸ List.mem_cons_self)
        · exact (ih h).imp_right (List.mem_cons_of_mem _)

theorem ascending_insertEntry [DecidableLT κ] [DecidableEq κ] [LE κ] [Std.IsLinearOrder κ]
    [Std.LawfulOrderLT κ] (k : κ) (v : α) {entries : List (κ × α)} (h : Ascending entries) :
    Ascending (insertEntry k v entries) := by
  induction entries with
  | nil => simp [insertEntry, Ascending]
  | cons head rest ih =>
    obtain ⟨hhead, hrest⟩ := List.pairwise_cons.1 h
    simp only [insertEntry]
    split
    · next hk =>
      refine List.pairwise_cons.2 ⟨fun entry hentry => ?_, h⟩
      rcases List.mem_cons.1 hentry with rfl | hentry
      · exact hk
      · exact Std.lt_trans hk (hhead entry hentry)
    · next hk =>
      split
      · next heq => exact List.pairwise_cons.2 ⟨fun entry hentry => heq ▸ hhead entry hentry, hrest⟩
      · next hne =>
        refine List.pairwise_cons.2 ⟨fun entry hentry => ?_, ih hrest⟩
        rcases mem_insertEntry hentry with rfl | hentry
        · exact Std.lt_of_le_of_ne (Std.not_lt.1 hk) (Ne.symm hne)
        · exact hhead entry hentry

/-- A finite map from keys to values. -/
structure Dict (κ : Type) [LT κ] (α : Type) where
  /-- The entries, by ascending key. -/
  entries : List (κ × α)
  ascending : Ascending entries := by simp [BinDelegation.Ascending]

namespace Dict

theorem ext {d e : Dict κ α} (h : d.entries = e.entries) : d = e := by
  cases d; cases e; cases h; rfl

instance [DecidableEq κ] [DecidableEq α] : DecidableEq (Dict κ α) := fun d e =>
  decidable_of_iff (d.entries = e.entries) ⟨ext, fun h => h ▸ rfl⟩

/-- The dictionary without entries. -/
def empty : Dict κ α where
  entries := []

instance : Inhabited (Dict κ α) := ⟨empty⟩

/-- The value under a key. -/
def get? [DecidableEq κ] (d : Dict κ α) (k : κ) : Option α := d.entries.lookup k

/-- Whether a key has a value. -/
def contains [DecidableEq κ] (d : Dict κ α) (k : κ) : Bool := (d.get? k).isSome

/-- The keys in ascending order. -/
def keys (d : Dict κ α) : List κ := d.entries.map (·.1)

/-- The number of entries. -/
def size (d : Dict κ α) : Nat := d.entries.length

/-- The dictionary in which `k` has the value `v` and all else is as before. -/
def insert [DecidableLT κ] [DecidableEq κ] [LE κ] [Std.IsLinearOrder κ] [Std.LawfulOrderLT κ]
    (d : Dict κ α) (k : κ) (v : α) : Dict κ α where
  entries := insertEntry k v d.entries
  ascending := ascending_insertEntry k v d.ascending

/-- The dictionary in which `k` has no value and all else is as before. -/
def erase [DecidableEq κ] (d : Dict κ α) (k : κ) : Dict κ α where
  entries := d.entries.filter (·.1 ≠ k)
  ascending := d.ascending.filter _

/-- The dictionary of one entry. -/
def singleton (k : κ) (v : α) : Dict κ α where
  entries := [(k, v)]

/-- Enters pairs one after the other, so that the last value of a key stays. -/
def ofList [DecidableLT κ] [DecidableEq κ] [LE κ] [Std.IsLinearOrder κ] [Std.LawfulOrderLT κ]
    (pairs : List (κ × α)) : Dict κ α :=
  pairs.foldl (fun d entry => d.insert entry.1 entry.2) empty

end Dict

end BinDelegation
