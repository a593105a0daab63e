import BinDelegation.Json.Basic
import BinDelegation.Proofs.Dict.Lookup

/-!
# Sorting members

Sorting changes the order of members and nothing that a look-up sees: of the members with one key
the first counts, before and after. A value that is sorted already stays as it is.

Canonical bytes are written from the sorted value, so two values may have the same bytes without
being equal. The second part says how much is lost. If an encoding of some type stays injective when
its results are sorted, so do the encodings of lists and dictionaries over it
(`sorted_array_injective`, `sorted_ofDict_injective`), and that of a record is taken apart field by
field (`member_of_sorted_eq`).
-/

namespace BinDelegation

/-- An entry below all others goes to the front. -/
theorem insertEntry_of_lt {κ α : Type} [LT κ] [DecidableLT κ] [DecidableEq κ] {k : κ} {v : α}
    {entries : List (κ × α)} (h : ∀ entry ∈ entries, k < entry.1) :
    insertEntry k v entries = (k, v) :: entries := by
  cases entries with
  | nil => rfl
  | cons head rest => rw [insertEntry, if_pos (h head List.mem_cons_self)]

namespace Json

/-- Looking up a key after sorting finds the sorted value of its first member. -/
theorem lookup_sortedMembers (members : List (String × Json)) (key : String) :
    (sortedMembers members).lookup key = (members.lookup key).map sorted := by
  induction members with
  | nil => rfl
  | cons head rest ih =>
    rw [sortedMembers, lookup_insertEntry, lookup_cons_ite, ih]
    split <;> rfl

/-- Items are sorted one by one and keep their places. -/
theorem sortedItems_eq_map (items : List Json) : sortedItems items = items.map sorted := by
  induction items with
  | nil => rfl
  | cons item rest ih => rw [sortedItems, ih, List.map_cons]

mutual

/-- A sorted value is its own sorted form. -/
theorem sorted_of_isSorted : (j : Json) → j.isSorted = true → j.sorted = j
  | array items, h => by
    rw [isSorted] at h
    rw [sorted, sortedItems_of_itemsSorted items h]
  | object members, h => by
    rw [isSorted, Bool.and_eq_true, keysAscend, decide_eq_true_eq] at h
    rw [sorted, sortedMembers_of_membersSorted members h.1 h.2]
  | null, _ => rfl
  | bool _, _ => rfl
  | integer _, _ => rfl
  | real _, _ => rfl
  | string _, _ => rfl

/-- Sorted items stay as they are. -/
theorem sortedItems_of_itemsSorted : (items : List Json) → itemsSorted items = true →
    sortedItems items = items
  | [], _ => rfl
  | item :: rest, h => by
    rw [itemsSorted, Bool.and_eq_true] at h
    rw [sortedItems, sorted_of_isSorted item h.1, sortedItems_of_itemsSorted rest h.2]

/-- Sorted members stay as they are. -/
theorem sortedMembers_of_membersSorted : (members : List (String × Json)) → Ascending members →
    membersSorted members = true → sortedMembers members = members
  | [], _, _ => rfl
  | (key, value) :: rest, hascending, h => by
    -- The first key is below all others, so it is entered in front.
    obtain ⟨hkey, hrest⟩ := List.pairwise_cons.1 hascending
    rw [membersSorted, Bool.and_eq_true] at h
    rw [sortedMembers, sorted_of_isSorted value h.1, sortedMembers_of_membersSorted rest hrest h.2,
      insertEntry_of_lt hkey]

end

theorem sorted_sorted (j : Json) : j.sorted.sorted = j.sorted :=
  sorted_of_isSorted j.sorted (isSorted_sorted j)

/-! ## Encodings that sorting keeps apart -/

/-- Objects that are sorted to the same value have the same first members. -/
theorem lookup_of_sorted_eq {members members' : List (String × Json)}
    (h : (object members).sorted = (object members').sorted) (key : String) :
    (members.lookup key).map sorted = (members'.lookup key).map sorted := by
  rw [sorted, sorted, object.injEq] at h
  rw [← lookup_sortedMembers, ← lookup_sortedMembers, h]

/-- Objects that are sorted to the same value have equal members up to sorting. -/
theorem member_of_sorted_eq {members members' : List (String × Json)}
    (h : (object members).sorted = (object members').sorted) (key : String) {value value' : Json}
    (hvalue : members.lookup key = some value) (hvalue' : members'.lookup key = some value') :
    value.sorted = value'.sorted := by
  have hlookup := lookup_of_sorted_eq h key
  rwa [hvalue, hvalue', Option.map_some, Option.map_some, Option.some.injEq] at hlookup

variable {α : Type} {value : α → Json}

/-- Looking up in a map of entries is looking up the entry. -/
theorem lookup_map_entries (entries : List (String × α)) (key : String) :
    (entries.map fun entry => (entry.1, value entry.2)).lookup key
      = (entries.lookup key).map value := by
  induction entries with
  | nil => rfl
  | cons head rest ih =>
    rw [List.map_cons, lookup_cons_ite, lookup_cons_ite, ih]
    split <;> rfl

/-- Dictionaries are kept apart if their values are. -/
theorem sorted_ofDict_injective (hvalue : Function.Injective fun a => (value a).sorted) :
    Function.Injective fun d : Dict String α => (ofDict value d).sorted := by
  intro d e h
  refine Dict.ext_get? fun key => Option.map_injective hvalue ?_
  have hlookup := lookup_of_sorted_eq h key
  rwa [lookup_map_entries, lookup_map_entries, Option.map_map, Option.map_map] at hlookup

/-- Lists are kept apart if their items are. -/
theorem sorted_array_injective (hvalue : Function.Injective fun a => (value a).sorted) :
    Function.Injective fun items : List α => (array (items.map value)).sorted := by
  intro xs ys h
  simp only [sorted, sortedItems_eq_map, array.injEq, List.map_map] at h
  exact List.map_injective_iff.2 hvalue h

theorem sorted_string_injective : Function.Injective fun s : String => (string s).sorted :=
  fun _ _ h => string.inj h

theorem natural_injective : Function.Injective natural := by
  intro m n h
  have hvalue : (m.toNat : Int) = n.toNat := congrArg WireInteger.value (integer.inj h)
  exact UInt64.toNat_inj.1 (Int.ofNat_inj.1 hvalue)

end Json

end BinDelegation
