import BinDelegation.Proofs.Json.Sorting

/-!
# The parts of a value

Depth and doubles of a container are those of its parts. Sorting loses no member if the keys of
every object are distinct, as they are in documents and in values that were read.

The functions on values are mutual recursions on values, items and members. Each `…_iff` lemma here
replaces the two helper recursions by a condition on all items or all members, so that later proofs
go by `∀ item ∈ items` and need no mutual induction of their own.

`Distinct` is the condition under which a list of members may be taken for a map: no object has two
members of one key. Sorted values satisfy it (`distinct_of_isSorted`), and under it sorting is a
permutation of the members (`sortedMembers_perm`).
-/

namespace BinDelegation

namespace Json

/-- Items are no deeper than a bound if none of them is. -/
theorem itemsDepth_le_iff {items : List Json} {n : Nat} :
    itemsDepth items ≤ n ↔ ∀ item ∈ items, item.depth ≤ n := by
  induction items with
  | nil => simp [itemsDepth]
  | cons item rest ih => rw [itemsDepth, Nat.max_le, ih, List.forall_mem_cons]

/-- Members are no deeper than a bound if none of their values is. -/
theorem membersDepth_le_iff {members : List (String × Json)} {n : Nat} :
    membersDepth members ≤ n ↔ ∀ member ∈ members, member.2.depth ≤ n := by
  induction members with
  | nil => simp [membersDepth]
  | cons member rest ih =>
    obtain ⟨key, value⟩ := member
    rw [membersDepth, Nat.max_le, ih, List.forall_mem_cons]

/-- Items are free of doubles if each of them is. -/
theorem firstRealItem?_eq_none_iff {items : List Json} :
    firstRealItem? items = none ↔ ∀ item ∈ items, item.firstReal? = none := by
  induction items with
  | nil => simp [firstRealItem?]
  | cons item rest ih =>
    rw [firstRealItem?, List.forall_mem_cons, ← ih]
    cases item.firstReal? <;> simp

/-- Members are free of doubles if each of their values is. -/
theorem firstRealMember?_eq_none_iff {members : List (String × Json)} :
    firstRealMember? members = none ↔ ∀ member ∈ members, member.2.firstReal? = none := by
  induction members with
  | nil => simp [firstRealMember?]
  | cons member rest ih =>
    obtain ⟨key, value⟩ := member
    rw [firstRealMember?, List.forall_mem_cons, ← ih]
    cases value.firstReal? <;> simp

@[simp] theorem firstReal?_integer (n : WireInteger) : (integer n).firstReal? = none := rfl

theorem firstReal?_array_eq_none_iff {items : List Json} :
    (array items).firstReal? = none ↔ ∀ item ∈ items, item.firstReal? = none := by
  rw [firstReal?, firstRealItem?_eq_none_iff]

theorem firstReal?_object_eq_none_iff {members : List (String × Json)} :
    (object members).firstReal? = none ↔ ∀ member ∈ members, member.2.firstReal? = none := by
  rw [firstReal?, firstRealMember?_eq_none_iff]

/-- No object has two members of one key. -/
inductive Distinct : Json → Prop where
  | null : Distinct null
  | bool (b : Bool) : Distinct (bool b)
  | integer (n : WireInteger) : Distinct (integer n)
  | real (x : Binary64) : Distinct (real x)
  | string (s : String) : Distinct (string s)
  | array {items : List Json} (hitems : ∀ item ∈ items, Distinct item) : Distinct (array items)
  | object {members : List (String × Json)} (hkeys : (members.map (·.1)).Nodup)
      (hvalues : ∀ member ∈ members, Distinct member.2) : Distinct (object members)

/-- Sorting keeps all members of distinct keys. -/
theorem sortedMembers_perm {members : List (String × Json)} (h : (members.map (·.1)).Nodup) :
    (sortedMembers members).Perm (members.map fun member => (member.1, member.2.sorted)) := by
  induction members with
  | nil => exact .refl _
  | cons member rest ih =>
    obtain ⟨key, value⟩ := member
    rw [List.map_cons, List.nodup_cons] at h
    have hrest := ih h.2
    have hkeys : ((sortedMembers rest).map (·.1)).Perm (rest.map (·.1)) := by
      have := hrest.map (·.1)
      rwa [List.map_map] at this
    rw [sortedMembers, List.map_cons]
    -- The first member is entered into the sorted rest, in which its key is not yet there.
    exact (insertEntry_perm fun hmem => h.1 (hkeys.mem_iff.1 hmem)).trans (hrest.cons _)

/-- Sorting neither adds a double nor loses one. -/
theorem firstReal?_sorted (j : Json) (h : j.Distinct) :
    j.sorted.firstReal? = none ↔ j.firstReal? = none := by
  induction h with
  | @array items _ ih =>
    rw [sorted, sortedItems_eq_map, firstReal?_array_eq_none_iff, firstReal?_array_eq_none_iff,
      List.forall_mem_map]
    exact forall₂_congr ih
  | @object members hkeys _ ih =>
    rw [sorted, firstReal?_object_eq_none_iff, firstReal?_object_eq_none_iff]
    simp only [(sortedMembers_perm hkeys).mem_iff, List.forall_mem_map]
    exact forall₂_congr ih
  | null | bool _ | integer _ | real _ | string _ => exact Iff.rfl

/-- Sorting makes no value deeper. -/
theorem depth_sorted_le {j : Json} (h : j.Distinct) : j.sorted.depth ≤ j.depth := by
  induction h with
  | @array items _ ih =>
    rw [sorted, sortedItems_eq_map, depth, depth, Nat.add_le_add_iff_right, itemsDepth_le_iff,
      List.forall_mem_map]
    intro item hitem
    exact Nat.le_trans (ih item hitem) (itemsDepth_le_iff.1 (Nat.le_refl _) item hitem)
  | @object members hkeys _ ih =>
    rw [sorted, depth, depth, Nat.add_le_add_iff_right, membersDepth_le_iff]
    simp only [(sortedMembers_perm hkeys).mem_iff, List.forall_mem_map]
    intro member hmember
    exact Nat.le_trans (ih member hmember)
      (membersDepth_le_iff.1 (Nat.le_refl _) member hmember)
  | null | bool _ | integer _ | real _ | string _ => exact Nat.le_refl _

mutual

/-- The keys of sorted objects are distinct. -/
theorem distinct_of_isSorted : (j : Json) → j.isSorted = true → j.Distinct
  | array items, h => .array (distinct_of_itemsSorted items h)
  | object members, h => by
    rw [isSorted, Bool.and_eq_true, keysAscend, decide_eq_true_eq] at h
    exact .object (Ascending.nodup_keys h.1) (distinct_of_membersSorted members h.2)
  | null, _ => .null
  | bool b, _ => .bool b
  | integer n, _ => .integer n
  | real x, _ => .real x
  | string s, _ => .string s

/-- The same for the items of an array. -/
theorem distinct_of_itemsSorted : (items : List Json) → itemsSorted items = true →
    ∀ item ∈ items, item.Distinct
  | [], _ => by simp
  | item :: rest, h => by
    rw [itemsSorted, Bool.and_eq_true] at h
    exact List.forall_mem_cons.2
      ⟨distinct_of_isSorted item h.1, distinct_of_itemsSorted rest h.2⟩

/-- The same for the members of an object. -/
theorem distinct_of_membersSorted : (members : List (String × Json)) →
    membersSorted members = true → ∀ member ∈ members, member.2.Distinct
  | [], _ => by simp
  | (key, value) :: rest, h => by
    rw [membersSorted, Bool.and_eq_true] at h
    exact List.forall_mem_cons.2
      ⟨distinct_of_isSorted value h.1, distinct_of_membersSorted rest h.2⟩

end

end Json

end BinDelegation
