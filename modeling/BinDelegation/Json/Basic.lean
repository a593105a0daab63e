import BinDelegation.Dict
import BinDelegation.Number.Numeral

/-! # JSON values

The members of an object are kept in the order in which they are to be written. `sorted` puts the
members of every object into ascending key order; a value read from a text has them so already, and
`isSorted` says that each key stands once.
-/

namespace BinDelegation

/-- A JSON value. -/
inductive Json where
  | null
  | bool (b : Bool)
  | integer (n : WireInteger)
  | real (x : Binary64)
  | string (s : String)
  | array (items : List Json)
  | object (members : List (String × Json))
deriving Inhabited

namespace Json

mutual

/-- The same value with the members of every object in ascending key order. -/
def sorted : Json → Json
  | array items => array (sortedItems items)
  | object members => object (sortedMembers members)
  | null => null
  | bool b => bool b
  | integer n => integer n
  | real x => real x
  | string s => string s

/-- Sorts each value of a list. -/
def sortedItems : List Json → List Json
  | [] => []
  | item :: rest => item.sorted :: sortedItems rest

/-- Sorts the members of one object, and each of their values. -/
def sortedMembers : List (String × Json) → List (String × Json)
  | [] => []
  | (key, value) :: rest => insertEntry key value.sorted (sortedMembers rest)

end

/-- Whether the keys of some members ascend strictly. -/
def keysAscend (members : List (String × Json)) : Bool :=
  decide (members.Pairwise fun a b => a.1 < b.1)

mutual

/-- Whether the keys of every object ascend strictly. -/
def isSorted : Json → Bool
  | array items => itemsSorted items
  | object members => keysAscend members && membersSorted members
  | null => true
  | bool _ => true
  | integer _ => true
  | real _ => true
  | string _ => true

/-- Whether every value of a list is sorted. -/
def itemsSorted : List Json → Bool
  | [] => true
  | item :: rest => item.isSorted && itemsSorted rest

/-- Whether the value of every member is sorted. -/
def membersSorted : List (String × Json) → Bool
  | [] => true
  | (_, value) :: rest => value.isSorted && membersSorted rest

end

mutual

/-- How many arrays and objects are open at the deepest place. -/
def depth : Json → Nat
  | array items => itemsDepth items + 1
  | object members => membersDepth members + 1
  | null => 0
  | bool _ => 0
  | integer _ => 0
  | real _ => 0
  | string _ => 0

/-- The greatest depth in a list. -/
def itemsDepth : List Json → Nat
  | [] => 0
  | item :: rest => max item.depth (itemsDepth rest)

/-- The greatest depth among the values of some members. -/
def membersDepth : List (String × Json) → Nat
  | [] => 0
  | (_, value) :: rest => max value.depth (membersDepth rest)

end

mutual

/-- The first double in writing order. -/
def firstReal? : Json → Option Binary64
  | real x => some x
  | array items => firstRealItem? items
  | object members => firstRealMember? members
  | null => none
  | bool _ => none
  | integer _ => none
  | string _ => none

/-- The first double in a list. -/
def firstRealItem? : List Json → Option Binary64
  | [] => none
  | item :: rest =>
    match item.firstReal? with
    | some x => some x
    | none => firstRealItem? rest

/-- The first double among the values of some members. -/
def firstRealMember? : List (String × Json) → Option Binary64
  | [] => none
  | (_, value) :: rest =>
    match value.firstReal? with
    | some x => some x
    | none => firstRealMember? rest

end

theorem membersSorted_insertEntry {key : String} {value : Json} {members : List (String × Json)}
    (hvalue : value.isSorted = true) (hmembers : membersSorted members = true) :
    membersSorted (insertEntry key value members) = true := by
  induction members with
  | nil => simp [insertEntry, membersSorted, hvalue]
  | cons head rest ih =>
    simp only [membersSorted, Bool.and_eq_true] at hmembers
    simp only [insertEntry]
    split
    · simp [membersSorted, hvalue, hmembers]
    · split <;> simp [membersSorted, hvalue, hmembers, ih hmembers.2]

theorem ascending_sortedMembers (members : List (String × Json)) :
    Ascending (sortedMembers members) := by
  induction members with
  | nil => simp [sortedMembers, Ascending]
  | cons head rest ih => exact ascending_insertEntry _ _ ih

mutual

/-- Sorting leaves every object with strictly ascending keys. -/
theorem isSorted_sorted : (j : Json) → j.sorted.isSorted = true
  | array items => by simpa [sorted, isSorted] using itemsSorted_sortedItems items
  | object members => by
    simp only [sorted, isSorted, keysAscend, Bool.and_eq_true, decide_eq_true_eq]
    exact ⟨ascending_sortedMembers members, membersSorted_sortedMembers members⟩
  | null => rfl
  | bool _ => rfl
  | integer _ => rfl
  | real _ => rfl
  | string _ => rfl

theorem itemsSorted_sortedItems : (items : List Json) → itemsSorted (sortedItems items) = true
  | [] => rfl
  | item :: rest => by
    simp [sortedItems, itemsSorted, isSorted_sorted item, itemsSorted_sortedItems rest]

theorem membersSorted_sortedMembers :
    (members : List (String × Json)) → membersSorted (sortedMembers members) = true
  | [] => rfl
  | (_, value) :: rest =>
    membersSorted_insertEntry (isSorted_sorted value) (membersSorted_sortedMembers rest)

end

/-- A natural number as a value. -/
def natural (n : UInt64) : Json := integer (.ofUInt64 n)

/-- A list of texts as a value. -/
def strings (texts : List String) : Json := array (texts.map string)

/-- A dictionary as an object. -/
def ofDict {α : Type} (value : α → Json) (d : Dict String α) : Json :=
  object (d.entries.map fun entry => (entry.1, value entry.2))

end Json

end BinDelegation
