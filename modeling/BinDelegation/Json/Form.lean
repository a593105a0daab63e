import BinDelegation.Json.Basic

/-! # Written forms

What the grammar of JSON makes of a text before anything is understood: strings as the parts they
are written with, numbers as numerals, members in their order with repetitions. Understanding a form
can still fail, on a lone surrogate, a number out of range or too deep a nesting. Parts of a text
that a reader skips are never understood, only well formed.
-/

namespace BinDelegation.Json

/-- A part of a written string. -/
inductive StringPart where
  /-- A character, written as it is or by a one-letter escape. -/
  | char (c : Char)
  /-- A 16-bit unit, written by its four digits. -/
  | unit (n : Nat)
deriving DecidableEq, Repr

/-- A well-formed text as the grammar sees it. -/
inductive Form where
  | null
  | bool (b : Bool)
  | number (n : Numeral)
  | string (parts : List StringPart)
  | array (items : List Form)
  | object (members : List (List StringPart × Form))

/-- Whether a unit is the first half of a pair. -/
def isHighSurrogate (n : Nat) : Bool := 0xd800 ≤ n && n ≤ 0xdbff

/-- Whether a unit is the second half of a pair. -/
def isLowSurrogate (n : Nat) : Bool := 0xdc00 ≤ n && n ≤ 0xdfff

/-- The character of a pair of units. -/
def joinSurrogates (high low : Nat) : Char :=
  Char.ofNat (0x10000 + (high - 0xd800) * 0x400 + (low - 0xdc00))

/-- The characters that parts denote after the first half of a pair, if one is pending. Halves occur
in pairs only, both written as units. -/
def charsAfter : (pending : Option Nat) → List StringPart → Option (List Char)
  | none, [] => some []
  | none, .char c :: rest => (charsAfter none rest).map (c :: ·)
  | none, .unit n :: rest =>
    if isHighSurrogate n then charsAfter (some n) rest
    else if isLowSurrogate n then none
    else (charsAfter none rest).map (Char.ofNat n :: ·)
  | some high, .unit n :: rest =>
    if isLowSurrogate n then (charsAfter none rest).map (joinSurrogates high n :: ·) else none
  | some _, _ => none

/-- The text that the parts of a string denote. -/
def textOf? (parts : List StringPart) : Option String :=
  (charsAfter none parts).map String.ofList

/-- The number that a numeral denotes. -/
def numberOf? (n : Numeral) : Option Json :=
  match n.integer? with
  | some i => some (integer i)
  | none => n.double?.map real

namespace Form

mutual

/-- The value of a form, in which at most `room` containers may be open at once. A key that is
repeated has the last of its values. -/
def value? (room : Nat) : Form → Option Json
  | null => some .null
  | bool b => some (.bool b)
  | number n => numberOf? n
  | string parts => (textOf? parts).map Json.string
  | array items =>
    match room with
    | 0 => none
    | room + 1 => (values? room items).map Json.array
  | object members =>
    match room with
    | 0 => none
    | room + 1 =>
      (memberValues? room members).map fun members =>
        Json.object (members.foldl (fun sorted m => insertEntry m.1 m.2 sorted) [])

/-- The values of the items of a list. -/
def values? (room : Nat) : List Form → Option (List Json)
  | [] => some []
  | item :: rest =>
    match item.value? room, values? room rest with
    | some value, some values => some (value :: values)
    | _, _ => none

/-- The keys and values of the members of an object. -/
def memberValues? (room : Nat) : List (List StringPart × Form) → Option (List (String × Json))
  | [] => some []
  | (key, form) :: rest =>
    match textOf? key, form.value? room, memberValues? room rest with
    | some key, some value, some members => some ((key, value) :: members)
    | _, _, _ => none

end

theorem sorted_foldl_insertEntry {members sorted : List (String × Json)}
    (hmembers : membersSorted members = true) (hascend : Ascending sorted)
    (hsorted : membersSorted sorted = true) :
    keysAscend (members.foldl (fun sorted m => insertEntry m.1 m.2 sorted) sorted) = true ∧
      membersSorted (members.foldl (fun sorted m => insertEntry m.1 m.2 sorted) sorted) = true := by
  induction members generalizing sorted with
  | nil => exact ⟨decide_eq_true hascend, hsorted⟩
  | cons head rest ih =>
    simp only [membersSorted, Bool.and_eq_true] at hmembers
    exact ih hmembers.2 (ascending_insertEntry _ _ hascend)
      (membersSorted_insertEntry hmembers.1 hsorted)

mutual

/-- Understood values have strictly ascending keys in every object. -/
theorem isSorted_of_value? {room : Nat} :
    {form : Form} → {j : Json} → form.value? room = some j → j.isSorted = true
  | null, _, h => by cases h; rfl
  | bool _, _, h => by cases h; rfl
  | number n, _, h => by
    simp only [value?, numberOf?] at h
    split at h
    · cases h; rfl
    · obtain ⟨x, -, rfl⟩ := Option.map_eq_some_iff.1 h
      rfl
  | string parts, _, h => by
    obtain ⟨s, -, rfl⟩ := Option.map_eq_some_iff.1 h
    rfl
  | array items, _, h => by
    simp only [value?] at h
    split at h
    · cases h
    · obtain ⟨values, hvalues, rfl⟩ := Option.map_eq_some_iff.1 h
      exact itemsSorted_of_values? hvalues
  | object members, _, h => by
    simp only [value?] at h
    split at h
    · cases h
    · obtain ⟨values, hvalues, rfl⟩ := Option.map_eq_some_iff.1 h
      simpa [isSorted] using sorted_foldl_insertEntry (membersSorted_of_memberValues? hvalues)
        List.Pairwise.nil rfl

theorem itemsSorted_of_values? {room : Nat} : {items : List Form} → {values : List Json} →
    values? room items = some values → itemsSorted values = true
  | [], _, h => by cases h; rfl
  | item :: rest, _, h => by
    simp only [values?] at h
    split at h
    · next hvalue hvalues =>
      cases h
      simp [itemsSorted, isSorted_of_value? hvalue, itemsSorted_of_values? hvalues]
    · cases h

theorem membersSorted_of_memberValues? {room : Nat} : {members : List (List StringPart × Form)} →
    {values : List (String × Json)} → memberValues? room members = some values →
    membersSorted values = true
  | [], _, h => by cases h; rfl
  | (key, form) :: rest, _, h => by
    simp only [memberValues?] at h
    split at h
    · next hkey hvalue hvalues =>
      cases h
      simp [membersSorted, isSorted_of_value? hvalue, membersSorted_of_memberValues? hvalues]
    · cases h

end

end Form

end BinDelegation.Json
