import BinDelegation.Json.Form

/-! # Taking written forms apart

How typed values are understood from a form. A record is written as an object, whose other members
are skipped and whose own must not be repeated, or as an array of its fields in order, of which only
the last may be left out where they are optional. Lists are arrays, dictionaries are objects whose
last value of a key stays. Every container that is entered takes one from the room for nesting.
-/

namespace BinDelegation.Json.Form

/-- What understands a form, with room for so many open containers. -/
abbrev Decoder (α : Type) := (room : Nat) → Form → Option α

/-- The text of a string. -/
def text? : Form → Option String
  | string parts => textOf? parts
  | _ => none

/-- The truth value. -/
def flag? : Form → Option Bool
  | bool b => some b
  | _ => none

/-- The natural number that a numeral denotes. -/
def natural? : Form → Option Nat
  | number n =>
    match n.integer? with
    | some i => if i.value < 0 then none else some i.value.toNat
    | none => none
  | _ => none

/-- The natural number below `2 ^ 64`. -/
def uint64? (form : Form) : Option UInt64 := form.natural?.map UInt64.ofNat

/-- The natural number, if it is below `2 ^ 32`. -/
def uint32? (form : Form) : Option UInt32 :=
  match form.natural? with
  | some n => if n < UInt32.size then some (UInt32.ofNat n) else none
  | none => none

/-- The items of an array. -/
def list? {α : Type} (item : Decoder α) : Decoder (List α)
  | room + 1, array items => items.mapM (item room)
  | _, _ => none

/-- The members of an object as a dictionary. -/
def dict? {α : Type} (value : Decoder α) : Decoder (Dict String α)
  | room + 1, object members => do
    let entries ← members.mapM fun m => do return (← textOf? m.1, ← value room m.2)
    return Dict.ofList entries
  | _, _ => none

/-- The member of a name, `some none` if there is none. A repeated name has no member. -/
def member? (members : List (String × Form)) (name : String) : Option (Option Form) :=
  match members.filter (·.1 = name) with
  | [] => some none
  | [m] => some (some m.2)
  | _ => none

/-- The fields of a record, by their names in order, `none` where one is missing. -/
def fields? (names : List String) : Form → Option (List (Option Form))
  | array items =>
    if items.length ≤ names.length then
      some (items.map some ++ List.replicate (names.length - items.length) none)
    else none
  | object members => do
    let named ← members.mapM fun m => do return (← textOf? m.1, m.2)
    names.mapM (member? named)
  | _ => none

/-- A record of required fields, understood from their forms inside the record. -/
def record? {α : Type} (names : List String) (build : (room : Nat) → List Form → Option α) :
    Decoder α
  | 0, _ => none
  | room + 1, form => do
    let found ← form.fields? names
    let required ← found.mapM id
    build room required

end BinDelegation.Json.Form
