import BinDelegation.Json.Reader
import BinDelegation.Proofs.Json.Parts
import Mathlib.Data.List.Forall2

/-!
# What forms denote

A form may spell a value in several ways, by the escapes of its strings and the digits of its
numerals. `Denotes` relates a form to the value that it spells part for part, without doubles. Such
a form is understood as the sorted value, where nesting permits.

The relation stands between the writer and the reader. What is read back from a written text is a
form that spells the value (`exists_readValue`), with its members in the order of the text; what the
form is then understood as has its members sorted, because a reader enters them into a map one by
one (`foldl_insertEntry_sorted`). So writing and reading gives the sorted value and not the value
itself.

Doubles are left out: a document has none, and a numeral that is no integer has no single value
here. The converse facts at the end say what an understood form must have been.
-/

namespace BinDelegation.Json

mutual

/-- A form spells a value. -/
inductive Denotes : Form → Json → Prop where
  | null : Denotes .null .null
  | bool (b : Bool) : Denotes (.bool b) (.bool b)
  | integer {numeral : Numeral} {n : WireInteger} (hnumeral : numeral.integer? = some n) :
      Denotes (.number numeral) (.integer n)
  | string {parts : List StringPart} {s : String} (hparts : textOf? parts = some s) :
      Denotes (.string parts) (.string s)
  | array {forms : List Form} {items : List Json} (hitems : DenotesItems forms items) :
      Denotes (.array forms) (.array items)
  | object {forms : List (List StringPart × Form)} {members : List (String × Json)}
      (hmembers : DenotesMembers forms members) : Denotes (.object forms) (.object members)

/-- Forms spell the items of a list, in order. -/
inductive DenotesItems : List Form → List Json → Prop where
  | nil : DenotesItems [] []
  | cons {form : Form} {item : Json} {forms : List Form} {items : List Json}
      (hitem : Denotes form item) (hrest : DenotesItems forms items) :
      DenotesItems (form :: forms) (item :: items)

/-- Keys and forms spell members, in order. -/
inductive DenotesMembers : List (List StringPart × Form) → List (String × Json) → Prop where
  | nil : DenotesMembers [] []
  | cons {parts : List StringPart} {key : String} {form : Form} {value : Json}
      {forms : List (List StringPart × Form)} {members : List (String × Json)}
      (hkey : textOf? parts = some key) (hvalue : Denotes form value)
      (hrest : DenotesMembers forms members) :
      DenotesMembers ((parts, form) :: forms) ((key, value) :: members)

end

/-- Items are spelled one by one. -/
theorem denotesItems_iff {forms : List Form} {items : List Json} :
    DenotesItems forms items ↔ List.Forall₂ Denotes forms items := by
  induction items generalizing forms with
  | nil =>
    rw [List.forall₂_nil_right_iff]
    exact ⟨fun h => by cases h; rfl, fun h => h ▸ .nil⟩
  | cons item rest ih =>
    rw [List.forall₂_cons_right_iff]
    constructor
    · rintro (_ | ⟨hitem, hrest⟩)
      exact ⟨_, _, hitem, ih.1 hrest, rfl⟩
    · rintro ⟨form, forms, hitem, hrest, rfl⟩
      exact .cons hitem (ih.2 hrest)

/-- Members are spelled one by one, each with its key. -/
theorem denotesMembers_iff {forms : List (List StringPart × Form)}
    {members : List (String × Json)} :
    DenotesMembers forms members ↔ List.Forall₂
      (fun m member => textOf? m.1 = some member.1 ∧ Denotes m.2 member.2) forms members := by
  induction members generalizing forms with
  | nil =>
    rw [List.forall₂_nil_right_iff]
    exact ⟨fun h => by cases h; rfl, fun h => h ▸ .nil⟩
  | cons member rest ih =>
    rw [List.forall₂_cons_right_iff]
    constructor
    · rintro (_ | ⟨hkey, hvalue, hrest⟩)
      exact ⟨_, _, ⟨hkey, hvalue⟩, ih.1 hrest, rfl⟩
    · rintro ⟨m, forms, ⟨hkey, hvalue⟩, hrest, rfl⟩
      exact .cons hkey hvalue (ih.2 hrest)

/-- Values of distinct keys are sorted in whatever way their members are entered. -/
theorem foldl_insertEntry_sorted {members : List (String × Json)}
    (h : (members.map (·.1)).Nodup) :
    (members.map fun member => (member.1, member.2.sorted)).foldl
        (fun entries member => insertEntry member.1 member.2 entries) []
      = sortedMembers members := by
  have hkeys : ((members.map fun member => (member.1, member.2.sorted)).map (·.1)).Nodup := by
    rwa [List.map_map]
  rw [← Dict.entries_ofList]
  refine (Dict.ascending _).eq_of_mem_iff (ascending_sortedMembers members) fun entry => ?_
  rw [(Dict.perm_ofList hkeys).mem_iff, (sortedMembers_perm h).mem_iff]

mutual

/-- A form that spells a value is understood as the value with its members sorted, if no more
containers are open than there is room for. -/
theorem value?_of_denotes : (j : Json) → {form : Form} → {room : Nat} → Denotes form j →
    j.Distinct → j.depth ≤ room → form.value? room = some j.sorted
  | null, _, _, .null, _, _ => rfl
  | bool b, _, _, .bool _, _, _ => rfl
  | integer n, _, _, .integer hnumeral, _, _ => by rw [Form.value?, numberOf?, hnumeral, sorted]
  | string s, _, _, .string hparts, _, _ => by rw [Form.value?, hparts, Option.map_some, sorted]
  | array items, _, room, .array hitems, .array hdistinct, hdepth => by
    rw [depth] at hdepth
    obtain ⟨room, rfl⟩ : ∃ n, room = n + 1 := ⟨room - 1, by omega⟩
    rw [Form.value?, values?_of_denotes items hitems hdistinct
      (itemsDepth_le_iff.1 (Nat.le_of_succ_le_succ hdepth)), Option.map_some, sorted,
      sortedItems_eq_map]
  | object members, _, room, .object hmembers, .object hkeys hdistinct, hdepth => by
    rw [depth] at hdepth
    obtain ⟨room, rfl⟩ : ∃ n, room = n + 1 := ⟨room - 1, by omega⟩
    rw [Form.value?, memberValues?_of_denotes members hmembers hdistinct
      (membersDepth_le_iff.1 (Nat.le_of_succ_le_succ hdepth)), Option.map_some, sorted,
      foldl_insertEntry_sorted hkeys]

/-- Items that are spelled are understood, each as its sorted value. -/
theorem values?_of_denotes : (items : List Json) → {forms : List Form} → {room : Nat} →
    DenotesItems forms items → (∀ item ∈ items, item.Distinct) →
    (∀ item ∈ items, item.depth ≤ room) → Form.values? room forms = some (items.map sorted)
  | [], _, _, .nil, _, _ => rfl
  | item :: rest, _, _, .cons hitem hrest, hdistinct, hdepth => by
    obtain ⟨hd, hds⟩ := List.forall_mem_cons.1 hdistinct
    obtain ⟨hn, hns⟩ := List.forall_mem_cons.1 hdepth
    rw [Form.values?, value?_of_denotes item hitem hd hn, values?_of_denotes rest hrest hds hns,
      List.map_cons]

/-- Members that are spelled are understood, each under its key. -/
theorem memberValues?_of_denotes : (members : List (String × Json)) →
    {forms : List (List StringPart × Form)} → {room : Nat} → DenotesMembers forms members →
    (∀ member ∈ members, member.2.Distinct) → (∀ member ∈ members, member.2.depth ≤ room) →
    Form.memberValues? room forms = some (members.map fun member => (member.1, member.2.sorted))
  | [], _, _, .nil, _, _ => rfl
  | (key, value) :: rest, _, _, .cons hkey hvalue hrest, hdistinct, hdepth => by
    obtain ⟨hd, hds⟩ := List.forall_mem_cons.1 hdistinct
    obtain ⟨hn, hns⟩ := List.forall_mem_cons.1 hdepth
    rw [Form.memberValues?, hkey, value?_of_denotes value hvalue hd hn,
      memberValues?_of_denotes rest hrest hds hns, List.map_cons]

end

/-! ## What is understood -/

/-- Nothing but `null` is understood as `null`. -/
theorem eq_null_of_value? {room : Nat} {form : Form} (h : form.value? room = some null) :
    form = .null := by
  cases form with
  | null => rfl
  | bool b => cases h
  | number n =>
    rw [Form.value?, numberOf?] at h
    split at h
    · cases h
    · obtain ⟨x, -, hx⟩ := Option.map_eq_some_iff.1 h
      cases hx
  | string parts =>
    obtain ⟨s, -, hs⟩ := Option.map_eq_some_iff.1 h
    cases hs
  | array forms =>
    simp only [Form.value?] at h
    split at h
    · cases h
    · obtain ⟨values, -, hvalues⟩ := Option.map_eq_some_iff.1 h
      cases hvalues
  | object forms =>
    simp only [Form.value?] at h
    split at h
    · cases h
    · obtain ⟨values, -, hvalues⟩ := Option.map_eq_some_iff.1 h
      cases hvalues

mutual

/-- What is understood has no more containers open than there was room for. -/
theorem depth_le_of_value? {room : Nat} : {form : Form} → {j : Json} →
    form.value? room = some j → j.depth ≤ room
  | .null, _, h => by cases h; exact Nat.zero_le _
  | .bool _, _, h => by cases h; exact Nat.zero_le _
  | .number n, _, h => by
    rw [Form.value?, numberOf?] at h
    split at h
    · cases h
      exact Nat.zero_le _
    · obtain ⟨x, -, rfl⟩ := Option.map_eq_some_iff.1 h
      exact Nat.zero_le _
  | .string parts, _, h => by
    obtain ⟨s, -, rfl⟩ := Option.map_eq_some_iff.1 h
    exact Nat.zero_le _
  | .array forms, _, h => by
    simp only [Form.value?] at h
    split at h
    · cases h
    · obtain ⟨values, hvalues, rfl⟩ := Option.map_eq_some_iff.1 h
      exact Nat.succ_le_succ (itemsDepth_le_iff.2 (depth_le_of_values? hvalues))
  | .object forms, _, h => by
    simp only [Form.value?] at h
    split at h
    · cases h
    · obtain ⟨values, hvalues, rfl⟩ := Option.map_eq_some_iff.1 h
      -- Members of one key are entered over each other, so what is left is some of what was read.
      rw [← Dict.entries_ofList]
      refine Nat.succ_le_succ (membersDepth_le_iff.2 fun member hmember => ?_)
      exact depth_le_of_memberValues? hvalues member (Dict.mem_of_mem_ofList hmember)

/-- The same for the items of an array. -/
theorem depth_le_of_values? {room : Nat} : {forms : List Form} → {values : List Json} →
    Form.values? room forms = some values → ∀ value ∈ values, value.depth ≤ room
  | [], _, h => by cases h; simp
  | form :: rest, _, h => by
    rw [Form.values?] at h
    split at h
    · next hvalue hvalues =>
      cases h
      exact List.forall_mem_cons.2 ⟨depth_le_of_value? hvalue, depth_le_of_values? hvalues⟩
    · cases h

/-- The same for the members of an object. -/
theorem depth_le_of_memberValues? {room : Nat} : {forms : List (List StringPart × Form)} →
    {values : List (String × Json)} → Form.memberValues? room forms = some values →
    ∀ member ∈ values, member.2.depth ≤ room
  | [], _, h => by cases h; simp
  | (parts, form) :: rest, _, h => by
    rw [Form.memberValues?] at h
    split at h
    · next hkey hvalue hvalues =>
      cases h
      exact List.forall_mem_cons.2 ⟨depth_le_of_value? hvalue, depth_le_of_memberValues? hvalues⟩
    · cases h

end

end BinDelegation.Json
