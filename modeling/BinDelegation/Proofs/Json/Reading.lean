import BinDelegation.Proofs.Json.Tokens
import BinDelegation.Proofs.Json.Unambiguous

/-!
# Reading what was written

A value without doubles is read back from its text, in any style whose escapes the reader
understands and before any text that cannot go on with a numeral. The form that is read spells the
value. The proof follows the writer; blanks that the layout puts in front of items are skipped.

The reader recurses on fuel and consumes characters, the writer recurses on the value. The main
theorem `exists_readValue` is an induction on the value, with one case for each constructor. Its
hypotheses are what a case needs of its surroundings: fuel for the characters of the text, strings
that the style reads back, and a rest that ends a numeral. Each container hands the last one on,
because a comma, a bracket or a blank follows everything in it (`numeralEnds_writtenItems`).

The first part gives the reader as one equation for each thing that can come next, so that the
induction never opens its definition.
-/

namespace BinDelegation.Json

variable {fuel level : Nat} {cs cs' rest tail : List Char} {style : Style}

/-! ## One step of the reader -/

theorem readValue_blanks (fuel : Nat) {blanks : List Char} (cs : List Char)
    (h : ∀ c ∈ blanks, isBlank c = true) : readValue fuel (blanks ++ cs) = readValue fuel cs := by
  cases fuel with
  | zero => simp only [readValue]
  | succ fuel => simp only [readValue, skipBlanks_append h]

theorem readMember_blanks (fuel : Nat) {blanks : List Char} (cs : List Char)
    (h : ∀ c ∈ blanks, isBlank c = true) : readMember fuel (blanks ++ cs) = readMember fuel cs := by
  cases fuel with
  | zero => simp only [readMember]
  | succ fuel => simp only [readMember, readKey, skipBlanks_append h]

/-- What opens no container is read as a scalar. -/
theorem readValue_scalar {form : Form} (h : readScalar cs = some (form, rest))
    (hskip : skipBlanks cs = cs) (harray : ∀ r, cs ≠ '[' :: r) (hobject : ∀ r, cs ≠ '\x7b' :: r) :
    readValue (fuel + 1) cs = some (form, rest) := by
  rw [readValue, hskip]
  split
  · exact absurd rfl (harray _)
  · exact absurd rfl (hobject _)
  · exact h

/-- An array that is not empty is read as its first item and the others. -/
theorem readValue_array (hopen : ∀ r, skipBlanks cs ≠ ']' :: r) :
    readValue (fuel + 1) ('[' :: cs) = (readValue fuel (skipBlanks cs)).bind fun item =>
      (readItems fuel item.2).map fun read => (.array (item.1 :: read.1), read.2) := by
  rw [readValue, skipBlanks_cons (by decide)]
  simp only
  generalize skipBlanks cs = opened at hopen ⊢
  cases readValue fuel opened with
  | none => simp only [Option.bind_none]
  | some item => simp only [Option.bind_some]

/-- An object that is not empty is read as its first member and the others. -/
theorem readValue_object (hopen : ∀ r, skipBlanks cs ≠ '\x7d' :: r) :
    readValue (fuel + 1) ('\x7b' :: cs) = (readMember fuel (skipBlanks cs)).bind fun member =>
      (readMembers fuel member.2).map fun read => (.object (member.1 :: read.1), read.2) := by
  rw [readValue, skipBlanks_cons (by decide)]
  simp only
  generalize skipBlanks cs = opened at hopen ⊢
  cases readMember fuel opened with
  | none => simp only [Option.bind_none]
  | some member => simp only [Option.bind_some]

/-- A member is a key, a colon and a value. -/
theorem readMember_key {parts : List StringPart} (hkey : readString cs = some (parts, ':' :: cs')) :
    readMember (fuel + 1) ('"' :: cs)
      = (readValue fuel cs').map fun read => ((parts, read.1), read.2) := by
  rw [readMember, readKey, skipBlanks_cons (by decide)]
  simp only [hkey]
  rw [skipBlanks_cons (by decide)]
  rfl

/-- A closing bracket ends the items. -/
theorem readItems_close (h : skipBlanks cs = ']' :: rest) :
    readItems (fuel + 1) cs = some ([], rest) := by
  simp only [readItems, h]

/-- A comma is followed by another item. -/
theorem readItems_comma : readItems (fuel + 1) (',' :: cs) = (readValue fuel cs).bind fun item =>
    (readItems fuel item.2).map fun read => (item.1 :: read.1, read.2) := by
  rw [readItems, skipBlanks_cons (by decide)]
  cases h : readValue fuel cs with
  | none => simp only [h, Option.bind_none]
  | some item => simp only [h, Option.bind_some]

/-- A closing brace ends the members. -/
theorem readMembers_close (h : skipBlanks cs = '\x7d' :: rest) :
    readMembers (fuel + 1) cs = some ([], rest) := by
  simp only [readMembers, h]

/-- A comma is followed by another member. -/
theorem readMembers_comma :
    readMembers (fuel + 1) (',' :: cs) = (readMember fuel cs).bind fun member =>
      (readMembers fuel member.2).map fun read => (member.1 :: read.1, read.2) := by
  rw [readMembers, skipBlanks_cons (by decide)]
  cases h : readMember fuel cs with
  | none => simp only [h, Option.bind_none]
  | some member => simp only [h, Option.bind_some]

/-! ## Where written parts begin and end -/

/-- The layout before a closing bracket is skipped. -/
theorem skipBlanks_close (layout : Layout) (level : Nat) {c : Char} (rest : List Char)
    (hc : isBlank c = false) :
    skipBlanks ((layout.lead level).toList ++ c :: rest) = c :: rest := by
  rw [skipBlanks_lead, skipBlanks_cons hc]

/-- The text of a value begins with neither a blank nor a closing bracket. -/
theorem written_opens (style : Style) (level : Nat) {j : Json} (rest : List Char)
    (h : j.firstReal? = none) :
    skipBlanks (written style level j ++ rest) = written style level j ++ rest ∧
      ∀ tail, written style level j ++ rest ≠ ']' :: tail := by
  obtain ⟨c, text, hwritten, hc⟩ := exists_cons_written level h
  have hmark : j.mark ≠ ' ' ∧ j.mark ≠ '\n' ∧ j.mark ≠ '\t' ∧ j.mark ≠ '\r' ∧ j.mark ≠ ']' := by
    cases j with
    | bool b => cases b <;> decide
    | _ => simp only [mark]; decide
  rw [hwritten, List.cons_append]
  refine ⟨skipBlanks_cons ?_, ?_⟩
  · rw [Bool.eq_false_iff]
    intro hblank
    simp only [isBlank, Bool.or_eq_true, beq_iff_eq] at hblank
    rcases hblank with ((rfl | rfl) | rfl) | rfl
    · exact hmark.1 hc.symm
    · exact hmark.2.1 hc.symm
    · exact hmark.2.2.1 hc.symm
    · exact hmark.2.2.2.1 hc.symm
  · intro tail heq
    obtain ⟨rfl, -⟩ := List.cons.inj heq
    exact hmark.2.2.2.2 hc.symm

/-- Behind an item come a comma or the bracket, and so no numeral goes on. -/
theorem numeralEnds_writtenItems (style : Style) (level : Nat) (items : List Json)
    (h : skipBlanks tail = ']' :: rest) :
    NumeralEnds (writtenItems style level items ++ tail) := by
  cases items with
  | nil => exact numeralEnds_of_skipBlanks h (by decide)
  | cons item items =>
    rw [writtenItems_append]
    exact numeralEnds_cons (by decide)

/-- Behind the value of a member come a comma or the brace, and so no numeral goes on. -/
theorem numeralEnds_writtenMembers (style : Style) (level : Nat) (members : List (String × Json))
    (h : skipBlanks tail = '\x7d' :: rest) :
    NumeralEnds (writtenMembers style level members ++ tail) := by
  cases members with
  | nil => exact numeralEnds_of_skipBlanks h (by decide)
  | cons member members =>
    rw [writtenMembers_append]
    exact numeralEnds_cons (by decide)

/-- A member is read back if its value is. -/
theorem exists_readMember {key : String} {value : Json}
    (hkey : ∀ c ∈ key.toList, style.ReadsBack c)
    (hvalue : ∃ form, readValue fuel (written style level value ++ rest) = some (form, rest) ∧
      Denotes form value) :
    ∃ parts form, readMember (fuel + 1) (quotedChars style key
        ++ (style.layout.colon.toList ++ (written style level value ++ rest)))
          = some ((parts, form), rest) ∧
      textOf? parts = some key ∧ Denotes form value := by
  obtain ⟨blanks, hcolon, hblanks⟩ := exists_colon_eq style.layout
  obtain ⟨form, hread, hdenotes⟩ := hvalue
  obtain ⟨parts, hstring, hparts⟩ := exists_readString key
    (':' :: (blanks ++ (written style level value ++ rest))) hkey
  refine ⟨parts, form, ?_, hparts, hdenotes⟩
  rw [quotedChars_append, hcolon, List.cons_append, readMember_key hstring,
    readValue_blanks fuel _ hblanks, hread, Option.map_some]

/-! ## Values -/

mutual

/-- The characters of all strings and keys of a value. -/
def chars : Json → List Char
  | string s => s.toList
  | array items => itemsChars items
  | object members => membersChars members
  | null => []
  | bool _ => []
  | integer _ => []
  | real _ => []

/-- The characters of a list of values. -/
def itemsChars : List Json → List Char
  | [] => []
  | item :: rest => item.chars ++ itemsChars rest

/-- The characters of some members. -/
def membersChars : List (String × Json) → List Char
  | [] => []
  | (key, value) :: rest => key.toList ++ (value.chars ++ membersChars rest)

end

/-- A character of items is one of an item. -/
theorem mem_itemsChars {c : Char} {items : List Json} :
    c ∈ itemsChars items ↔ ∃ item ∈ items, c ∈ item.chars := by
  induction items with
  | nil => simp [itemsChars]
  | cons item rest ih => rw [itemsChars, List.mem_append, ih, List.exists_mem_cons_iff]

/-- A character of members is one of a key or of a value. -/
theorem mem_membersChars {c : Char} {members : List (String × Json)} :
    c ∈ membersChars members ↔ ∃ member ∈ members, c ∈ member.1.toList ∨ c ∈ member.2.chars := by
  induction members with
  | nil => simp [membersChars]
  | cons member rest ih =>
    rw [membersChars, List.mem_append, List.mem_append, ih, List.exists_mem_cons_iff, or_assoc]

/-- Sorting neither adds a character nor loses one. -/
theorem mem_chars_sorted {c : Char} {j : Json} (h : j.Distinct) :
    c ∈ j.sorted.chars ↔ c ∈ j.chars := by
  induction h with
  | @array items _ ih =>
    rw [sorted, sortedItems_eq_map, chars, chars, mem_itemsChars, mem_itemsChars]
    simp only [List.mem_map, exists_exists_and_eq_and]
    exact exists_congr fun item => and_congr_right (ih item)
  | @object members hkeys _ ih =>
    rw [sorted, chars, chars, mem_membersChars, mem_membersChars]
    simp only [(sortedMembers_perm hkeys).mem_iff, List.mem_map, exists_exists_and_eq_and]
    exact exists_congr fun member => and_congr_right fun hmember =>
      or_congr_right (ih member hmember)
  | null | bool _ | integer _ | real _ | string _ => exact Iff.rfl

mutual

/-- A value without doubles is read back from its text, as a form that spells it. No more calls are
nested than the text has characters. -/
theorem exists_readValue (style : Style) (level fuel : Nat) (rest : List Char) : (j : Json) →
    j.firstReal? = none → (∀ c ∈ j.chars, style.ReadsBack c) →
    (written style level j).length ≤ fuel → NumeralEnds rest →
    ∃ form, readValue fuel (written style level j ++ rest) = some (form, rest) ∧ Denotes form j
  | null, _, _, hfuel, _ => by
    obtain ⟨fuel, rfl⟩ : ∃ n, fuel = n + 1 := ⟨fuel - 1, by simp [written] at hfuel; omega⟩
    exact ⟨.null, rfl, .null⟩
  | bool b, _, _, hfuel, _ => by
    obtain ⟨fuel, rfl⟩ : ∃ n, fuel = n + 1 :=
      ⟨fuel - 1, by cases b <;> simp [written] at hfuel <;> omega⟩
    exact ⟨.bool b, by cases b <;> rfl, .bool b⟩
  | integer n, hreal, _, hfuel, hrest => by
    obtain ⟨c, text, htext, hc⟩ := n.exists_cons_text
    obtain ⟨fuel, rfl⟩ : ∃ n, fuel = n + 1 :=
      ⟨fuel - 1, by simp [written, htext] at hfuel; omega⟩
    obtain ⟨numeral, hread, hnumeral⟩ := exists_readScalar_text n hrest
    -- The text begins with a digit or a sign, so the reader takes it for no container.
    have hopen (d : Char) (hd : WireInteger.isNumeralChar d = false) (r : List Char) :
        written style level (integer n) ++ rest ≠ d :: r := by
      rw [written, htext]
      rintro heq
      rw [← (List.cons.inj heq).1, hc] at hd
      cases hd
    exact ⟨.number numeral, readValue_scalar hread (written_opens style level rest hreal).1
      (hopen '[' (by decide)) (hopen '\x7b' (by decide)), .integer hnumeral⟩
  | real x, hreal, _, _, _ => by simp [firstReal?] at hreal
  | string s, _, hchars, hfuel, _ => by
    obtain ⟨fuel, rfl⟩ : ∃ n, fuel = n + 1 :=
      ⟨fuel - 1, by simp [written, quotedChars] at hfuel; omega⟩
    obtain ⟨parts, hread, hparts⟩ := exists_readString s rest hchars
    rw [written, quotedChars_append]
    refine ⟨.string parts, readValue_scalar ?_ (skipBlanks_cons (by decide)) (by simp) (by simp),
      .string hparts⟩
    rw [readScalar, hread, Option.map_some]
  | array [], _, _, hfuel, _ => by
    obtain ⟨fuel, rfl⟩ : ∃ n, fuel = n + 1 := ⟨fuel - 1, by simp [written] at hfuel; omega⟩
    exact ⟨.array [], rfl, .array .nil⟩
  | array (item :: items), hreal, hchars, hfuel, _ => by
    rw [chars, itemsChars, List.forall_mem_append] at hchars
    obtain ⟨hitem, hitems⟩ := firstReal?_item hreal
    simp only [written, List.length_append, List.length_cons, List.length_nil] at hfuel
    obtain ⟨fuel, rfl⟩ : ∃ n, fuel = n + 1 := ⟨fuel - 1, by omega⟩
    have hclose := skipBlanks_close style.layout level rest (show isBlank ']' = false by decide)
    obtain ⟨form, hread, hform⟩ := exists_readValue style (level + 1) fuel _ item hitem hchars.1
      (by omega) (numeralEnds_writtenItems style (level + 1) items hclose)
    obtain ⟨forms, hreads, hforms⟩ := exists_readItems style (level + 1) fuel items hitems hchars.2
      (by omega) hclose
    refine ⟨.array (form :: forms), ?_, .array (.cons hform hforms)⟩
    obtain ⟨hskip, hopen⟩ := written_opens style (level + 1) (writtenItems style (level + 1) items
      ++ ((style.layout.lead level).toList ++ ']' :: rest)) hitem
    rw [written_array_append, readValue_array, skipBlanks_lead, hskip, hread, Option.bind_some,
      hreads, Option.map_some]
    rwa [skipBlanks_lead, hskip]
  | object [], _, _, hfuel, _ => by
    obtain ⟨fuel, rfl⟩ : ∃ n, fuel = n + 1 := ⟨fuel - 1, by simp [written] at hfuel; omega⟩
    exact ⟨.object [], rfl, .object .nil⟩
  | object ((key, value) :: members), hreal, hchars, hfuel, _ => by
    rw [firstReal?] at hreal
    rw [chars, membersChars, List.forall_mem_append, List.forall_mem_append] at hchars
    obtain ⟨hvalue, hmembers⟩ := firstReal?_member hreal
    simp only [written, quotedChars, List.length_append, List.length_cons, List.length_nil] at hfuel
    obtain ⟨fuel, rfl⟩ : ∃ n, fuel = n + 2 := ⟨fuel - 2, by omega⟩
    have hclose := skipBlanks_close style.layout level rest (show isBlank '\x7d' = false by decide)
    obtain ⟨parts, form, hread, hkey, hform⟩ := exists_readMember hchars.1
      (exists_readValue style (level + 1) fuel _ value hvalue hchars.2.1 (by omega)
        (numeralEnds_writtenMembers style (level + 1) members hclose))
    obtain ⟨forms, hreads, hforms⟩ := exists_readMembers style (level + 1) (fuel + 1) members
      hmembers hchars.2.2 (by omega) hclose
    refine ⟨.object ((parts, form) :: forms), ?_, .object (.cons hkey hform hforms)⟩
    have hquote (text : List Char) :
        skipBlanks (quotedChars style key ++ text) = quotedChars style key ++ text :=
      skipBlanks_cons (by decide)
    rw [written_object_append, readValue_object, skipBlanks_lead, hquote, hread, Option.bind_some,
      hreads, Option.map_some]
    rw [skipBlanks_lead, hquote]
    intro r heq
    exact absurd (List.cons.inj heq).1 (by decide)

/-- The items behind the first one are read back, up to the closing bracket. -/
theorem exists_readItems (style : Style) (level fuel : Nat) {tail rest : List Char} :
    (items : List Json) → firstRealItem? items = none →
    (∀ c ∈ itemsChars items, style.ReadsBack c) →
    (writtenItems style level items).length < fuel → skipBlanks tail = ']' :: rest →
    ∃ forms, readItems fuel (writtenItems style level items ++ tail) = some (forms, rest) ∧
      DenotesItems forms items
  | [], _, _, hfuel, hclose => by
    obtain ⟨fuel, rfl⟩ : ∃ n, fuel = n + 1 := ⟨fuel - 1, by omega⟩
    exact ⟨[], readItems_close hclose, .nil⟩
  | item :: items, hreal, hchars, hfuel, hclose => by
    rw [itemsChars, List.forall_mem_append] at hchars
    obtain ⟨hitem, hitems⟩ := firstReal?_item hreal
    simp only [writtenItems, List.length_append, List.length_cons] at hfuel
    obtain ⟨fuel, rfl⟩ : ∃ n, fuel = n + 1 := ⟨fuel - 1, by omega⟩
    obtain ⟨form, hread, hform⟩ := exists_readValue style level fuel _ item hitem hchars.1
      (by omega) (numeralEnds_writtenItems style level items hclose)
    obtain ⟨forms, hreads, hforms⟩ := exists_readItems style level fuel items hitems hchars.2
      (by omega) hclose
    refine ⟨form :: forms, ?_, .cons hform hforms⟩
    rw [writtenItems_append, readItems_comma, readValue_blanks fuel _ fun _ => isBlank_of_mem_lead,
      hread, Option.bind_some, hreads, Option.map_some]

/-- The members behind the first one are read back, up to the closing brace. -/
theorem exists_readMembers (style : Style) (level fuel : Nat) {tail rest : List Char} :
    (members : List (String × Json)) → firstRealMember? members = none →
    (∀ c ∈ membersChars members, style.ReadsBack c) →
    (writtenMembers style level members).length < fuel → skipBlanks tail = '\x7d' :: rest →
    ∃ forms, readMembers fuel (writtenMembers style level members ++ tail) = some (forms, rest) ∧
      DenotesMembers forms members
  | [], _, _, hfuel, hclose => by
    obtain ⟨fuel, rfl⟩ : ∃ n, fuel = n + 1 := ⟨fuel - 1, by omega⟩
    exact ⟨[], readMembers_close hclose, .nil⟩
  | (key, value) :: members, hreal, hchars, hfuel, hclose => by
    rw [membersChars, List.forall_mem_append, List.forall_mem_append] at hchars
    obtain ⟨hvalue, hmembers⟩ := firstReal?_member hreal
    simp only [writtenMembers, quotedChars, List.length_append, List.length_cons,
      List.length_nil] at hfuel
    obtain ⟨fuel, rfl⟩ : ∃ n, fuel = n + 2 := ⟨fuel - 2, by omega⟩
    obtain ⟨parts, form, hread, hkey, hform⟩ := exists_readMember hchars.1
      (exists_readValue style level fuel _ value hvalue hchars.2.1 (by omega)
        (numeralEnds_writtenMembers style level members hclose))
    obtain ⟨forms, hreads, hforms⟩ := exists_readMembers style level (fuel + 1) members hmembers
      hchars.2.2 (by omega) hclose
    refine ⟨(parts, form) :: forms, ?_, .cons hkey hform hforms⟩
    rw [writtenMembers_append, readMembers_comma,
      readMember_blanks (fuel + 1) _ fun _ => isBlank_of_mem_lead, hread, Option.bind_some, hreads,
      Option.map_some]

end

/-! ## Whole texts -/

/-- The text of a value without doubles has a form that spells the value. -/
theorem exists_formOf?_write {j : Json} (hreal : j.firstReal? = none)
    (hchars : ∀ c ∈ j.chars, style.ReadsBack c) :
    ∃ form, formOf? (write style 0 "" j).toList = some form ∧ Denotes form j := by
  obtain ⟨form, hread, hform⟩ := exists_readValue style 0 ((written style 0 j).length + 1) [] j
    hreal hchars (Nat.le_succ _) numeralEnds_nil
  refine ⟨form, ?_, hform⟩
  rw [List.append_nil] at hread
  rw [toList_write, String.toList_empty, List.nil_append, formOf?, hread]
  rfl

/-- A text is read from its bytes as it is. -/
theorem charsOfBytes_toUTF8 (s : String) : charsOfBytes s.toUTF8 = s.toList := by
  have hread : String.fromUTF8? s.toUTF8 = some s := by
    rw [String.fromUTF8?]
    split
    · rfl
    · next hinvalid => exact absurd s.isValidUTF8 hinvalid
  rw [charsOfBytes, hread]

end BinDelegation.Json
