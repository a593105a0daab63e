import BinDelegation.Proofs.Json.Reading

/-!
# Refusing what was written

A style may write a character so that the reader stops at it, as the canonical style does with
control characters. One such character in any string or key of a value, and the text of the value is
not read at all: what stands before it is read as it was written, so the reader comes to it.

`Style.Decides` is what is asked of a style: each character is either read back or refused, whatever
comes behind it. The induction `readValue_eq_none` is on the value, beside the one for reading back.
A container has to be split at its first part that holds a refused character: the parts before it
are read back by `exists_readValue`, and that part stops the reader.

Together the two inductions give the exact condition, `exists_formOf?_write_iff`.
-/

namespace BinDelegation.Json

variable {fuel level : Nat} {rest : List Char} {style : Style}

/-! ## Strings -/

/-- A style writes a character so that the reader stops at it. -/
def Style.Refuses (style : Style) (c : Char) : Prop :=
  ∀ rest, readString (style.escape c ++ rest) = none

/-- Whatever a style writes for a character is either read back or refused. -/
def Style.Decides (style : Style) : Prop := ∀ c, style.ReadsBack c ∨ style.Refuses c

/-- One of some characters is refused. -/
def Style.RefusesOneOf (style : Style) (chars : List Char) : Prop := ∃ c ∈ chars, style.Refuses c

/-- A character of two lists is one of either. -/
theorem Style.refusesOneOf_append {chars chars' : List Char} :
    style.RefusesOneOf (chars ++ chars') ↔
      style.RefusesOneOf chars ∨ style.RefusesOneOf chars' := by
  simp only [RefusesOneOf, List.mem_append, or_and_right, exists_or]

/-- There is nothing to refuse in the empty list. -/
theorem Style.not_refusesOneOf_nil : ¬style.RefusesOneOf [] := by
  rintro ⟨c, hc, -⟩
  cases hc

/-- Characters of which none is refused are read back. -/
theorem Style.Decides.readsBack (hstyle : style.Decides) {chars : List Char}
    (h : ¬style.RefusesOneOf chars) : ∀ c ∈ chars, style.ReadsBack c :=
  fun c hc => (hstyle c).resolve_right fun hrefuses => h ⟨c, hc, hrefuses⟩

/-- A string with a refused character is not read. -/
theorem readString_eq_none (hstyle : style.Decides) {s : String} (rest : List Char)
    (h : style.RefusesOneOf s.toList) :
    readString (s.toList.flatMap style.escape ++ '"' :: rest) = none := by
  obtain ⟨c, hc, hrefuses⟩ := h
  generalize s.toList = chars at hc
  induction chars with
  | nil => cases hc
  | cons d chars ih =>
    rw [List.flatMap_cons, List.append_assoc]
    rcases List.mem_cons.1 hc with rfl | hc
    · exact hrefuses _
    · -- The first character is read, and then the refused one comes, or it is refused itself.
      rcases hstyle d with ⟨part, -, hescape⟩ | hd
      · rw [hescape, ih hc, prepend]
      · exact hd _

/-! ## Values -/

/-- A member is not read if its key or its value is not. -/
theorem readMember_eq_none (hstyle : style.Decides) {key : String} {value : Json}
    (hvalue : style.RefusesOneOf value.chars →
      readValue fuel (written style level value ++ rest) = none)
    (h : style.RefusesOneOf key.toList ∨ style.RefusesOneOf value.chars) :
    readMember (fuel + 1) (quotedChars style key
      ++ (style.layout.colon.toList ++ (written style level value ++ rest))) = none := by
  rw [quotedChars_append]
  by_cases hkey : style.RefusesOneOf key.toList
  · rw [readMember, readKey, skipBlanks_cons (by decide)]
    simp only [readString_eq_none hstyle _ hkey]
  · obtain ⟨blanks, hcolon, hblanks⟩ := exists_colon_eq style.layout
    obtain ⟨parts, hstring, -⟩ := exists_readString key
      (':' :: (blanks ++ (written style level value ++ rest))) (hstyle.readsBack hkey)
    rw [hcolon, List.cons_append, readMember_key hstring, readValue_blanks fuel _ hblanks,
      hvalue (h.resolve_left hkey), Option.map_none]

mutual

/-- A value with a refused character is not read from its text. -/
theorem readValue_eq_none (hstyle : style.Decides) (level fuel : Nat) (rest : List Char) :
    (j : Json) → j.firstReal? = none → style.RefusesOneOf j.chars →
    (written style level j).length ≤ fuel → NumeralEnds rest →
    readValue fuel (written style level j ++ rest) = none
  | null, _, h, _, _ => absurd h Style.not_refusesOneOf_nil
  | bool _, _, h, _, _ => absurd h Style.not_refusesOneOf_nil
  | integer _, _, h, _, _ => absurd h Style.not_refusesOneOf_nil
  | real _, _, h, _, _ => absurd h Style.not_refusesOneOf_nil
  | string s, _, h, hfuel, _ => by
    obtain ⟨fuel, rfl⟩ : ∃ n, fuel = n + 1 :=
      ⟨fuel - 1, by simp [written, quotedChars] at hfuel; omega⟩
    have hread : readScalar ('"' :: (s.toList.flatMap style.escape ++ '"' :: rest)) = none := by
      rw [readScalar, readString_eq_none hstyle rest h, Option.map_none]
    rw [written, quotedChars_append, readValue, skipBlanks_cons (by decide)]
    exact hread
  | array [], _, h, _, _ => absurd h Style.not_refusesOneOf_nil
  | array (item :: items), hreal, h, hfuel, _ => by
    rw [chars, itemsChars, Style.refusesOneOf_append] at h
    obtain ⟨hitem, hitems⟩ := firstReal?_item hreal
    simp only [written, List.length_append, List.length_cons, List.length_nil] at hfuel
    obtain ⟨fuel, rfl⟩ : ∃ n, fuel = n + 1 := ⟨fuel - 1, by omega⟩
    have hclose := skipBlanks_close style.layout level rest (show isBlank ']' = false by decide)
    have hends := numeralEnds_writtenItems style (level + 1) items hclose
    obtain ⟨hskip, hopen⟩ := written_opens style (level + 1) (writtenItems style (level + 1) items
      ++ ((style.layout.lead level).toList ++ ']' :: rest)) hitem
    rw [written_array_append, readValue_array (by rwa [skipBlanks_lead, hskip]), skipBlanks_lead,
      hskip]
    -- The first item stops the reader, or it is read and a later one does.
    by_cases hfirst : style.RefusesOneOf item.chars
    · rw [readValue_eq_none hstyle (level + 1) fuel _ item hitem hfirst (by omega) hends,
        Option.bind_none]
    · obtain ⟨form, hread, -⟩ := exists_readValue style (level + 1) fuel _ item hitem
        (hstyle.readsBack hfirst) (by omega) hends
      rw [hread, Option.bind_some, readItems_eq_none hstyle (level + 1) fuel items hitems
        (h.resolve_left hfirst) (by omega) hclose, Option.map_none]
  | object [], _, h, _, _ => absurd h Style.not_refusesOneOf_nil
  | object ((key, value) :: members), hreal, h, hfuel, _ => by
    rw [firstReal?] at hreal
    rw [chars, membersChars, Style.refusesOneOf_append, Style.refusesOneOf_append, ← or_assoc] at h
    obtain ⟨hvalue, hmembers⟩ := firstReal?_member hreal
    simp only [written, quotedChars, List.length_append, List.length_cons, List.length_nil] at hfuel
    obtain ⟨fuel, rfl⟩ : ∃ n, fuel = n + 2 := ⟨fuel - 2, by omega⟩
    have hclose := skipBlanks_close style.layout level rest (show isBlank '\x7d' = false by decide)
    have hends := numeralEnds_writtenMembers style (level + 1) members hclose
    have hskip (text : List Char) :
        skipBlanks (quotedChars style key ++ text) = quotedChars style key ++ text :=
      skipBlanks_cons (by decide)
    have hopen (text rest : List Char) : quotedChars style key ++ text ≠ '\x7d' :: rest := by
      rw [quotedChars_append]
      simp
    rw [written_object_append, readValue_object (by rw [skipBlanks_lead, hskip]; exact hopen _),
      skipBlanks_lead, hskip]
    by_cases hfirst : style.RefusesOneOf key.toList ∨ style.RefusesOneOf value.chars
    · rw [readMember_eq_none hstyle (fun hrefuses => readValue_eq_none hstyle (level + 1) fuel _
        value hvalue hrefuses (by omega) hends) hfirst, Option.bind_none]
    · obtain ⟨hkey, hfine⟩ := not_or.1 hfirst
      obtain ⟨parts, form, hread, -⟩ := exists_readMember (hstyle.readsBack hkey)
        (exists_readValue style (level + 1) fuel _ value hvalue (hstyle.readsBack hfine) (by omega)
          hends)
      rw [hread, Option.bind_some, readMembers_eq_none hstyle (level + 1) (fuel + 1) members
        hmembers (h.resolve_left hfirst) (by omega) hclose, Option.map_none]

/-- The items behind the first one are not read if one of them holds a refused character. -/
theorem readItems_eq_none (hstyle : style.Decides) (level fuel : Nat) {tail rest : List Char} :
    (items : List Json) → firstRealItem? items = none → style.RefusesOneOf (itemsChars items) →
    (writtenItems style level items).length < fuel → skipBlanks tail = ']' :: rest →
    readItems fuel (writtenItems style level items ++ tail) = none
  | [], _, h, _, _ => absurd h Style.not_refusesOneOf_nil
  | item :: items, hreal, h, hfuel, hclose => by
    rw [itemsChars, Style.refusesOneOf_append] at h
    obtain ⟨hitem, hitems⟩ := firstReal?_item hreal
    simp only [writtenItems, List.length_append, List.length_cons] at hfuel
    obtain ⟨fuel, rfl⟩ : ∃ n, fuel = n + 1 := ⟨fuel - 1, by omega⟩
    have hends := numeralEnds_writtenItems style level items hclose
    rw [writtenItems_append, readItems_comma, readValue_blanks fuel _ fun _ => isBlank_of_mem_lead]
    by_cases hfirst : style.RefusesOneOf item.chars
    · rw [readValue_eq_none hstyle level fuel _ item hitem hfirst (by omega) hends,
        Option.bind_none]
    · obtain ⟨form, hread, -⟩ := exists_readValue style level fuel _ item hitem
        (hstyle.readsBack hfirst) (by omega) hends
      rw [hread, Option.bind_some, readItems_eq_none hstyle level fuel items hitems
        (h.resolve_left hfirst) (by omega) hclose, Option.map_none]

/-- The members behind the first one are not read if one of them holds a refused character. -/
theorem readMembers_eq_none (hstyle : style.Decides) (level fuel : Nat) {tail rest : List Char} :
    (members : List (String × Json)) → firstRealMember? members = none →
    style.RefusesOneOf (membersChars members) →
    (writtenMembers style level members).length < fuel → skipBlanks tail = '\x7d' :: rest →
    readMembers fuel (writtenMembers style level members ++ tail) = none
  | [], _, h, _, _ => absurd h Style.not_refusesOneOf_nil
  | (key, value) :: members, hreal, h, hfuel, hclose => by
    rw [membersChars, Style.refusesOneOf_append, Style.refusesOneOf_append, ← or_assoc] at h
    obtain ⟨hvalue, hmembers⟩ := firstReal?_member hreal
    simp only [writtenMembers, quotedChars, List.length_append, List.length_cons,
      List.length_nil] at hfuel
    obtain ⟨fuel, rfl⟩ : ∃ n, fuel = n + 2 := ⟨fuel - 2, by omega⟩
    have hends := numeralEnds_writtenMembers style level members hclose
    rw [writtenMembers_append, readMembers_comma,
      readMember_blanks (fuel + 1) _ fun _ => isBlank_of_mem_lead]
    by_cases hfirst : style.RefusesOneOf key.toList ∨ style.RefusesOneOf value.chars
    · rw [readMember_eq_none hstyle (fun hrefuses => readValue_eq_none hstyle level fuel _ value
        hvalue hrefuses (by omega) hends) hfirst, Option.bind_none]
    · obtain ⟨hkey, hfine⟩ := not_or.1 hfirst
      obtain ⟨parts, form, hread, -⟩ := exists_readMember (hstyle.readsBack hkey)
        (exists_readValue style level fuel _ value hvalue (hstyle.readsBack hfine) (by omega) hends)
      rw [hread, Option.bind_some, readMembers_eq_none hstyle level (fuel + 1) members hmembers
        (h.resolve_left hfirst) (by omega) hclose, Option.map_none]

end

/-! ## Whole texts -/

/-- The text of a value without doubles has a form exactly if none of its characters is refused. -/
theorem exists_formOf?_write_iff (hstyle : style.Decides) {j : Json} (hreal : j.firstReal? = none) :
    (∃ form, formOf? (write style 0 "" j).toList = some form) ↔ ¬style.RefusesOneOf j.chars := by
  constructor
  · rintro ⟨form, hform⟩ hrefuses
    have hread := readValue_eq_none hstyle 0 ((written style 0 j).length + 1) [] j hreal hrefuses
      (Nat.le_succ _) numeralEnds_nil
    rw [List.append_nil] at hread
    rw [toList_write, String.toList_empty, List.nil_append, formOf?, hread] at hform
    cases hform
  · intro hfine
    obtain ⟨form, hform, -⟩ := exists_formOf?_write hreal (hstyle.readsBack hfine)
    exact ⟨form, hform⟩

end BinDelegation.Json
