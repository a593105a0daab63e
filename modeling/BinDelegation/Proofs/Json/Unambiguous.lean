import BinDelegation.Json.Canonical
import BinDelegation.Proofs.Json.Written
import BinDelegation.Proofs.Text.Decimal

/-!
# Canonical texts are unambiguous

A value is told by its canonical text, also where other text follows it: the first character tells
what kind of value it is, a string ends at the first quotation mark that is not escaped, an integer
where its digits end, and a container at its bracket.

The statement that goes through an induction is `written_append_inj`: if two values followed by any
two texts give the same characters, both values and both rests are the same. For an integer this
needs that no digit follows (`Ends`), and inside a container that always holds, because a comma or a
bracket follows every item.

The induction is on the first value; `sameKind_of_written` turns the second one into the same
constructor, so that only cases on the diagonal are left. The layout is the canonical one, which has
no blanks.
-/

namespace BinDelegation.Json

/-! ## Strings -/

/-- A string ends at the first quotation mark that is not escaped. -/
theorem escapes_append_inj {x y r s : List Char}
    (h : x.flatMap escapeMinimal ++ '"' :: r = y.flatMap escapeMinimal ++ '"' :: s) :
    x = y ∧ r = s := by
  -- A character is written as itself or behind a backslash, and never begins with a quotation mark.
  have hescape (c : Char) : escapeMinimal c = ['\\', c] ∧ (c = '"' ∨ c = '\\') ∨
      escapeMinimal c = [c] ∧ c ≠ '"' ∧ c ≠ '\\' := by
    rw [escapeMinimal]
    by_cases hc : c = '"' ∨ c = '\\'
    · exact .inl ⟨if_pos hc, hc⟩
    · exact .inr ⟨if_neg hc, not_or.1 hc⟩
  induction x generalizing y with
  | nil =>
    cases y with
    | nil => exact ⟨rfl, by simpa using h⟩
    | cons d y =>
      rw [List.flatMap_cons, List.flatMap_nil, List.nil_append] at h
      rcases hescape d with ⟨hd, -⟩ | ⟨hd, hquote, -⟩
      · simp [hd] at h
      · simp only [hd, List.cons_append, List.cons.injEq] at h
        exact absurd h.1.symm hquote
  | cons c x ih =>
    rw [List.flatMap_cons, List.append_assoc] at h
    cases y with
    | nil =>
      rw [List.flatMap_nil, List.nil_append] at h
      rcases hescape c with ⟨hc, -⟩ | ⟨hc, hquote, -⟩
      · simp [hc] at h
      · simp only [hc, List.cons_append, List.cons.injEq] at h
        exact absurd h.1 hquote
    | cons d y =>
      rw [List.flatMap_cons, List.append_assoc] at h
      have hsame : c = d ∧ x.flatMap escapeMinimal ++ '"' :: r
          = y.flatMap escapeMinimal ++ '"' :: s := by
        rcases hescape c with ⟨hc, -⟩ | ⟨hc, -, hbackslash⟩
        · rcases hescape d with ⟨hd, -⟩ | ⟨hd, -, hbackslash⟩
          · simpa [hc, hd] using h
          · simp only [hc, hd, List.cons_append, List.cons.injEq] at h
            exact absurd h.1.symm hbackslash
        · rcases hescape d with ⟨hd, -⟩ | ⟨hd, -⟩
          · simp only [hc, hd, List.cons_append, List.cons.injEq] at h
            exact absurd h.1 hbackslash
          · simpa [hc, hd] using h
      obtain ⟨rfl, hrest⟩ := ih hsame.2
      exact ⟨by rw [hsame.1], hrest⟩

/-- A string is told by its quoted text, whatever follows. -/
theorem quotedChars_append_inj {a b : String} {r s : List Char}
    (h : quotedChars .canonical a ++ r = quotedChars .canonical b ++ s) : a = b ∧ r = s := by
  simp only [quotedChars, List.cons_append, List.append_assoc, List.nil_append,
    List.cons.injEq, true_and] at h
  obtain ⟨hchars, hrest⟩ := escapes_append_inj h
  exact ⟨String.toList_inj.1 hchars, hrest⟩

/-! ## First characters -/

/-- The kind of a value, as the character that its text begins with; a zero stands for all that
integers begin with. -/
def mark : Json → Char
  | null => 'n'
  | bool b => if b then 't' else 'f'
  | integer _ => '0'
  | real _ => 'r'
  | string _ => '"'
  | array _ => '['
  | object _ => '\x7b'

/-- The kind of the values whose text begins with a character. -/
def markOf (c : Char) : Char := if WireInteger.isNumeralChar c then '0' else c

/-- The text of a value begins with a character of its kind. -/
theorem exists_cons_written {style : Style} (level : Nat) {j : Json} (h : j.firstReal? = none) :
    ∃ c rest, written style level j = c :: rest ∧ markOf c = j.mark := by
  cases j with
  | null => exact ⟨_, _, by rw [written]; rfl, by decide⟩
  | bool b => cases b <;> exact ⟨_, _, by rw [written]; rfl, by decide⟩
  | integer n =>
    obtain ⟨c, rest, htext, hc⟩ := n.exists_cons_text
    exact ⟨c, rest, by rw [written, htext], by rw [markOf, if_pos hc]; rfl⟩
  | real x => simp [firstReal?] at h
  | string s => exact ⟨'"', _, by rw [written]; rfl, rfl⟩
  | array items =>
    cases items with
    | nil => exact ⟨_, _, by rw [written], by decide⟩
    | cons item rest => exact ⟨'[', _, by rw [written]; rfl, rfl⟩
  | object members =>
    cases members with
    | nil => exact ⟨_, _, by rw [written], by decide⟩
    | cons member rest => exact ⟨'\x7b', _, by rw [written]; rfl, rfl⟩

variable {level : Nat} {a b : Json} {r s : List Char}

/-- Values of one kind: containers with any contents, but only equal truth values. -/
inductive SameKind : Json → Json → Prop where
  | null : SameKind null null
  | bool (b : Bool) : SameKind (bool b) (bool b)
  | integer (m n : WireInteger) : SameKind (integer m) (integer n)
  | string (x y : String) : SameKind (string x) (string y)
  | array (xs ys : List Json) : SameKind (array xs) (array ys)
  | object (xs ys : List (String × Json)) : SameKind (object xs) (object ys)

/-- A value without doubles is of the kind that its mark says. -/
theorem sameKind_of_mark (ha : a.firstReal? = none) (hmark : a.mark = b.mark) : SameKind a b := by
  cases a <;> cases b <;> grind [mark, firstReal?, SameKind]

/-- Values with the same text are of the same kind. -/
theorem sameKind_of_written (ha : a.firstReal? = none) (hb : b.firstReal? = none)
    (h : written .canonical level a ++ r = written .canonical level b ++ s) : SameKind a b := by
  obtain ⟨c, x, hx, hc⟩ := exists_cons_written level ha
  obtain ⟨d, y, hy, hd⟩ := exists_cons_written level hb
  rw [hx, hy, List.cons_append, List.cons_append, List.cons.injEq] at h
  exact sameKind_of_mark ha (by rw [← hc, ← hd, h.1])

/-- No value begins with a closing bracket. -/
theorem written_ne_close (ha : a.firstReal? = none) :
    written .canonical level a ++ r ≠ ']' :: s := by
  intro h
  obtain ⟨c, x, hx, hc⟩ := exists_cons_written level ha
  rw [hx, List.cons_append, List.cons.injEq] at h
  rw [h.1] at hc
  cases a with
  | bool b => cases b <;> exact absurd hc (by decide)
  | _ => exact absurd hc (by simp only [mark]; decide)

/-! ## Values -/

/-- A text that cannot go on with the digits of an integer. -/
def Ends (r : List Char) : Prop := ∀ c ∈ r.head?, WireInteger.isNumeralChar c = false

theorem ends_cons {c : Char} (hc : WireInteger.isNumeralChar c = false) : Ends (c :: r) := by
  intro d hd
  rw [List.head?_cons, Option.mem_some_iff] at hd
  rwa [← hd]

/-- Behind an item an integer ends. -/
theorem ends_writtenItems {items : List Json} :
    Ends (writtenItems .canonical level items ++ ']' :: r) := by
  cases items with
  | nil => exact ends_cons (by decide)
  | cons item rest =>
    rw [writtenItems]
    exact ends_cons (by decide)

/-- Behind the value of a member an integer ends. -/
theorem ends_writtenMembers {members : List (String × Json)} :
    Ends (writtenMembers .canonical level members ++ '\x7d' :: r) := by
  cases members with
  | nil => exact ends_cons (by decide)
  | cons member rest =>
    rw [writtenMembers]
    exact ends_cons (by decide)

/-! ## Containers -/

theorem written_array_nil : written .canonical level (array []) ++ r = '[' :: ']' :: r := rfl

theorem written_array_cons {x : Json} {xs : List Json} :
    written .canonical level (array (x :: xs)) ++ r
      = '[' :: (written .canonical (level + 1) x
        ++ (writtenItems .canonical (level + 1) xs ++ ']' :: r)) :=
  written_array_append .canonical level x xs r

theorem written_object_nil : written .canonical level (object []) ++ r = '\x7b' :: '\x7d' :: r :=
  rfl

theorem written_object_cons {member : String × Json} {members : List (String × Json)} :
    written .canonical level (object (member :: members)) ++ r
      = '\x7b' :: (quotedChars .canonical member.1
        ++ ':' :: (written .canonical (level + 1) member.2
          ++ (writtenMembers .canonical (level + 1) members ++ '\x7d' :: r))) :=
  written_object_append .canonical level member members r

theorem writtenItems_cons {x : Json} {xs : List Json} :
    writtenItems .canonical level (x :: xs) ++ r
      = ',' :: (written .canonical level x ++ (writtenItems .canonical level xs ++ r)) :=
  writtenItems_append .canonical level x xs r

theorem writtenMembers_cons {member : String × Json} {members : List (String × Json)} :
    writtenMembers .canonical level (member :: members) ++ r
      = ',' :: (quotedChars .canonical member.1 ++ ':' :: (written .canonical level member.2
        ++ (writtenMembers .canonical level members ++ r))) :=
  writtenMembers_append .canonical level member members r

/-- Items without doubles have a first item without doubles and further ones. -/
theorem firstReal?_item {item : Json} {rest : List Json}
    (h : firstRealItem? (item :: rest) = none) :
    item.firstReal? = none ∧ firstRealItem? rest = none := by
  rw [firstRealItem?] at h
  split at h
  · cases h
  · next hitem => exact ⟨hitem, h⟩

/-- Members without doubles have a first value without doubles and further ones. -/
theorem firstReal?_member {key : String} {value : Json} {rest : List (String × Json)}
    (h : firstRealMember? ((key, value) :: rest) = none) :
    value.firstReal? = none ∧ firstRealMember? rest = none := by
  rw [firstRealMember?] at h
  split at h
  · cases h
  · next hvalue => exact ⟨hvalue, h⟩

mutual

/-- A value is told by its canonical text and whatever ends it. -/
theorem written_append_inj {level : Nat} : (a : Json) → {b : Json} → {r s : List Char} →
    a.firstReal? = none → b.firstReal? = none → Ends r → Ends s →
    written .canonical level a ++ r = written .canonical level b ++ s → a = b ∧ r = s
  | null, b, r, s, ha, hb, _, _, h => by
    cases sameKind_of_written ha hb h
    exact ⟨rfl, List.append_cancel_left h⟩
  | bool x, b, r, s, ha, hb, _, _, h => by
    cases sameKind_of_written ha hb h
    exact ⟨rfl, List.append_cancel_left h⟩
  | integer m, b, r, s, ha, hb, hr, hs, h => by
    cases sameKind_of_written ha hb h with
    | integer _ n =>
      -- Both texts end where no character of an integer follows.
      rw [written, written] at h
      obtain ⟨htext, hrest⟩ := run_append_inj (fun _ => WireInteger.isNumeralChar_of_mem_text)
        (fun _ => WireInteger.isNumeralChar_of_mem_text) hr hs h
      exact ⟨congrArg integer (WireInteger.text_inj htext), hrest⟩
  | real x, b, r, s, ha, _, _, _, _ => by simp [firstReal?] at ha
  | string x, b, r, s, ha, hb, _, _, h => by
    cases sameKind_of_written ha hb h with
    | string _ y =>
      rw [written, written] at h
      obtain ⟨hxy, hrest⟩ := quotedChars_append_inj h
      exact ⟨congrArg string hxy, hrest⟩
  | array [], b, r, s, ha, hb, _, _, h => by
    cases sameKind_of_written ha hb h with
    | array _ ys =>
      cases ys with
      | nil => exact ⟨rfl, List.append_cancel_left h⟩
      | cons y ys =>
        -- One bracket is closed at once, and the other has an item, which begins otherwise.
        rw [written_array_nil, written_array_cons, List.cons.injEq] at h
        exact absurd h.2.symm (written_ne_close (firstReal?_item hb).1)
  | array (x :: xs), b, r, s, ha, hb, _, _, h => by
    cases sameKind_of_written ha hb h with
    | array _ ys =>
      cases ys with
      | nil =>
        rw [written_array_nil, written_array_cons, List.cons.injEq] at h
        exact absurd h.2 (written_ne_close (firstReal?_item ha).1)
      | cons y ys =>
        rw [written_array_cons, written_array_cons, List.cons.injEq] at h
        -- What comes after the first item begins with a comma or the bracket, so an integer ends.
        obtain ⟨hx, hxs⟩ := firstReal?_item ha
        obtain ⟨hy, hys⟩ := firstReal?_item hb
        obtain ⟨rfl, hrest⟩ := written_append_inj x hx hy ends_writtenItems ends_writtenItems h.2
        obtain ⟨rfl, hend⟩ := writtenItems_append_inj xs hxs hys hrest
        exact ⟨rfl, hend⟩
  | object [], b, r, s, ha, hb, _, _, h => by
    cases sameKind_of_written ha hb h with
    | object _ members =>
      cases members with
      | nil => exact ⟨rfl, List.append_cancel_left h⟩
      | cons member members =>
        rw [written_object_nil, written_object_cons, quotedChars] at h
        simp at h
  | object ((key, value) :: rest), b, r, s, ha, hb, _, _, h => by
    cases sameKind_of_written ha hb h with
    | object _ members =>
      cases members with
      | nil =>
        rw [written_object_nil, written_object_cons, quotedChars] at h
        simp at h
      | cons member members =>
        obtain ⟨key', value'⟩ := member
        rw [written_object_cons, written_object_cons, List.cons.injEq] at h
        -- The keys end at their quotation marks, and only then are the values compared.
        obtain ⟨rfl, hcolon⟩ := quotedChars_append_inj h.2
        rw [firstReal?] at ha hb
        obtain ⟨hvalue, hrest⟩ := firstReal?_member ha
        obtain ⟨hvalue', hrest'⟩ := firstReal?_member hb
        obtain ⟨rfl, hmembers⟩ := written_append_inj value hvalue hvalue' ends_writtenMembers
          ends_writtenMembers (List.cons.inj hcolon).2
        obtain ⟨rfl, hend⟩ := writtenMembers_append_inj rest hrest hrest' hmembers
        exact ⟨rfl, hend⟩

/-- The items after the first are told by their text up to the bracket. -/
theorem writtenItems_append_inj {level : Nat} : (xs : List Json) → {ys : List Json} →
    {r s : List Char} → firstRealItem? xs = none → firstRealItem? ys = none →
    writtenItems .canonical level xs ++ ']' :: r = writtenItems .canonical level ys ++ ']' :: s →
    xs = ys ∧ r = s
  | [], ys, r, s, _, _, h => by
    cases ys with
    | nil => exact ⟨rfl, by simpa [writtenItems] using h⟩
    | cons y ys =>
      rw [writtenItems_cons, writtenItems] at h
      simp at h
  | x :: xs, ys, r, s, hitems, hitems', h => by
    cases ys with
    | nil =>
      rw [writtenItems_cons, writtenItems] at h
      simp at h
    | cons y ys =>
      rw [writtenItems_cons, writtenItems_cons, List.cons.injEq] at h
      obtain ⟨hx, hxs⟩ := firstReal?_item hitems
      obtain ⟨hy, hys⟩ := firstReal?_item hitems'
      obtain ⟨rfl, hrest⟩ := written_append_inj x hx hy ends_writtenItems ends_writtenItems h.2
      obtain ⟨rfl, hend⟩ := writtenItems_append_inj xs hxs hys hrest
      exact ⟨rfl, hend⟩

/-- The members after the first are told by their text up to the brace. -/
theorem writtenMembers_append_inj {level : Nat} : (members : List (String × Json)) →
    {members' : List (String × Json)} → {r s : List Char} → firstRealMember? members = none →
    firstRealMember? members' = none →
    writtenMembers .canonical level members ++ '\x7d' :: r
      = writtenMembers .canonical level members' ++ '\x7d' :: s →
    members = members' ∧ r = s
  | [], members', r, s, _, _, h => by
    cases members' with
    | nil => exact ⟨rfl, by simpa [writtenMembers] using h⟩
    | cons member members' =>
      rw [writtenMembers_cons, writtenMembers] at h
      simp at h
  | (key, value) :: rest, members', r, s, hmembers, hmembers', h => by
    cases members' with
    | nil =>
      rw [writtenMembers_cons, writtenMembers] at h
      simp at h
    | cons member members' =>
      obtain ⟨key', value'⟩ := member
      rw [writtenMembers_cons, writtenMembers_cons, List.cons.injEq] at h
      obtain ⟨rfl, hcolon⟩ := quotedChars_append_inj h.2
      obtain ⟨hvalue, hrest⟩ := firstReal?_member hmembers
      obtain ⟨hvalue', hrest'⟩ := firstReal?_member hmembers'
      obtain ⟨rfl, htail⟩ := written_append_inj value hvalue hvalue' ends_writtenMembers
        ends_writtenMembers (List.cons.inj hcolon).2
      obtain ⟨rfl, hend⟩ := writtenMembers_append_inj rest hrest hrest' htail
      exact ⟨rfl, hend⟩

end

end BinDelegation.Json
