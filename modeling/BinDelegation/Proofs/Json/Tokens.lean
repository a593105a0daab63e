import BinDelegation.Proofs.Json.Denotation
import BinDelegation.Proofs.Json.Written
import BinDelegation.Proofs.Text.Decimal
import BinDelegation.Proofs.Text.Hex

/-!
# Reading blanks, strings and numerals

Blanks that a layout puts between tokens are skipped. A string is read back up to its closing
quotation mark if its style escapes every character so that the reader finds it again, as the style
of published documents does. An integer is read back before any text that cannot go on with it.

`Style.ReadsBack` is the condition on one character, for any rest of the text. A string needs
nothing else (`exists_readString`), so a style is settled by one case for each of its escapes; for
published documents they are all read back (`readsBack_pretty`).

A numeral has no end mark. `NumeralEnds` says of the text behind it that it begins with no digit and
with nothing that opens a fraction or an exponent. It is a hypothesis of every lemma on numerals,
and the tokens that can follow a value all satisfy it.
-/

namespace BinDelegation.Json

variable {level : Nat} {cs rest tail : List Char} {style : Style}

/-! ## Blanks -/

theorem skipBlanks_append {blanks : List Char} (h : ∀ c ∈ blanks, isBlank c = true) :
    skipBlanks (blanks ++ cs) = skipBlanks cs :=
  List.dropWhile_append_of_pos h

theorem skipBlanks_cons {c : Char} (h : isBlank c = false) : skipBlanks (c :: cs) = c :: cs := by
  rw [skipBlanks, List.dropWhile_cons_of_neg (by simp [h])]

/-- A layout puts blanks between tokens. -/
theorem isBlank_of_mem_lead {layout : Layout} {c : Char} (h : c ∈ (layout.lead level).toList) :
    isBlank c = true := by
  cases layout with
  | compact => simp [Layout.lead] at h
  | indented =>
    rw [Layout.lead, String.toList_ofList, List.mem_cons, List.mem_replicate] at h
    rcases h with rfl | ⟨-, rfl⟩ <;> decide

/-- What a layout puts before a token is skipped. -/
theorem skipBlanks_lead (layout : Layout) (level : Nat) (cs : List Char) :
    skipBlanks ((layout.lead level).toList ++ cs) = skipBlanks cs :=
  skipBlanks_append fun _ => isBlank_of_mem_lead

/-- Behind the colon of a member a layout has blanks only. -/
theorem exists_colon_eq (layout : Layout) :
    ∃ blanks, layout.colon.toList = ':' :: blanks ∧ ∀ c ∈ blanks, isBlank c = true := by
  cases layout with
  | compact => exact ⟨[], rfl, by simp⟩
  | indented => exact ⟨[' '], rfl, by simp [isBlank]⟩

/-! ## Strings -/

/-- A part stands for a character, as it is or by the unit of a character that needs one unit. -/
inductive StandsFor : StringPart → Char → Prop where
  | char (c : Char) : StandsFor (.char c) c
  | unit (c : Char) (h : c.toNat < 0xd800) : StandsFor (.unit c.toNat) c

/-- A style writes a character so that the reader finds the character again. -/
def Style.ReadsBack (style : Style) (c : Char) : Prop :=
  ∃ part, StandsFor part c ∧
    ∀ rest, readString (style.escape c ++ rest) = prepend part (readString rest)

/-- A part that stands for a character adds that character. -/
theorem charsAfter_cons {part : StringPart} {c : Char} (h : StandsFor part c)
    (parts : List StringPart) :
    charsAfter none (part :: parts) = (charsAfter none parts).map (c :: ·) := by
  cases h with
  | char => rfl
  | unit _ hc =>
    have hhigh : isHighSurrogate c.toNat = false := by simp [isHighSurrogate]; omega
    have hlow : isLowSurrogate c.toNat = false := by simp [isLowSurrogate]; omega
    simp [charsAfter, hhigh, hlow]

/-- A string is read back up to its closing quotation mark. -/
theorem exists_readString (s : String) (rest : List Char) (h : ∀ c ∈ s.toList, style.ReadsBack c) :
    ∃ parts, readString (s.toList.flatMap style.escape ++ '"' :: rest) = some (parts, rest) ∧
      textOf? parts = some s := by
  suffices hchars : ∃ parts,
      readString (s.toList.flatMap style.escape ++ '"' :: rest) = some (parts, rest) ∧
        charsAfter none parts = some s.toList by
    obtain ⟨parts, hread, hparts⟩ := hchars
    exact ⟨parts, hread, by rw [textOf?, hparts, Option.map_some, String.ofList_toList]⟩
  generalize s.toList = chars at h
  induction chars with
  | nil => exact ⟨[], by simp [readString], rfl⟩
  | cons c chars ih =>
    obtain ⟨⟨part, hpart, hescape⟩, hchars⟩ := List.forall_mem_cons.1 h
    obtain ⟨parts, hread, hparts⟩ := ih hchars
    refine ⟨part :: parts, ?_, ?_⟩
    · rw [List.flatMap_cons, List.append_assoc, hescape, hread, prepend]
    · rw [charsAfter_cons hpart, hparts, Option.map_some]

/-- A character that is neither special nor a control character is read as it is. -/
theorem readString_cons {c : Char} (hquote : c ≠ '"') (hbackslash : c ≠ '\\')
    (hcontrol : ¬c.toNat < 0x20) :
    readString (c :: rest) = prepend (.char c) (readString rest) := by
  rw [readString, if_neg hcontrol]
  · exact hquote
  · exact fun _ _ _ _ _ h _ => hbackslash h
  · exact fun _ _ h _ => hbackslash h

/-- Published documents write every character so that it is read back. -/
theorem readsBack_pretty (c : Char) : Style.pretty.ReadsBack c := by
  show ∃ part, StandsFor part c ∧
    ∀ rest, readString (escapeControls c ++ rest) = prepend part (readString rest)
  -- One case for each way in which a character is escaped; most stand for themselves.
  rw [escapeControls]
  split
  · next hc =>
    refine ⟨.char c, .char c, fun rest => ?_⟩
    rcases hc with rfl | rfl <;> rfl
  split
  · next hc => exact ⟨.char c, .char c, fun rest => hc ▸ rfl⟩
  split
  · next hc => exact ⟨.char c, .char c, fun rest => hc ▸ rfl⟩
  split
  · next hc => exact ⟨.char c, .char c, fun rest => hc ▸ rfl⟩
  split
  · next hc => exact ⟨.char c, .char c, fun rest => hc ▸ rfl⟩
  split
  · next hc => exact ⟨.char c, .char c, fun rest => hc ▸ rfl⟩
  split
  · next hcontrol =>
    refine ⟨.unit c.toNat, .unit c (by omega), fun rest => ?_⟩
    have hvalue : Hex.value? (Hex.fixed 4 c.toNat) = some c.toNat := Hex.value?_fixed (by omega)
    -- The reader takes four digits by their places, so the number is written with four.
    obtain ⟨d₁, d₂, d₃, d₄, hdigits⟩ : ∃ d₁ d₂ d₃ d₄, Hex.fixed 4 c.toNat = [d₁, d₂, d₃, d₄] :=
      ⟨_, _, _, _, rfl⟩
    rw [hdigits] at hvalue ⊢
    simp [readString, unit?, hvalue]
  · next hspecial _ _ _ _ _ hcontrol =>
    obtain ⟨hquote, hbackslash⟩ := not_or.1 hspecial
    exact ⟨.char c, .char c, fun rest => readString_cons hquote hbackslash hcontrol⟩

/-! ## Numerals -/

/-- A text that cannot go on with a numeral. -/
def NumeralEnds (rest : List Char) : Prop :=
  ∀ c ∈ rest.head?, Digits.isDigit c = false ∧ c ≠ '.' ∧ c ≠ 'e' ∧ c ≠ 'E'

theorem numeralEnds_nil : NumeralEnds [] := fun _ h => by cases h

theorem numeralEnds_cons {c : Char}
    (h : Digits.isDigit c = false ∧ c ≠ '.' ∧ c ≠ 'e' ∧ c ≠ 'E') : NumeralEnds (c :: rest) := by
  intro d hd
  rw [List.head?_cons, Option.mem_some_iff] at hd
  rwa [← hd]

/-- No numeral goes on with a blank. -/
theorem numeralEnds_of_skipBlanks {c : Char} (h : skipBlanks rest = c :: tail)
    (hc : Digits.isDigit c = false ∧ c ≠ '.' ∧ c ≠ 'e' ∧ c ≠ 'E') : NumeralEnds rest := by
  cases rest with
  | nil => cases h
  | cons d rest =>
    refine numeralEnds_cons ?_
    cases hd : isBlank d with
    | false =>
      rw [skipBlanks_cons hd, List.cons.injEq] at h
      exact h.1 ▸ hc
    | true =>
      simp only [isBlank, Bool.or_eq_true, beq_iff_eq] at hd
      rcases hd with ((rfl | rfl) | rfl) | rfl <;> decide

/-- Digits are read up to where the numeral ends. -/
theorem readDigits_append {digits : List Char} (h : ∀ c ∈ digits, Digits.isDigit c = true)
    (hrest : NumeralEnds rest) : readDigits (digits ++ rest) = (digits, rest) := by
  have hend : rest.takeWhile Digits.isDigit = [] ∧ rest.dropWhile Digits.isDigit = rest := by
    cases rest with
    | nil => exact ⟨rfl, rfl⟩
    | cons c rest => simp [(hrest c rfl).1]
  rw [readDigits, List.takeWhile_append_of_pos h, List.dropWhile_append_of_pos h, hend.1, hend.2,
    List.append_nil]

/-- A natural number is read back as its digits, with no zero in front of others. -/
theorem readWhole_ofNat (n : Nat) (hrest : NumeralEnds rest) :
    readWhole (Digits.ofNat n ++ rest) = some (Digits.ofNat n, rest) := by
  by_cases hn : n = 0
  · subst hn
    rfl
  · obtain ⟨c, digits, hdigits, hc⟩ := Digits.exists_cons_ofNat_of_pos (Nat.pos_of_ne_zero hn)
    have hall : ∀ d ∈ c :: digits, Digits.isDigit d = true := by
      rw [← hdigits]
      exact fun d => Digits.isDigit_of_mem_ofNat
    have hread := readDigits_append hall hrest
    rw [List.cons_append] at hread
    rw [hdigits, List.cons_append, readWhole, if_pos (hall c List.mem_cons_self), hread]
    exact hc

/-- A natural number is read back as a numeral without fraction and exponent. -/
theorem readNumeral_ofNat (negative : Bool) (n : Nat) (hrest : NumeralEnds rest) :
    readNumeral negative (Digits.ofNat n ++ rest)
      = some ({ negative := negative, whole := Digits.ofNat n }, rest) := by
  have hfraction : readFraction rest = some (none, rest) := by
    cases rest with
    | nil => rfl
    | cons c rest => simp [readFraction, (hrest c rfl).2.1]
  have hexponent : readExponent rest = some (none, rest) := by
    cases rest with
    | nil => rfl
    | cons c rest =>
      obtain ⟨-, -, he, hE⟩ := hrest c rfl
      simp [readExponent, he, hE]
  rw [readNumeral, readWhole_ofNat n hrest]
  simp only [hfraction, hexponent]

/-- What begins with a digit is read as a numeral. -/
theorem readScalar_of_digit {c : Char} (h : Digits.isDigit c = true) :
    readScalar (c :: rest)
      = (readNumeral false (c :: rest)).map fun read => (.number read.1, read.2) := by
  have hne : c ≠ 'n' ∧ c ≠ 't' ∧ c ≠ 'f' ∧ c ≠ '"' ∧ c ≠ '-' := by
    refine ⟨?_, ?_, ?_, ?_, ?_⟩ <;> rintro rfl <;> exact absurd h (by decide)
  rw [readScalar]
  all_goals grind

/-- An integer is read back from its text. -/
theorem exists_readScalar_text (n : WireInteger) (hrest : NumeralEnds rest) :
    ∃ numeral, readScalar (n.text ++ rest) = some (.number numeral, rest) ∧
      numeral.integer? = some n := by
  have habs := Digits.value_ofNat n.value.natAbs
  rw [WireInteger.text]
  split
  · next hn =>
    refine ⟨{ negative := true, whole := Digits.ofNat n.value.natAbs }, ?_, ?_⟩
    · rw [List.cons_append, readScalar, readNumeral_ofNat true _ hrest, Option.map_some]
    · have hvalue : -(Digits.value (Digits.ofNat n.value.natAbs) : Int) = n.value := by omega
      simp only [Numeral.integer?, Option.isSome_none, Bool.or_self, Bool.false_eq_true, if_false,
        if_true, hvalue]
      rw [if_neg (by omega), dif_pos n.fits]
  · next hn =>
    refine ⟨{ negative := false, whole := Digits.ofNat n.value.natAbs }, ?_, ?_⟩
    · obtain ⟨c, digits, hdigits, hc⟩ := Digits.exists_cons_ofNat n.value.natAbs
      have hread := readNumeral_ofNat false n.value.natAbs hrest
      rw [hdigits, List.cons_append] at hread ⊢
      rw [readScalar_of_digit hc, hread, Option.map_some]
    · have hvalue : (Digits.value (Digits.ofNat n.value.natAbs) : Int) = n.value := by omega
      simp only [Numeral.integer?, Option.isSome_none, Bool.or_self, Bool.false_eq_true, if_false,
        false_and, hvalue]
      rw [dif_pos n.fits]

end BinDelegation.Json
