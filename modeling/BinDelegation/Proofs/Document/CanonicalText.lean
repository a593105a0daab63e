import BinDelegation.Proofs.Document.Reload
import BinDelegation.Proofs.Json.Refusing

/-!
# Canonical bytes as a JSON text

The canonical form escapes the quotation mark and the backslash only, so a control character stands
in it as it is, and there a strict reader stops. Without control characters the form is a JSON text,
and what it says is the value that it was made from.

A style of writing decides every character: the reader gets it back, or refuses it. In the canonical
style the first holds of all characters from the blank on (`readsBack_canonical`), and the second of
the control characters (`refuses_canonical`), be they line ends that a reader would skip elsewhere.
The general results on written and refused texts then give both halves: with a control character in
some string or key the bytes are not read at all, and without any they are read as the sorted value.

The depth of the value and the names of its members are as the reader wants them: no deeper than it
goes, and distinct within each object.
-/

namespace BinDelegation.Json

variable {j : Json} {bytes : ByteArray}

/-! ## The canonical style -/

/-- All characters but the control characters are read back. -/
theorem readsBack_canonical {c : Char} (h : 0x20 ≤ c.toNat) : Style.canonical.ReadsBack c := by
  show ∃ part, StandsFor part c ∧
    ∀ rest, readString (escapeMinimal c ++ rest) = prepend part (readString rest)
  refine ⟨.char c, .char c, fun rest => ?_⟩
  rw [escapeMinimal]
  split
  · next hspecial => rcases hspecial with rfl | rfl <;> rfl
  · next hspecial =>
    obtain ⟨hquote, hbackslash⟩ := not_or.1 hspecial
    exact readString_cons hquote hbackslash (Nat.not_lt.2 h)

/-- A control character is written as it is, and the reader stops at it. -/
theorem refuses_canonical {c : Char} (h : c.toNat < 0x20) : Style.canonical.Refuses c := by
  show ∀ rest, readString (escapeMinimal c ++ rest) = none
  intro rest
  have hquote : c ≠ '"' := by
    rintro rfl
    exact absurd h (by decide)
  have hbackslash : c ≠ '\\' := by
    rintro rfl
    exact absurd h (by decide)
  rw [escapeMinimal, if_neg (not_or.2 ⟨hquote, hbackslash⟩), List.singleton_append, readString,
    if_pos h]
  · exact hquote
  · exact fun _ _ _ _ _ heq _ => hbackslash heq
  · exact fun _ _ heq _ => hbackslash heq

/-- The canonical style decides every character. -/
theorem decides_canonical : Style.canonical.Decides := by
  intro c
  rcases Nat.lt_or_ge c.toNat 0x20 with h | h
  · exact .inr (refuses_canonical h)
  · exact .inl (readsBack_canonical h)

/-! ## Whole texts -/

/-- With a control character in a string or a key, canonical bytes are not read. -/
theorem readBytes?_eq_none_of_control (hdistinct : j.Distinct)
    (hbytes : j.canonicalBytes = .ok bytes) (hcontrol : ∃ c ∈ j.chars, c.toNat < 0x20) :
    Json.readBytes? bytes = none := by
  obtain ⟨hreal, rfl⟩ := canonicalBytes_eq_ok.1 hbytes
  obtain ⟨c, hc, hlt⟩ := hcontrol
  -- Sorting keeps all characters, so the one that is refused stands in the text.
  have hrefuses : Style.canonical.RefusesOneOf j.sorted.chars :=
    ⟨c, (mem_chars_sorted hdistinct).2 hc, refuses_canonical hlt⟩
  rw [Json.readBytes?, charsOfBytes_toUTF8]
  cases hform : formOf? (write .canonical 0 "" j.sorted).toList with
  | none => rfl
  | some form =>
    exact absurd hrefuses ((exists_formOf?_write_iff decides_canonical hreal).1 ⟨form, hform⟩)

/-- Without control characters, canonical bytes are read as the value, its members sorted. -/
theorem readBytes?_eq_sorted (hdistinct : j.Distinct) (hdepth : j.depth ≤ maxDepth)
    (hbytes : j.canonicalBytes = .ok bytes) (hplain : ∀ c ∈ j.chars, 0x20 ≤ c.toNat) :
    Json.readBytes? bytes = some j.sorted := by
  obtain ⟨hreal, rfl⟩ := canonicalBytes_eq_ok.1 hbytes
  obtain ⟨form, hform, hdenotes⟩ := exists_formOf?_write hreal fun c hc =>
    readsBack_canonical (hplain c ((mem_chars_sorted hdistinct).1 hc))
  have hsorted : j.sorted.Distinct := distinct_of_isSorted j.sorted (isSorted_sorted j)
  have hvalue := value?_of_denotes j.sorted hdenotes hsorted
    (Nat.le_trans (depth_sorted_le hdistinct) hdepth)
  rw [Json.readBytes?, charsOfBytes_toUTF8, hform, Option.bind_some, hvalue, sorted_sorted]

/-- Of a value that is not too deep, the canonical bytes are a JSON text exactly if there is no
control character in any string or key. What they say is then the value, its members sorted, and so
the value itself if they are sorted; it has the same canonical bytes. -/
theorem readBytes?_of_canonicalBytes (hdistinct : j.Distinct) (hdepth : j.depth ≤ maxDepth)
    (hbytes : j.canonicalBytes = .ok bytes) :
    ((∃ said, Json.readBytes? bytes = some said) ↔ ∀ c ∈ j.chars, 0x20 ≤ c.toNat) ∧
    ∀ said, Json.readBytes? bytes = some said →
      said = j.sorted ∧ (j.isSorted = true → said = j) ∧ said.canonicalBytes = .ok bytes := by
  have hplain (said : Json) (hsaid : Json.readBytes? bytes = some said) :
      ∀ c ∈ j.chars, 0x20 ≤ c.toNat := by
    intro c hc
    by_contra hlt
    rw [readBytes?_eq_none_of_control hdistinct hbytes ⟨c, hc, Nat.not_le.1 hlt⟩] at hsaid
    cases hsaid
  refine ⟨⟨?_, fun h => ⟨_, readBytes?_eq_sorted hdistinct hdepth hbytes h⟩⟩, ?_⟩
  · rintro ⟨said, hsaid⟩
    exact hplain said hsaid
  · intro said hsaid
    have hread := readBytes?_eq_sorted hdistinct hdepth hbytes (hplain said hsaid)
    obtain rfl : j.sorted = said := Option.some.inj (hread.symm.trans hsaid)
    refine ⟨rfl, sorted_of_isSorted j, ?_⟩
    -- What was read is sorted already, so it is written as it was.
    obtain ⟨hreal, hwritten⟩ := canonicalBytes_eq_ok.1 hbytes
    rw [canonicalBytes_eq_ok, sorted_sorted]
    exact ⟨hreal, hwritten⟩

namespace Sample

/-- A value with the least and the greatest integer, the two characters that are escaped, and a
character of several bytes. -/
def plain : Json :=
  object [("\\\"é", array [integer ⟨-9223372036854775808, by decide⟩, natural 18446744073709551615,
    null, object []])]

/-- A value with a line end in a key, two containers deep. -/
def broken : Json := array [string "a", object [("a\n", bool true)]]

end Sample

/-- A line end is a blank for a reader, but not within a key. -/
theorem readBytes?_of_sample :
    (Sample.plain.Distinct ∧ Sample.plain.depth ≤ maxDepth ∧
      ∃ bytes, Sample.plain.canonicalBytes = .ok bytes ∧
        Json.readBytes? bytes = some Sample.plain) ∧
    Sample.broken.Distinct ∧ Sample.broken.depth ≤ maxDepth ∧
      ∃ bytes, Sample.broken.canonicalBytes = .ok bytes ∧ Json.readBytes? bytes = none := by
  have hsorted : Sample.plain.isSorted = true := by decide +kernel
  have hdistinct : Sample.plain.Distinct := distinct_of_isSorted _ hsorted
  have hdepth : Sample.plain.depth ≤ maxDepth := by decide
  have hdistinct' : Sample.broken.Distinct := distinct_of_isSorted _ (by decide +kernel)
  have hdepth' : Sample.broken.depth ≤ maxDepth := by decide
  have hplain : (Sample.plain.chars.all fun c => decide (0x20 ≤ c.toNat)) = true := by
    decide +kernel
  have hbroken : '\n' ∈ Sample.broken.chars := by decide +kernel
  refine ⟨⟨hdistinct, hdepth, _, rfl, ?_⟩, hdistinct', hdepth', _, rfl, ?_⟩
  · obtain ⟨hiff, hsaid⟩ := readBytes?_of_canonicalBytes hdistinct hdepth rfl
    obtain ⟨said, hread⟩ :=
      hiff.2 fun c hc => of_decide_eq_true (List.all_eq_true.1 hplain c hc)
    rw [hread, (hsaid said hread).2.1 hsorted]
  · obtain ⟨hiff, -⟩ := readBytes?_of_canonicalBytes hdistinct' hdepth' rfl
    rw [← Option.not_isSome_iff_eq_none, Option.isSome_iff_exists]
    exact fun h => absurd (hiff.1 h '\n' hbroken) (by decide)

end BinDelegation.Json
