import BinDelegation.Proofs.Text.Hex
import Mathlib.Tactic.SplitIfs

/-!
# Bytes in hexadecimal

What is read from digits of either case is what is written with the same digits in lower case. A
text from which nothing is read has an odd number of bytes, or there is a first byte in it that is
no digit.

Reading looks at the number of bytes first, then at the digits from left to right, and joins them
two by two. `decode_cases` follows it once and says everything that can come out: bytes, with the
digits that they are written with, or an error that `Misses` explains. Both results about reading,
`decode_eq_ok` and `decode_eq_error`, are read off it, because what `Misses` says cannot be said of
digits (`not_misses`) and only of one error (`Misses.unique`).

Errors name a byte and its position, not a character. A character that is no digit may have several
bytes; the first of them is no digit either (`exists_leadByte`), so it is the one that is named.
-/

namespace BinDelegation.Hex

variable {c : Char} {cs : List Char} {s : String} {bytes : List UInt8} {position : Nat}
  {e : DecodeError}

/-! ## Digits of either case -/

/-- A digit of either case. -/
def IsDigit (c : Char) : Prop :=
  ('0' ≤ c ∧ c ≤ '9') ∨ ('a' ≤ c ∧ c ≤ 'f') ∨ ('A' ≤ c ∧ c ≤ 'F')

instance : DecidablePred IsDigit := fun c =>
  inferInstanceAs
    (Decidable (('0' ≤ c ∧ c ≤ '9') ∨ ('a' ≤ c ∧ c ≤ 'f') ∨ ('A' ≤ c ∧ c ≤ 'F')))

theorem isDigit_iff (c : Char) : IsDigit c ↔ (48 ≤ c.toNat ∧ c.toNat ≤ 57) ∨
    (97 ≤ c.toNat ∧ c.toNat ≤ 102) ∨ (65 ≤ c.toNat ∧ c.toNat ≤ 70) := Iff.rfl

/-- Other characters denote nothing. -/
theorem digitValue?_eq_none : digitValue? c = none ↔ ¬IsDigit c := by
  rw [digitValue?, IsDigit]
  split_ifs with hdecimal hlower hupper
  · exact iff_of_false (by simp) (not_not_intro (.inl hdecimal))
  · exact iff_of_false (by simp) (not_not_intro (.inr (.inl hlower)))
  · exact iff_of_false (by simp) (not_not_intro (.inr (.inr hupper)))
  · exact iff_of_true rfl (by simp only [hdecimal, hlower, hupper, or_self, not_false_eq_true])

/-- A digit stands for the number whose digit is the same in lower case. -/
theorem exists_digitValue? (h : IsDigit c) :
    ∃ n < 16, digitValue? c = some n ∧ digit n = c.toLower := by
  have hc : Char.ofNat c.toNat = c := Char.ofNat_toNat c
  rcases (isDigit_iff c).1 h with ⟨hlow, hhigh⟩ | ⟨hlow, hhigh⟩ | ⟨hlow, hhigh⟩
  · refine ⟨c.toNat - 48, by omega, ?_⟩
    rw [← hc]
    interval_cases c.toNat <;> exact ⟨rfl, rfl⟩
  · refine ⟨c.toNat - 87, by omega, ?_⟩
    rw [← hc]
    interval_cases c.toNat <;> exact ⟨rfl, rfl⟩
  · refine ⟨c.toNat - 55, by omega, ?_⟩
    rw [← hc]
    interval_cases c.toNat <;> exact ⟨rfl, rfl⟩

/-- A digit that is written is read, and is in lower case. -/
theorem isDigit_digit : ∀ n < 16, IsDigit (digit n) ∧ (digit n).toLower = digit n := by decide

/-! ## Digits among bytes -/

/-- A byte that is a digit. -/
def IsDigitByte (b : UInt8) : Prop := IsDigit (Char.ofNat b.toNat)

instance : DecidablePred IsDigitByte := fun b =>
  inferInstanceAs (Decidable (IsDigit (Char.ofNat b.toNat)))

theorem isDigitByte_iff (b : UInt8) : IsDigitByte b ↔ (48 ≤ b.toNat ∧ b.toNat ≤ 57) ∨
    (97 ≤ b.toNat ∧ b.toNat ≤ 102) ∨ (65 ≤ b.toNat ∧ b.toNat ≤ 70) := by
  have hvalid : b.toNat.isValidChar := .inl (Nat.lt_trans b.toNat_lt (by decide))
  have hchar : (Char.ofNat b.toNat).toNat = b.toNat := by
    rw [Char.ofNat, dif_pos hvalid]
    rfl
  rw [IsDigitByte, isDigit_iff, hchar]

/-- A digit is one byte. -/
theorem utf8EncodeChar_of_isDigit (h : IsDigit c) :
    String.utf8EncodeChar c = [UInt8.ofNat c.toNat] := by
  have hle : c.val.toNat ≤ 127 := by
    have hnat := (isDigit_iff c).1 h
    change c.toNat ≤ 127
    omega
  rw [String.utf8EncodeChar, if_pos hle]
  rfl

/-- The bytes of a text of digits are digits, one for each character. -/
theorem flatMap_utf8EncodeChar_of_isDigit (h : ∀ c ∈ cs, IsDigit c) :
    cs.flatMap String.utf8EncodeChar = cs.map fun c => UInt8.ofNat c.toNat := by
  rw [List.flatMap_congr fun c hc => utf8EncodeChar_of_isDigit (h c hc), ← List.map_eq_flatMap]

/-- The byte of a digit is one. -/
theorem isDigitByte_ofNat (h : IsDigit c) : IsDigitByte (UInt8.ofNat c.toNat) := by
  rw [isDigitByte_iff, UInt8.toNat_ofNat']
  rw [isDigit_iff] at h
  omega

/-- A text of digits has as many bytes as characters. -/
theorem length_utf8_of_isDigit (h : ∀ c ∈ s.toList, IsDigit c) :
    (utf8 s).length = s.toList.length := by
  rw [utf8_eq_flatMap, flatMap_utf8EncodeChar_of_isDigit h, List.length_map]

/-- The bytes of a text of digits are digits. -/
theorem isDigitByte_of_mem_utf8 (h : ∀ c ∈ s.toList, IsDigit c) :
    ∀ b ∈ utf8 s, IsDigitByte b := by
  rw [utf8_eq_flatMap, flatMap_utf8EncodeChar_of_isDigit h]
  exact List.forall_mem_map.2 fun c hc => isDigitByte_ofNat (h c hc)

/-- The bytes of a character that is no digit begin with one that is no digit. -/
theorem exists_leadByte (h : ¬IsDigit c) : ¬IsDigitByte (leadByte c) ∧
    ∃ more, String.utf8EncodeChar c = leadByte c :: more := by
  obtain ⟨b, more, hbytes⟩ := List.exists_cons_of_ne_nil (String.utf8EncodeChar_ne_nil (c := c))
  have hlead : leadByte c = b := by rw [leadByte, hbytes, List.headD_cons]
  refine ⟨?_, more, by rw [hbytes, hlead]⟩
  have hnat : ¬((48 ≤ c.val.toNat ∧ c.val.toNat ≤ 57) ∨ (97 ≤ c.val.toNat ∧ c.val.toNat ≤ 102) ∨
    (65 ≤ c.val.toNat ∧ c.val.toNat ≤ 70)) := h
  rw [isDigitByte_iff, leadByte, String.utf8EncodeChar]
  -- More than one byte begin with one that is behind all digits.
  split_ifs <;> simp only [List.headD_cons, UInt8.toNat_ofNat'] <;> omega

/-! ## Bytes and their digits -/

/-- Texts of one width for each byte tell the bytes. -/
theorem encode_inj {other : List UInt8} (h : encode bytes = encode other) : bytes = other := by
  have hlist := String.ofList_injective h
  clear h
  induction bytes generalizing other with
  | nil =>
    cases other with
    | nil => rfl
    | cons b other => simp [fixed] at hlist
  | cons a bytes ih =>
    cases other with
    | nil => simp [fixed] at hlist
    | cons b other =>
      rw [List.flatMap_cons, List.flatMap_cons] at hlist
      obtain ⟨hfirst, hrest⟩ := List.append_inj hlist (by rw [length_fixed, length_fixed])
      rw [UInt8.toNat_inj.1 (fixed_inj a.toNat_lt b.toNat_lt hfirst), ih hrest]

/-- Bytes are written with digits in lower case. -/
theorem isDigit_of_mem_encode (h : c ∈ (encode bytes).toList) : IsDigit c ∧ c.toLower = c := by
  obtain ⟨n, hn, rfl⟩ := exists_digit_of_isLowerDigit (isLowerDigit_of_mem_encode h)
  exact isDigit_digit n hn

/-- Two digits of a byte are the digits of the two halves from which it was joined. -/
theorem flatMap_fixed_bytesOfNibbles {values : List Nat} (heven : values.length % 2 = 0)
    (h : ∀ n ∈ values, n < 16) :
    (bytesOfNibbles values).flatMap (fun b => fixed 2 b.toNat) = values.map digit := by
  induction values using bytesOfNibbles.induct with
  | case1 high low rest ih =>
    have hhigh : high < 16 := h high (by simp)
    have hlow : low < 16 := h low (by simp)
    have hrest : rest.length % 2 = 0 := by
      simp only [List.length_cons] at heven
      omega
    have hbyte : (UInt8.ofNat (16 * high + low)).toNat = 16 * high + low :=
      UInt8.toNat_ofNat_of_lt' (Nat.lt_of_le_of_lt (m := 255) (by omega) (by decide))
    have hdigits : fixed 2 (16 * high + low) = [digit high, digit low] := by
      have hdiv : (16 * high + low) / 16 % 16 = high := by omega
      have hmod : (16 * high + low) % 16 = low := by omega
      rw [fixed, fixed, fixed, hdiv, hmod]
      rfl
    rw [bytesOfNibbles, List.flatMap_cons, hbyte, hdigits,
      ih hrest fun n hn => h n (by simp [hn])]
    rfl
  | case2 values hshort =>
    cases values with
    | nil => rfl
    | cons high values =>
      cases values with
      | nil => cases heven
      | cons low rest => exact absurd rfl (hshort high low rest)

/-! ## What is read -/

/-- Digits are read as the numbers that they denote. -/
theorem exists_nibbles (h : ∀ c ∈ cs, IsDigit c) (position : Nat) :
    ∃ values, nibbles position cs = .ok values ∧ (∀ n ∈ values, n < 16) ∧
      values.map digit = cs.map Char.toLower := by
  induction cs generalizing position with
  | nil => exact ⟨[], rfl, by simp, rfl⟩
  | cons c rest ih =>
    obtain ⟨n, hn, hvalue, hdigit⟩ := exists_digitValue? (h c (by simp))
    obtain ⟨values, hread, hvalues, hmap⟩ := ih (fun c hc => h c (by simp [hc])) (position + 1)
    refine ⟨n :: values, by rw [nibbles, hvalue, hread]; rfl, ?_, ?_⟩
    · exact List.forall_mem_cons.2 ⟨hn, hvalues⟩
    · rw [List.map_cons, List.map_cons, hdigit, hmap]

/-- The first character that is no digit is told with its position. -/
theorem nibbles_append (h : ∀ c ∈ cs, IsDigit c) (hc : ¬IsDigit c) (rest : List Char)
    (position : Nat) : nibbles position (cs ++ c :: rest)
      = .error (.notADigit (leadByte c) (position + cs.length)) := by
  induction cs generalizing position with
  | nil => rw [List.nil_append, nibbles, digitValue?_eq_none.2 hc]; rfl
  | cons d cs ih =>
    obtain ⟨n, -, hvalue, -⟩ := exists_digitValue? (h d (by simp))
    rw [List.cons_append, nibbles, hvalue, ih (fun c hc => h c (by simp [hc])),
      List.length_cons, Nat.add_right_comm, Nat.add_assoc]
    rfl

theorem length_utf8 (s : String) : (utf8 s).length = s.utf8ByteSize := by
  rw [utf8, Array.length_toList]
  rfl

/-- Bytes are read from digits if there are two for each byte. -/
theorem exists_decode (h : ∀ c ∈ s.toList, IsDigit c) (heven : (utf8 s).length % 2 = 0) :
    ∃ bytes, decode s = .ok bytes ∧ (encode bytes).toList = s.toList.map Char.toLower := by
  obtain ⟨values, hread, hvalues, hmap⟩ := exists_nibbles h 0
  refine ⟨bytesOfNibbles values, ?_, ?_⟩
  · rw [decode, ← length_utf8, if_neg (by omega), hread]
    rfl
  · have hlength : values.length % 2 = 0 := by
      have hsame := congrArg List.length hmap
      rw [length_utf8_of_isDigit h] at heven
      rw [List.length_map, List.length_map] at hsame
      rw [hsame, heven]
    rw [encode, String.toList_ofList, flatMap_fixed_bytesOfNibbles hlength hvalues, hmap]

/-- What is wrong with bytes that are not two digits for each of others: how many there are comes
first, then the first of them that is no digit. -/
inductive Misses (given : List UInt8) : DecodeError → Prop where
  | oddLength (h : given.length % 2 = 1) : Misses given .oddLength
  | notADigit {digits rest : List UInt8} {b : UInt8} (heven : given.length % 2 = 0)
      (hgiven : given = digits ++ b :: rest) (hdigits : ∀ b ∈ digits, IsDigitByte b)
      (hb : ¬IsDigitByte b) : Misses given (.notADigit b digits.length)

/-- There is one thing that is wrong first. -/
theorem Misses.unique {given : List UInt8} {e' : DecodeError} (h : Misses given e)
    (h' : Misses given e') : e = e' := by
  -- The digits before the first byte that is none are those up to the first such byte.
  have htake {digits rest : List UInt8} {b : UInt8} (hdigits : ∀ b ∈ digits, IsDigitByte b)
      (hb : ¬IsDigitByte b) :
      (digits ++ b :: rest).takeWhile (fun b => decide (IsDigitByte b)) = digits := by
    rw [List.takeWhile_append_of_pos (by simpa using hdigits),
      List.takeWhile_cons_of_neg (by simpa using hb), List.append_nil]
  cases h with
  | oddLength hodd =>
    cases h' with
    | oddLength => rfl
    | notADigit heven => omega
  | notADigit heven hgiven hdigits hb =>
    cases h' with
    | oddLength => omega
    | notADigit _ hgiven' hdigits' hb' =>
      subst hgiven
      have hsame := congrArg (List.takeWhile fun b => decide (IsDigitByte b)) hgiven'
      rw [htake hdigits hb, htake hdigits' hb'] at hsame
      subst hsame
      cases List.append_cancel_left hgiven'
      rfl

/-- Nothing is wrong with an even number of digits. -/
theorem not_misses {given : List UInt8} (heven : given.length % 2 = 0)
    (hdigits : ∀ b ∈ given, IsDigitByte b) : ¬Misses given e := by
  intro hmisses
  cases hmisses with
  | oddLength hodd => omega
  | notADigit _ hgiven _ hb => exact hb (hdigits _ (by simp [hgiven]))

/-- There are two digits for each byte. -/
theorem length_utf8_of_encode (hdigits : ∀ c ∈ s.toList, IsDigit c)
    (hlower : (encode bytes).toList = s.toList.map Char.toLower) :
    (utf8 s).length = 2 * bytes.length := by
  have hlength := congrArg List.length hlower
  rw [length_encode, List.length_map] at hlength
  rw [length_utf8_of_isDigit hdigits, hlength]

/-- Reading gives bytes, or tells what is wrong. -/
theorem decode_cases (s : String) :
    (∃ bytes, decode s = .ok bytes ∧ (∀ c ∈ s.toList, IsDigit c) ∧
        (encode bytes).toList = s.toList.map Char.toLower) ∨
      ∃ e, decode s = .error e ∧ Misses (utf8 s) e := by
  rcases Nat.mod_two_eq_zero_or_one (utf8 s).length with heven | hodd
  · by_cases h : ∀ c ∈ s.toList, IsDigit c
    · obtain ⟨bytes, hread, hdigits⟩ := exists_decode h heven
      exact .inl ⟨bytes, hread, h, hdigits⟩
    · -- There is a first character that is no digit, and so a first such byte.
      have hsome : (s.toList.find? fun c => decide ¬IsDigit c).isSome = true := by
        simpa using h
      obtain ⟨c, hc⟩ := Option.isSome_iff_exists.1 hsome
      obtain ⟨hnot, digits, rest, hsplit, hdigits⟩ := List.find?_eq_some_iff_append.1 hc
      replace hnot : ¬IsDigit c := by simpa using hnot
      replace hdigits : ∀ d ∈ digits, IsDigit d := by simpa using hdigits
      obtain ⟨hlead, more, hbytes⟩ := exists_leadByte hnot
      refine .inr ⟨.notADigit (leadByte c) digits.length, ?_, ?_⟩
      · rw [decode, ← length_utf8, if_neg (by omega), hsplit, nibbles_append hdigits hnot,
          Nat.zero_add]
        rfl
      · have hgiven : utf8 s = (digits.map fun d => UInt8.ofNat d.toNat) ++
            leadByte c :: (more ++ rest.flatMap String.utf8EncodeChar) := by
          rw [utf8_eq_flatMap, hsplit, List.flatMap_append, List.flatMap_cons, hbytes,
            flatMap_utf8EncodeChar_of_isDigit hdigits, List.cons_append]
        have hmisses := Misses.notADigit heven hgiven (List.forall_mem_map.2 fun d hd =>
          isDigitByte_ofNat (hdigits d hd)) hlead
        rwa [List.length_map] at hmisses
  · refine .inr ⟨.oddLength, ?_, .oddLength hodd⟩
    rw [decode, ← length_utf8, if_pos hodd]

/-- What is read is what is written with the same digits in lower case. -/
theorem decode_eq_ok : decode s = .ok bytes ↔
    (∀ c ∈ s.toList, IsDigit c) ∧ (encode bytes).toList = s.toList.map Char.toLower := by
  rcases decode_cases s with ⟨bytes', hread, hdigits, hlower⟩ | ⟨e, hread, hmisses⟩
  · rw [hread, Except.ok.injEq]
    constructor
    · rintro rfl
      exact ⟨hdigits, hlower⟩
    · rintro ⟨-, hlower'⟩
      exact encode_inj (String.toList_inj.1 (hlower.trans hlower'.symm))
  · rw [hread]
    refine iff_of_false (by simp) fun ⟨hdigits, hlower⟩ => ?_
    have hlength := length_utf8_of_encode hdigits hlower
    exact not_misses (by omega) (isDigitByte_of_mem_utf8 hdigits) hmisses

/-- What is told is what is wrong first. -/
theorem decode_eq_error : decode s = .error e ↔ Misses (utf8 s) e := by
  rcases decode_cases s with ⟨bytes, hread, hdigits, hlower⟩ | ⟨e', hread, hmisses⟩
  · rw [hread]
    have hlength := length_utf8_of_encode hdigits hlower
    exact iff_of_false (by simp) (not_misses (by omega) (isDigitByte_of_mem_utf8 hdigits))
  · rw [hread, Except.error.injEq]
    constructor
    · rintro rfl
      exact hmisses
    · exact hmisses.unique

end BinDelegation.Hex
