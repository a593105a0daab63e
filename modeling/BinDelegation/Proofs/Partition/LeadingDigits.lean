import BinDelegation.Assignment
import BinDelegation.Proofs.Text.HexBytes
import Mathlib.Data.Nat.Digits.Defs

/-!
# Numbers in front of a text

A number is read off the first bytes of a text if they are hexadecimal digits of either case. Bytes
are counted, not characters: a cut within a character leaves no number, since none of the bytes of a
longer character is a digit. A plus sign may stand in front of the digits, and counts as one of the
bytes. Fewer bytes give a quotient of the number that more of them give.

`Hex.Denotes run n` is the specification, on bytes alone: behind a sign, if there is one, comes at
least one digit, all bytes are digits, and `n` is the number that they denote. The program works on
characters. It takes as many of them as fill the bytes asked for (`takeBytes?`), and reads the text
that they make (`signedHexValue?`).

The two views meet in `exists_takeBytes?`. Where all bytes are below 128 every character is one
byte, so no cut falls within one; and a denotation has such bytes only (`Denotes.lt_of_mem`).
-/

namespace BinDelegation

namespace Hex

variable {cs : List Char} {digits : List UInt8}

/-! ## Numbers that digits denote -/

/-- The place of a byte among the sixteen digits, in either case. -/
def digitNumber (b : UInt8) : Nat :=
  "0123456789abcdef".toList.idxOf (Char.ofNat b.toNat).toLower

/-- The number that digits denote, the most significant first. -/
def number (digits : List UInt8) : Nat := Nat.ofDigits 16 (digits.map digitNumber).reverse

/-- Digits behind others make these count more. -/
theorem number_append (x y : List UInt8) :
    number (x ++ y) = number y + 16 ^ y.length * number x := by
  rw [number, List.map_append, List.reverse_append, Nat.ofDigits_append, List.length_reverse,
    List.length_map, number, number]

/-- Digits stand at the places that they denote. -/
theorem idxOf_digit : ∀ n < 16, "0123456789abcdef".toList.idxOf (digit n) = n := by decide

/-- A character that is read as a digit is one byte long, and that byte denotes the same number. -/
theorem digitValue?_eq_digitNumber {c : Char} (h : IsDigit c) :
    digitValue? c = some (digitNumber (UInt8.ofNat c.toNat)) := by
  obtain ⟨n, hn, hvalue, hdigit⟩ := exists_digitValue? h
  have hbyte : (UInt8.ofNat c.toNat).toNat = c.toNat := by
    rw [isDigit_iff] at h
    exact UInt8.toNat_ofNat_of_lt' (Nat.lt_of_le_of_lt (m := 255) (by omega) (by decide))
  rw [hvalue, digitNumber, hbyte, Char.ofNat_toNat, ← hdigit, idxOf_digit n hn]

/-- A digit denotes less than sixteen. -/
theorem digitNumber_lt {b : UInt8} (h : IsDigitByte b) : digitNumber b < 16 := by
  obtain ⟨n, hn, -, hdigit⟩ := exists_digitValue? h
  rw [digitNumber, ← hdigit, idxOf_digit n hn]
  exact hn

/-- Digits denote less than the next place counts. -/
theorem number_lt (h : ∀ b ∈ digits, IsDigitByte b) : number digits < 16 ^ digits.length := by
  have hdigits : ∀ n ∈ (digits.map digitNumber).reverse, n < 16 := by
    intro n hn
    obtain ⟨b, hb, rfl⟩ := List.mem_map.1 (List.mem_reverse.1 hn)
    exact digitNumber_lt (h b hb)
  have hlt := Nat.ofDigits_lt_base_pow_length (by decide) hdigits
  rwa [List.length_reverse, List.length_map] at hlt

/-- The bytes of a text are digits exactly if its characters are. -/
theorem forall_isDigitByte_iff :
    (∀ b ∈ cs.flatMap String.utf8EncodeChar, IsDigitByte b) ↔ ∀ c ∈ cs, IsDigit c := by
  constructor
  · intro h c hc
    by_contra hnot
    obtain ⟨hlead, more, hbytes⟩ := exists_leadByte hnot
    exact hlead (h _ (List.mem_flatMap.2 ⟨c, hc, hbytes ▸ List.mem_cons_self⟩))
  · intro h
    rw [flatMap_utf8EncodeChar_of_isDigit h]
    exact List.forall_mem_map.2 fun c hc => isDigitByte_ofNat (h c hc)

/-- Digits are read as the number that their bytes denote. -/
theorem value?_of_isDigit (h : ∀ c ∈ cs, IsDigit c) :
    value? cs = some (number (cs.flatMap String.utf8EncodeChar)) := by
  induction cs using List.reverseRecOn with
  | nil => rfl
  | append_singleton cs c ih =>
    have hc : IsDigit c := h c (by simp)
    have hread := ih fun d hd => h d (List.mem_append_left _ hd)
    rw [value?_concat, hread, digitValue?_eq_digitNumber hc, List.flatMap_append,
      List.flatMap_singleton, utf8EncodeChar_of_isDigit hc, number_append, Option.bind_some,
      Option.map_some, Nat.add_comm, number]
    rfl

/-- Nothing is read from other characters. -/
theorem isDigit_of_value? {n : Nat} (h : value? cs = some n) : ∀ c ∈ cs, IsDigit c := by
  induction cs using List.reverseRecOn generalizing n with
  | nil => exact fun c hc => absurd hc List.not_mem_nil
  | append_singleton cs c ih =>
    rw [value?_concat, Option.bind_eq_some_iff] at h
    obtain ⟨m, hread, hdigit⟩ := h
    obtain ⟨d, hvalue, -⟩ := Option.map_eq_some_iff.1 hdigit
    -- A text is read from its end here, so the last character is looked at first.
    have hc : IsDigit c := by
      by_contra hnot
      rw [digitValue?_eq_none.2 hnot] at hvalue
      cases hvalue
    exact List.forall_mem_append.2 ⟨ih hread, List.forall_mem_singleton.2 hc⟩

/-- What is read from a text is the number that its bytes denote. -/
theorem value?_eq_some_iff {n : Nat} : value? cs = some n ↔
    (∀ b ∈ cs.flatMap String.utf8EncodeChar, IsDigitByte b) ∧
      number (cs.flatMap String.utf8EncodeChar) = n := by
  rw [forall_isDigitByte_iff]
  constructor
  · intro h
    have hdigits := isDigit_of_value? h
    rw [value?_of_isDigit hdigits] at h
    exact ⟨hdigits, Option.some.inj h⟩
  · rintro ⟨hdigits, rfl⟩
    exact value?_of_isDigit hdigits

/-! ## Numbers with a sign -/

/-- The bytes behind a plus sign in front, or all bytes if there is none. -/
def unsigned (run : List UInt8) : List UInt8 := if run.head? = some 43 then run.tail else run

/-- Without a sign a text is no longer. -/
theorem length_unsigned_le (run : List UInt8) : (unsigned run).length ≤ run.length := by
  rw [unsigned]
  split
  · rw [List.length_tail]
    exact Nat.sub_le _ _
  · exact Nat.le_refl _

/-- A sign stands in front of all bytes. -/
theorem unsigned_append {x : List UInt8} (hx : x ≠ []) (y : List UInt8) :
    unsigned (x ++ y) = unsigned x ++ y := by
  rw [unsigned, unsigned, List.head?_append_of_ne_nil _ hx, List.tail_append_of_ne_nil hx]
  split <;> rfl

/-- A byte string that denotes a number: at least one digit, with or without a plus sign in
front. -/
structure Denotes (run : List UInt8) (n : Nat) : Prop where
  ne_nil : unsigned run ≠ []
  digits : ∀ b ∈ unsigned run, IsDigitByte b
  value : number (unsigned run) = n

/-- Bytes that denote a number are characters of their own. -/
theorem Denotes.lt_of_mem {run : List UInt8} {n : Nat} (h : Denotes run n) :
    ∀ b ∈ run, b.toNat < 128 := by
  intro b hb
  have hdigits := h.digits
  rw [unsigned] at hdigits
  split at hdigits
  · next hhead =>
    obtain ⟨rest, rfl⟩ := List.head?_eq_some_iff.1 hhead
    rcases List.mem_cons.1 hb with rfl | hb
    · decide
    · have hnat := (isDigitByte_iff b).1 (hdigits b hb)
      omega
  · have hnat := (isDigitByte_iff b).1 (hdigits b hb)
    omega

/-- Bytes denote less than the next place counts. -/
theorem Denotes.lt_pow {run : List UInt8} {n : Nat} (h : Denotes run n) : n < 16 ^ run.length := by
  calc n = number (unsigned run) := h.value.symm
    _ < 16 ^ (unsigned run).length := number_lt h.digits
    _ ≤ 16 ^ run.length := Nat.pow_le_pow_right (by decide) (length_unsigned_le run)

/-- Fewer bytes denote a quotient, if there is a digit among them. -/
theorem Denotes.of_append {x y : List UInt8} {n : Nat} (h : Denotes (x ++ y) n)
    (hx : unsigned x ≠ []) : Denotes x (n / 16 ^ y.length) := by
  have hne : x ≠ [] := by
    rintro rfl
    exact hx rfl
  obtain ⟨-, hdigits, rfl⟩ := h
  rw [unsigned_append hne] at hdigits ⊢
  obtain ⟨hfirst, hlast⟩ := List.forall_mem_append.1 hdigits
  refine ⟨hx, hfirst, ?_⟩
  rw [number_append, Nat.add_mul_div_left _ _ (Nat.pow_pos (by decide)),
    Nat.div_eq_of_lt (number_lt hlast), Nat.zero_add]

/-- Characters behind a sign, or without one, denote what is read from them. -/
theorem denotes_iff {run : List UInt8} {digits : List Char} {n : Nat} (hne : digits ≠ [])
    (hrun : unsigned run = digits.flatMap String.utf8EncodeChar) :
    Denotes run n ↔ value? digits = some n := by
  rw [value?_eq_some_iff, ← hrun]
  refine ⟨fun h => ⟨h.digits, h.value⟩, fun h => ⟨fun hnil => ?_, h.1, h.2⟩⟩
  rw [hrun, List.flatMap_eq_nil_iff] at hnil
  obtain ⟨c, rest, rfl⟩ := List.exists_cons_of_ne_nil hne
  exact String.utf8EncodeChar_ne_nil (hnil c List.mem_cons_self)

end Hex

/-! ## Bytes in front of a text -/

/-- A byte below 128 in front of a character is the whole character. -/
theorem eq_of_utf8EncodeChar {c : Char} {b : UInt8} {more : List UInt8}
    (h : String.utf8EncodeChar c = b :: more) (hb : b.toNat < 128) :
    b.toNat = c.toNat ∧ more = [] := by
  rw [String.utf8EncodeChar] at h
  -- More than one byte begin with one of 192 or above.
  split_ifs at h with hone <;> cases h
  · exact ⟨UInt8.toNat_ofNat_of_lt' (Nat.lt_of_le_of_lt hone (by decide)), rfl⟩
  all_goals
    rw [UInt8.toNat_ofNat'] at hb
    omega

/-- The characters that are taken stand in front and fill just the bytes that were asked for. -/
theorem takeBytes?_eq_some {n : Nat} {cs front : List Char} (h : takeBytes? n cs = some front) :
    ∃ behind, cs = front ++ behind ∧ (front.flatMap String.utf8EncodeChar).length = n := by
  induction n, cs using takeBytes?.induct generalizing front with
  | case1 cs =>
    rw [takeBytes?] at h
    cases h
    exact ⟨cs, rfl, rfl⟩
  | case2 n => cases h
  | case3 n c rest hsize ih =>
    rw [takeBytes?, if_pos hsize] at h
    obtain ⟨front, hfront, rfl⟩ := Option.map_eq_some_iff.1 h
    obtain ⟨behind, rfl, hlength⟩ := ih hfront
    refine ⟨behind, rfl, ?_⟩
    rw [List.flatMap_cons, List.length_append, hlength, String.length_utf8EncodeChar]
    omega
  | case4 n c rest hsize =>
    rw [takeBytes?, if_neg hsize] at h
    cases h

/-- No character is cut in two behind bytes that are characters of their own. -/
theorem exists_takeBytes? {n : Nat} {cs : List Char}
    (hlength : n ≤ (cs.flatMap String.utf8EncodeChar).length)
    (hsingle : ∀ b ∈ (cs.flatMap String.utf8EncodeChar).take n, b.toNat < 128) :
    ∃ front, takeBytes? n cs = some front := by
  induction n generalizing cs with
  | zero => exact ⟨[], by rw [takeBytes?]⟩
  | succ n ih =>
    cases cs with
    | nil => cases hlength
    | cons c rest =>
      obtain ⟨b, more, hbytes⟩ := List.exists_cons_of_ne_nil (String.utf8EncodeChar_ne_nil (c := c))
      rw [List.flatMap_cons, hbytes, List.cons_append] at hlength hsingle
      rw [List.take_succ_cons, List.forall_mem_cons] at hsingle
      obtain ⟨-, rfl⟩ := eq_of_utf8EncodeChar hbytes hsingle.1
      have hsize : c.utf8Size = 1 := by rw [← String.length_utf8EncodeChar, hbytes]; rfl
      obtain ⟨front, hfront⟩ := ih (Nat.le_of_succ_le_succ hlength) hsingle.2
      refine ⟨c :: front, ?_⟩
      rw [takeBytes?, hsize, if_pos (Nat.le_add_left 1 n), Nat.add_sub_cancel, hfront]
      rfl

/-! ## What is read -/

/-- The bytes of a character that is no plus sign do not begin with one. -/
theorem unsigned_of_ne_plus {c : Char} {rest : List Char} (hc : c ≠ '+') :
    Hex.unsigned ((c :: rest).flatMap String.utf8EncodeChar)
      = (c :: rest).flatMap String.utf8EncodeChar := by
  obtain ⟨b, more, hbytes⟩ := List.exists_cons_of_ne_nil (String.utf8EncodeChar_ne_nil (c := c))
  rw [List.flatMap_cons, hbytes, List.cons_append, Hex.unsigned, if_neg]
  intro hhead
  obtain rfl : b = 43 := Option.some.inj hhead
  exact hc (Char.toNat_inj.1 (eq_of_utf8EncodeChar hbytes (by decide)).1.symm)

/-- Without a sign in front, digits denote their number. -/
theorem signedHexValue?_of_ne_plus {c : Char} {rest : List Char} (hc : c ≠ '+') :
    signedHexValue? (c :: rest) = Hex.value? (c :: rest) := by
  unfold signedHexValue?
  split <;> simp_all

/-- What is read with a sign is what the bytes denote. -/
theorem signedHexValue?_eq_some_iff {cs : List Char} {n : Nat} :
    signedHexValue? cs = some n ↔ Hex.Denotes (cs.flatMap String.utf8EncodeChar) n := by
  cases cs with
  | nil => exact iff_of_false (by rw [signedHexValue?]; simp) fun h => h.ne_nil rfl
  | cons c rest =>
    by_cases hc : c = '+'
    · subst hc
      cases rest with
      | nil => exact iff_of_false (by rw [signedHexValue?]; simp) fun h => h.ne_nil rfl
      | cons d rest => exact (Hex.denotes_iff (List.cons_ne_nil d rest) rfl).symm
    · rw [signedHexValue?_of_ne_plus hc, Hex.denotes_iff (List.cons_ne_nil c rest)
        (unsigned_of_ne_plus hc)]

variable {digest : String} {n : Nat} {v : UInt64}

/-- Fifteen digits fit the numbers of 64 bits. -/
theorem lt_size_of_lt_pow {m : Nat} (hn : n ≤ 15) (h : m < 16 ^ n) : m < UInt64.size :=
  calc m < 16 ^ n := h
    _ ≤ 16 ^ 15 := Nat.pow_le_pow_right (by decide) hn
    _ < UInt64.size := by decide

/-- A number is read if there are enough bytes and they denote it. -/
theorem hexPrefixValue_eq_ok_iff : hexPrefixValue digest n = .ok v ↔
    1 ≤ n ∧ n ≤ 15 ∧ n ≤ (utf8 digest).length ∧ Hex.Denotes ((utf8 digest).take n) v.toNat := by
  rw [hexPrefixValue, utf8_eq_flatMap]
  by_cases hrange : n = 0 ∨ 15 < n
  · rw [if_pos hrange]
    exact iff_of_false (by simp) fun h => by omega
  rw [if_neg hrange]
  cases htake : takeBytes? n digest.toList with
  | none =>
    refine iff_of_false (by simp) fun ⟨_, _, henough, hdenotes⟩ => ?_
    -- Only a character that is cut in two cannot be taken, and no digit is part of one.
    obtain ⟨front, hfront⟩ := exists_takeBytes? henough hdenotes.lt_of_mem
    rw [htake] at hfront
    cases hfront
  | some front =>
    obtain ⟨behind, hsplit, hlength⟩ := takeBytes?_eq_some htake
    rw [hsplit, List.flatMap_append, List.take_left' hlength, List.length_append, hlength,
      ← signedHexValue?_eq_some_iff]
    dsimp only
    cases hvalue : signedHexValue? front with
    | none => exact iff_of_false (by simp) fun h => by cases h.2.2.2
    | some m =>
      have hlt := (signedHexValue?_eq_some_iff.1 hvalue).lt_pow
      rw [hlength] at hlt
      have hm : (UInt64.ofNat m).toNat = m :=
        UInt64.toNat_ofNat_of_lt' (lt_size_of_lt_pow (by omega) hlt)
      rw [Except.ok.injEq, Option.some.injEq, ← UInt64.toNat_inj, hm]
      exact ⟨fun h => ⟨by omega, by omega, Nat.le_add_right _ _, h⟩, fun h => h.2.2.2⟩

/-- What is not read is an invalid argument. -/
theorem hexPrefixValue_ok_or_invalidArgument (digest : String) (n : Nat) :
    (∃ v, hexPrefixValue digest n = .ok v) ∨
      ∃ reason, hexPrefixValue digest n = .error (.invalidArgument reason) := by
  unfold hexPrefixValue
  split
  · exact .inr ⟨_, rfl⟩
  · split
    · exact .inr ⟨_, rfl⟩
    · split
      · exact .inr ⟨_, rfl⟩
      · exact .inl ⟨_, rfl⟩

/-- Off fewer bytes a quotient is read, if there is a digit among them. -/
theorem hexPrefixValue_of_le {m : Nat} (hread : hexPrefixValue digest n = .ok v) (hm : 1 ≤ m)
    (hle : m ≤ n) (hdigit : Hex.unsigned ((utf8 digest).take m) ≠ []) :
    hexPrefixValue digest m = .ok (UInt64.ofNat (v.toNat / 16 ^ (n - m))) ∧
      (UInt64.ofNat (v.toNat / 16 ^ (n - m))).toNat = v.toNat / 16 ^ (n - m) := by
  obtain ⟨-, hmax, henough, hdenotes⟩ := hexPrefixValue_eq_ok_iff.1 hread
  have hquotient : (UInt64.ofNat (v.toNat / 16 ^ (n - m))).toNat = v.toNat / 16 ^ (n - m) :=
    UInt64.toNat_ofNat_of_lt' (Nat.lt_of_le_of_lt (Nat.div_le_self _ _) v.toNat_lt)
  have hrest : (((utf8 digest).take n).drop m).length = n - m := by
    rw [List.length_drop, List.length_take, Nat.min_eq_left henough]
  have hsplit := List.take_append_drop m ((utf8 digest).take n)
  rw [List.take_take, Nat.min_eq_left hle] at hsplit
  rw [← hsplit] at hdenotes
  have hfewer := hdenotes.of_append hdigit
  rw [hrest, ← hquotient] at hfewer
  exact ⟨hexPrefixValue_eq_ok_iff.2 ⟨hm, hle.trans hmax, hle.trans henough, hfewer⟩, hquotient⟩

/-- A number is read off the first bytes of a text exactly if there are one to fifteen of them, all
digits but for a plus sign that may stand in front of the first digit. It is the number that the
digits denote, and fits that many digits. Off fewer bytes a quotient of it is read, if there is a
digit among them. What is not read is an invalid argument. -/
theorem hexPrefixValue_denotes (digest : String) (n : Nat) :
    (∀ v, hexPrefixValue digest n = .ok v ↔
      1 ≤ n ∧ n ≤ 15 ∧ n ≤ (utf8 digest).length ∧ Hex.Denotes ((utf8 digest).take n) v.toNat) ∧
    (∀ v, hexPrefixValue digest n = .ok v → v.toNat < 16 ^ n ∧
      ∀ m, 1 ≤ m → m ≤ n → Hex.unsigned ((utf8 digest).take m) ≠ [] → ∃ w,
        hexPrefixValue digest m = .ok w ∧ w.toNat = v.toNat / 16 ^ (n - m)) ∧
    ((∃ v, hexPrefixValue digest n = .ok v) ∨
      ∃ reason, hexPrefixValue digest n = .error (.invalidArgument reason)) := by
  refine ⟨fun v => hexPrefixValue_eq_ok_iff, fun v hread => ⟨?_, fun m hm hle hdigit => ?_⟩,
    hexPrefixValue_ok_or_invalidArgument digest n⟩
  · obtain ⟨-, -, henough, hdenotes⟩ := hexPrefixValue_eq_ok_iff.1 hread
    have hlt := hdenotes.lt_pow
    rwa [List.length_take, Nat.min_eq_left henough] at hlt
  · exact ⟨_, hexPrefixValue_of_le hread hm hle hdigit⟩

/-- Digits of both cases behind a plus sign: the first three of the four bytes denote a sixteenth
of what all four denote. -/
theorem hexPrefixValue_denotes_of_sample : hexPrefixValue "+Ff9é" 4 = .ok 4089 ∧
    hexPrefixValue "+Ff9é" 3 = .ok 255 := by
  have hunsigned : Hex.unsigned ((utf8 "+Ff9é").take 4) = [70, 102, 57] := by decide
  have hdenotes : Hex.Denotes ((utf8 "+Ff9é").take 4) 4089 := by
    refine ⟨by decide, ?_, by decide⟩
    rw [hunsigned]
    simp only [List.forall_mem_cons, List.not_mem_nil, false_implies, implies_true, and_true]
    decide
  obtain ⟨hread, hfewer, -⟩ := hexPrefixValue_denotes "+Ff9é" 4
  have hfour : hexPrefixValue "+Ff9é" 4 = .ok 4089 :=
    (hread 4089).2 ⟨by decide, by decide, by decide, hdenotes⟩
  obtain ⟨w, hthree, hw⟩ := (hfewer 4089 hfour).2 3 (by decide) (by decide) (by decide)
  obtain rfl : w = 255 := UInt64.toNat_inj.1 hw
  exact ⟨hfour, hthree⟩

/-- A plus sign takes the place of a digit: two bytes are read, and one of them is no digit. -/
theorem exists_read_with_sign : ∃ digest n v, hexPrefixValue digest n = .ok v ∧
    ¬∀ b ∈ (utf8 digest).take n, Hex.IsDigitByte b :=
  ⟨"+f", 2, 15, by decide, fun h => absurd (h 43 (by decide)) (by decide)⟩

end BinDelegation
