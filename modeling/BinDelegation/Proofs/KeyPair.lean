import BinDelegation.KeyPair
import BinDelegation.Proofs.Text.Blank
import BinDelegation.Proofs.Text.HexBytes

/-!
# Seeds as text

A key pair is read from the digits of its seed, in either case and with blanks around them, and the
text that is written for it is that of the same digits in lower case. Any other text is refused for
the first thing that is wrong with its bytes.

Reading trims the text, decodes its bytes two by two, and checks their number. So there are two ways
to fail, and `SeedFault` lists them with the messages: the decoder misses a digit, whose place its
error tells, or the digits are fine and there are not 64 of them. `ofSeedHex_eq_error` says that
these are the errors, for exactly these texts.

A key file ends with a line break, which `ofSeedHex_seedHex` takes into account: whatever blanks
stand behind the digits, the same key pair is read.
-/

namespace BinDelegation.KeyPair

variable {s : String} {k : KeyPair} {e : Error}

/-- What is wrong with the bytes of a text that is not that of a seed. -/
inductive SeedFault (given : List UInt8) : Error → Prop where
  | notHex {miss : Hex.DecodeError} (h : Hex.Misses given miss) :
      SeedFault given (.invalidArgument ("invalid key hex: " ++ decodeErrorText miss))
  | wrongCount (heven : given.length % 2 = 0) (hdigits : ∀ b ∈ given, Hex.IsDigitByte b)
      (hcount : given.length ≠ 64) : SeedFault given
        (.invalidArgument ("expected 32 seed bytes, got " ++ toString (given.length / 2)))

theorem length_seedHex (k : KeyPair) : k.seedHex.toList.length = 64 := by
  rw [seedHex, Hex.length_encode, Vector.length_toList]

/-- The text of a seed is as it is when it is trimmed. -/
theorem trim_seedHex (k : KeyPair) {back : List Char}
    (hback : ∀ c ∈ back, Blank.isBlank c = true) :
    Blank.trim (k.seedHex.toList ++ back) = k.seedHex.toList := by
  have hdigit {c : Char} (hc : c ∈ k.seedHex.toList) : Blank.isBlank c = false := by
    have hnat := (Hex.isDigit_iff c).1 (Hex.isDigit_of_mem_encode hc).1
    simp only [Blank.isBlank, Bool.or_eq_false_iff, Bool.and_eq_false_iff, decide_eq_false_iff_not,
      beq_eq_false_iff_ne]
    omega
  exact Blank.Trims.trim_eq ⟨⟨[], back, rfl, by simp, hback⟩,
    fun c hc => hdigit (List.mem_of_mem_head? hc), fun c hc => hdigit (List.mem_of_getLast? hc)⟩

/-- A key pair is read if its seed is what the trimmed text decodes to. -/
theorem ofSeedHex_eq_ok_iff_decode : ofSeedHex s = .ok k ↔
    Hex.decode (String.ofList (Blank.trim s.toList)) = .ok k.seed.toList := by
  rw [ofSeedHex]
  constructor
  · intro h
    split at h
    · cases h
    · next bytes hdecode =>
      split at h
      · cases h
        exact hdecode
      · cases h
  · intro h
    rw [h]
    have hsize : k.seed.toList.toArray.size = 32 := by simp
    exact dif_pos hsize

/-- A key pair is read from the digits of its seed in either case. -/
theorem ofSeedHex_eq_ok : ofSeedHex s = .ok k ↔ (∀ c ∈ Blank.trim s.toList, Hex.IsDigit c) ∧
    k.seedHex.toList = (Blank.trim s.toList).map Char.toLower := by
  rw [ofSeedHex_eq_ok_iff_decode, Hex.decode_eq_ok, String.toList_ofList, seedHex]

/-- What is written for a key pair is read as that key pair, whatever blanks are behind it. -/
theorem ofSeedHex_seedHex (k : KeyPair) (back : String)
    (hback : ∀ c ∈ back.toList, Blank.isBlank c = true) :
    ofSeedHex (k.seedHex ++ back) = .ok k := by
  rw [ofSeedHex_eq_ok, String.toList_append, trim_seedHex k hback]
  have hlower : k.seedHex.toList.map Char.toLower = k.seedHex.toList :=
    (List.map_congr_left fun c hc => (Hex.isDigit_of_mem_encode hc).2).trans (List.map_id' _)
  exact ⟨fun c hc => (Hex.isDigit_of_mem_encode hc).1, hlower.symm⟩

/-- A text is read if it has 64 digits and nothing else but blanks around them. -/
theorem exists_ofSeedHex : (∃ k, ofSeedHex s = .ok k) ↔
    (Blank.trim s.toList).length = 64 ∧ ∀ c ∈ Blank.trim s.toList, Hex.IsDigit c := by
  constructor
  · rintro ⟨k, hk⟩
    obtain ⟨hdigits, hlower⟩ := ofSeedHex_eq_ok.1 hk
    have hlength := congrArg List.length hlower
    rw [length_seedHex, List.length_map] at hlength
    exact ⟨hlength.symm, hdigits⟩
  · rintro ⟨hlength, hdigits⟩
    rw [← String.toList_ofList (l := Blank.trim s.toList)] at hlength hdigits
    have hbytes := Hex.length_utf8_of_isDigit hdigits
    obtain ⟨bytes, hdecode, hlower⟩ := Hex.exists_decode hdigits (by omega)
    have hcount := Hex.length_utf8_of_encode hdigits hlower
    have hsize : bytes.toArray.size = 32 := by
      rw [List.size_toArray]
      omega
    exact ⟨⟨⟨bytes.toArray, hsize⟩⟩, ofSeedHex_eq_ok_iff_decode.2 hdecode⟩

/-- Any other text is refused for what is wrong with it. -/
theorem ofSeedHex_eq_error : ofSeedHex s = .error e ↔
    SeedFault (utf8 (String.ofList (Blank.trim s.toList))) e := by
  rw [ofSeedHex]
  -- The decoder comes first, so a wrong number of bytes is only told of digits.
  cases hdecode : Hex.decode (String.ofList (Blank.trim s.toList)) with
  | ok bytes =>
    obtain ⟨hdigits, hlower⟩ := Hex.decode_eq_ok.1 hdecode
    have hcount := Hex.length_utf8_of_encode hdigits hlower
    have heven : (utf8 (String.ofList (Blank.trim s.toList))).length % 2 = 0 := by omega
    have hbytes := Hex.isDigitByte_of_mem_utf8 hdigits
    constructor
    · intro h
      dsimp only at h
      split at h
      · cases h
      · next hsize =>
        cases h
        rw [List.size_toArray] at hsize
        have hwrong := SeedFault.wrongCount heven hbytes (by omega)
        rwa [hcount, Nat.mul_div_cancel_left _ (by decide)] at hwrong
    · intro h
      cases h with
      | notHex hmisses => exact absurd hmisses (Hex.not_misses heven hbytes)
      | wrongCount _ _ hne =>
        have hsize : ¬bytes.toArray.size = 32 := by
          rw [List.size_toArray]
          omega
        rw [hcount, Nat.mul_div_cancel_left _ (by decide)]
        exact dif_neg hsize
  | error miss =>
    have hmisses := Hex.decode_eq_error.1 hdecode
    constructor
    · intro h
      cases h
      exact .notHex hmisses
    · intro h
      cases h with
      | notHex hmisses' => rw [hmisses.unique hmisses']
      | wrongCount heven hbytes => exact absurd hmisses (Hex.not_misses heven hbytes)

end BinDelegation.KeyPair
