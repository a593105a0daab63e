import Mathlib.Data.List.Basic

/-!
# Texts in the order of their bytes

Texts are compared character by character, and byte strings byte by byte. The order is the same: the
first byte of a character tells how many there are, and more bytes stand for greater characters.

Dictionaries are ordered by their keys as texts, while canonical documents need the keys of an
object in the order of their bytes. `utf8_lt_iff` makes the two orders one.

The proof is on one character (`utf8EncodeChar_append_lt`). A character is split into groups of six
bits, of which the first may be shorter; the encoding puts each group into one byte. Of two
characters the lower one is lower in the first group in which they differ (`sixBits_lt`), and if
they have different numbers of bytes, their first bytes already tell. Whole texts are an induction
on it.
-/

namespace BinDelegation

/-- What comes behind texts of one length does not change their order. -/
theorem append_lt_append {a b : List Char} (c d : List Char) (hlength : a.length = b.length)
    (h : a < b) : a ++ c < b ++ d := by
  induction a generalizing b with
  | nil =>
    cases b with
    | nil => cases h
    | cons y b => cases hlength
  | cons x a ih =>
    cases b with
    | nil => cases hlength
    | cons y b =>
      rw [List.cons_append, List.cons_append, List.cons_lt_cons_iff]
      rw [List.cons_lt_cons_iff] at h
      exact h.imp_right fun ⟨heq, hlt⟩ => ⟨heq, ih (Nat.succ.inj hlength) hlt⟩

/-- The UTF-8 bytes of a text. -/
def utf8 (s : String) : List UInt8 := s.toUTF8.data.toList

theorem utf8_eq_flatMap (s : String) : utf8 s = s.toList.flatMap String.utf8EncodeChar := by
  rw [utf8, String.toUTF8, ← String.utf8Encode_toList, List.utf8Encode,
    List.toList_data_toByteArray]

theorem utf8_inj {s t : String} (h : utf8 s = utf8 t) : s = t :=
  String.toByteArray_inj.1 (ByteArray.ext (Array.toList_inj.1 h))

/-- The lower of two numbers is lower in the first group of six bits in which they differ. -/
theorem sixBits_lt {m n : Nat} (h : m < n) :
    m / 262144 < n / 262144 ∨ m / 262144 = n / 262144 ∧
      (m / 4096 % 64 < n / 4096 % 64 ∨ m / 4096 % 64 = n / 4096 % 64 ∧
        (m / 64 % 64 < n / 64 % 64 ∨ m / 64 % 64 = n / 64 % 64 ∧ m % 64 < n % 64)) := by
  omega

/-- The bytes of characters are in the order of the characters, whatever follows them. -/
theorem utf8EncodeChar_append_lt {c d : Char} (h : c < d) (x y : List UInt8) :
    String.utf8EncodeChar c ++ x < String.utf8EncodeChar d ++ y := by
  have hlt : c.val.toNat < d.val.toNat := UInt32.lt_iff_toNat_lt.1 h
  have hmax : d.val.toNat < 0x110000 := by
    rcases d.valid with hd | hd
    · exact Nat.lt_trans hd (by decide)
    · exact hd.2
  have hgroups := sixBits_lt hlt
  -- No byte is cut off, neither the first of four nor one behind the first.
  have hfirst {k : Nat} (hk : k < 0x110000) :
      (k / 262144 % 8 + 240) % 256 = k / 262144 + 240 := by omega
  have hbehind (k : Nat) : (k % 64 + 128) % 256 = k % 64 + 128 := by omega
  have hc := hfirst (Nat.lt_trans hlt hmax)
  have hd := hfirst hmax
  rw [String.utf8EncodeChar, String.utf8EncodeChar]
  generalize c.val.toNat = m, d.val.toNat = n at *
  -- One case for each pair of lengths; the first bytes tell different lengths apart.
  split_ifs <;>
    simp only [List.cons_append, List.nil_append, List.cons_lt_cons_iff, UInt8.lt_iff_toNat_lt,
      ← UInt8.toNat_inj, UInt8.toNat_ofNat', hc, hd, hbehind] <;> omega

/-- The bytes of characters in a row are in the order of the characters. -/
theorem flatMap_utf8EncodeChar_lt {x y : List Char} (h : x < y) :
    x.flatMap String.utf8EncodeChar < y.flatMap String.utf8EncodeChar := by
  induction x generalizing y with
  | nil =>
    cases y with
    | nil => exact absurd h (List.lt_irrefl [])
    | cons d y =>
      obtain ⟨b, bytes, hbytes⟩ :=
        List.exists_cons_of_ne_nil (String.utf8EncodeChar_ne_nil (c := d))
      rw [List.flatMap_nil, List.flatMap_cons, hbytes, List.cons_append]
      exact List.nil_lt_cons _ _
  | cons c x ih =>
    cases y with
    | nil => exact absurd h (List.not_lt_nil _)
    | cons d y =>
      rw [List.flatMap_cons, List.flatMap_cons]
      rcases List.cons_lt_cons_iff.1 h with hlt | ⟨rfl, hlt⟩
      · exact utf8EncodeChar_append_lt hlt _ _
      · exact List.append_left_lt (ih hlt)

/-- Texts are in the order of their bytes. -/
theorem utf8_lt_iff {s t : String} : utf8 s < utf8 t ↔ s < t := by
  have hbytes {s t : String} (h : s < t) : utf8 s < utf8 t := by
    rw [utf8_eq_flatMap, utf8_eq_flatMap]
    exact flatMap_utf8EncodeChar_lt (String.lt_iff.1 h)
  refine ⟨fun h => ?_, hbytes⟩
  have hne : t ≠ s := by
    rintro rfl
    exact List.lt_irrefl _ h
  by_contra hnot
  exact List.lt_asymm h (hbytes (Std.lt_of_le_of_ne (Std.not_lt.1 hnot) hne))

/-- A text is not behind another exactly if its bytes are not behind those of the other. -/
theorem utf8_le_iff {s t : String} : utf8 s ≤ utf8 t ↔ ¬t < s := by
  rw [← List.not_lt, utf8_lt_iff]

end BinDelegation
