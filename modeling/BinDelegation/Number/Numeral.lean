import BinDelegation.Number.Binary64
import BinDelegation.Number.Digits

/-! # Decimal numerals

A numeral is a sign, the digits before and after the point, and an exponent. One without point and
exponent denotes an integer if it fits 64 bits, signed or unsigned; every other numeral, minus zero
included, denotes a double.
-/

namespace BinDelegation

/-- The parts of a decimal numeral. -/
structure Numeral where
  negative : Bool
  whole : List Char
  /-- The digits after the point, if there is one. -/
  fraction : Option (List Char) := none
  /-- The sign and the digits of the exponent, if there is one. -/
  exponent : Option (Bool × List Char) := none
deriving DecidableEq, Repr

/-- An integer that fits 64 bits, with or without a sign. -/
structure WireInteger where
  value : Int
  fits : -9223372036854775808 ≤ value ∧ value < 18446744073709551616
deriving DecidableEq, Repr

namespace WireInteger

/-- A natural number below `2 ^ 64`. -/
def ofUInt64 (n : UInt64) : WireInteger := ⟨n.toNat, by have := n.toNat_lt; omega⟩

/-- The decimal text of an integer. -/
def text (n : WireInteger) : List Char :=
  if n.value < 0 then '-' :: Digits.ofNat n.value.natAbs else Digits.ofNat n.value.natAbs

end WireInteger

namespace Numeral

/-- The digits read so far: their number, and the power of ten that it stands for. -/
structure Significant where
  digits : Nat
  scale : Int

/-- Takes the digits before the point: once one more digit would pass 64 bits, this digit and all
after it only count for the scale. -/
def takeWhole (s : Significant) : List Char → Significant
  | [] => s
  | c :: rest =>
    let next := 10 * s.digits + Digits.digitValue c
    if next < UInt64.size then takeWhole { s with digits := next } rest
    else { s with scale := s.scale + (rest.length + 1) }

/-- Takes the digits after the point, up to the first that would pass 64 bits. -/
def takeFraction (s : Significant) : List Char → Significant
  | [] => s
  | c :: rest =>
    let next := 10 * s.digits + Digits.digitValue c
    if next < UInt64.size then takeFraction ⟨next, s.scale - 1⟩ rest else s

/-- The digits that count and their scale. -/
def significant (n : Numeral) : Significant :=
  let s := takeFraction (takeWhole ⟨0, 0⟩ n.whole) (n.fraction.getD [])
  match n.exponent with
  | none => s
  | some (down, digits) =>
    let e : Int := Digits.value digits
    { s with scale := if down then s.scale - e else s.scale + e }

/-- The double that a numeral denotes, or nothing past the largest. -/
def double? (n : Numeral) : Option Binary64 :=
  let s := n.significant
  (Binary64.ofDecimal s.digits s.scale).map (Binary64.ofMagnitude n.negative)

/-- The integer that a numeral denotes, if it denotes one. -/
def integer? (n : Numeral) : Option WireInteger :=
  if n.fraction.isSome || n.exponent.isSome then none
  else
    let v : Int := if n.negative then -(Digits.value n.whole : Int) else Digits.value n.whole
    if n.negative ∧ v = 0 then none
    else if h : -9223372036854775808 ≤ v ∧ v < 18446744073709551616 then some ⟨v, h⟩
    else none

end Numeral

end BinDelegation
