/-! # Doubles as exact numbers

A double is a sign, a significand and a binary exponent, so that its value and the rounding of a
quotient are arithmetic on natural numbers. Rounding goes to the nearest double and breaks ties to
the even significand; a quotient past the largest double has no rounding.

Decimal numerals are read in two roundings: the significant digits that fit 64 bits become a double,
which is then scaled by a power of ten that is itself a double.
-/

namespace BinDelegation

/-- A finite double: `significand * 2 ^ exponent`, with a sign that also zero carries. -/
structure Binary64 where
  negative : Bool
  significand : Nat
  exponent : Int
deriving DecidableEq, Repr

namespace Binary64

/-- The exponent of the least positive double. -/
def minExponent : Int := -1074

/-- The exponent of the largest double. -/
def maxExponent : Int := 971

/-- The least significand of 53 bits. -/
def leastNormal : Nat := 1 <<< 52

/-- A double without its sign. -/
structure Magnitude where
  significand : Nat
  exponent : Int
deriving DecidableEq, Repr

/-- The magnitude zero. -/
def Magnitude.zero : Magnitude := ⟨0, minExponent⟩

/-- The quotient rounded to a whole number, a half to the even neighbour. -/
def roundHalfEven (num den : Nat) : Nat :=
  let q := num / den
  let r := num % den
  if 2 * r > den || (2 * r == den && q % 2 == 1) then q + 1 else q

/-- Numerator and denominator of `num / den / 2 ^ exponent`. -/
def scaled (num den : Nat) (exponent : Int) : Nat × Nat :=
  if 0 ≤ exponent then (num, den <<< exponent.toNat) else (num <<< (-exponent).toNat, den)

/-- The exponent at which the quotient has a significand of 53 bits, or the least exponent. -/
def exponentFor (num den : Nat) : Int :=
  let guess : Int := (num.log2 : Int) - den.log2 - 52
  let parts := scaled num den guess
  let exact := if parts.1 / parts.2 < leastNormal then guess - 1 else guess
  max exact minExponent

/-- The double nearest to `num / den`, or nothing if that lies past the largest. -/
def ofRatio (num den : Nat) : Option Magnitude :=
  if num = 0 then some .zero
  else
    let exponent := exponentFor num den
    let parts := scaled num den exponent
    let significand := roundHalfEven parts.1 parts.2
    let result : Magnitude :=
      if significand = 2 * leastNormal then ⟨leastNormal, exponent + 1⟩ else ⟨significand, exponent⟩
    if result.exponent ≤ maxExponent then some result else none

/-- A magnitude as a quotient of natural numbers. -/
def Magnitude.ratio (x : Magnitude) : Nat × Nat := scaled x.significand 1 (-x.exponent)

/-- The rounded product. -/
def mul? (x y : Magnitude) : Option Magnitude :=
  let a := x.ratio
  let b := y.ratio
  ofRatio (a.1 * b.1) (a.2 * b.2)

/-- The rounded quotient. -/
def div? (x y : Magnitude) : Option Magnitude :=
  let a := x.ratio
  let b := y.ratio
  ofRatio (a.1 * b.2) (a.2 * b.1)

/-- The largest power of ten that is read as one double. -/
def maxPower : Nat := 308

/-- A power of ten as a double. -/
def powerOfTen (k : Nat) : Option Magnitude := ofRatio (Nat.pow 10 k) 1

/-- Divides `steps` times by the largest power and then by `10 ^ rest`, rounding each time. -/
def scaleDown (rest : Nat) : (steps : Nat) → Magnitude → Option Magnitude
  | 0, x => powerOfTen rest >>= div? x
  | steps + 1, x =>
    if x.significand = 0 then some .zero
    else powerOfTen maxPower >>= div? x >>= scaleDown rest steps

/-- `digits * 10 ^ exponent` as a double, or nothing if it is too large. -/
def ofDecimal (digits : Nat) (exponent : Int) : Option Magnitude := do
  let x ← ofRatio digits 1
  if exponent < 0 then
    let k := exponent.natAbs
    let steps := (k - 1) / maxPower
    scaleDown (k - steps * maxPower) steps x
  else if exponent.natAbs ≤ maxPower then powerOfTen exponent.natAbs >>= mul? x
  else if digits = 0 then some .zero
  else none

/-- A magnitude with a sign. -/
def ofMagnitude (negative : Bool) (x : Magnitude) : Binary64 :=
  ⟨negative, x.significand, x.exponent⟩

end Binary64

end BinDelegation
