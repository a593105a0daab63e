import BinDelegation.Number.Binary64

/-! # The shortest decimal text of a double

The digits are the fewest that read back as the same double, and of those the nearest to it. They
are found on decimal grids of 1, 2, … 17 digits: on each, the two neighbours of the value are tried.
-/

namespace BinDelegation.Binary64

/-- Whether `m / n` rounds to the double `x`: it lies between the midpoints to the neighbours of
`x`, the midpoints themselves included if the significand is even. -/
def readsBack (x : Magnitude) (num den : Nat) : Bool :=
  -- The interval in quarters of the last binary place, narrower below a power of two.
  let low := if x.significand = leastNormal ∧ minExponent < x.exponent then 4 * x.significand - 1
    else 4 * x.significand - 2
  let high := 4 * x.significand + 2
  let parts := scaled num den (x.exponent - 2)
  if x.significand % 2 == 0 then low * parts.2 ≤ parts.1 && parts.1 ≤ high * parts.2
  else low * parts.2 < parts.1 && parts.1 < high * parts.2

/-- `d * 10 ^ e` as a quotient. -/
def decimalRatio (d : Nat) (e : Int) : Nat × Nat :=
  if 0 ≤ e then (d * Nat.pow 10 e.toNat, 1) else (d, Nat.pow 10 (-e).toNat)

/-- The number of the grid point at or below `num / den` on the grid of multiples of `10 ^ e`. -/
def gridBelow (num den : Nat) (e : Int) : Nat :=
  if 0 ≤ e then num / (den * Nat.pow 10 e.toNat) else num * Nat.pow 10 (-e).toNat / den

/-- Of the two grid points around the value, the one that reads back, the nearer if both do; on a
tie the even one. -/
def onGrid? (x : Magnitude) (e : Int) : Option Nat :=
  let value := x.ratio
  let d := gridBelow value.1 value.2 e
  let fits (d : Nat) : Bool := d != 0 && readsBack x (decimalRatio d e).1 (decimalRatio d e).2
  -- Twice the value against the sum of both neighbours.
  let middle := decimalRatio (2 * d + 1) e
  let left := 2 * value.1 * middle.2
  let right := middle.1 * value.2
  let nearer := if left < right ∨ (left = right ∧ d % 2 = 0) then d else d + 1
  let other := if nearer = d then d + 1 else d
  if fits nearer then some nearer else if fits other then some other else none

/-- The decimal exponent of the leading digit of `num / den`, if one exceeds it no power of ten. -/
def leadingExponent (num den : Nat) : Int :=
  let guess : Int := ((num.log2 : Int) - den.log2) * 30103 / 100000
  let exceeds (e : Int) : Bool :=
    let power := decimalRatio 1 e
    power.1 * den ≤ num * power.2
  if exceeds (guess + 1) then guess + 1 else if exceeds guess then guess else guess - 1

/-- The first grid, from `count` digits on, with a point that reads back. -/
def search (x : Magnitude) (leading : Int) : (fuel count : Nat) → Nat × Int
  | 0, _ => (x.significand, x.exponent)
  | fuel + 1, count =>
    let e := leading - count + 1
    match onGrid? x e with
    | some d => (d, e)
    | none => search x leading fuel (count + 1)

/-- The shortest digits of a positive magnitude and the decimal exponent of the last one. -/
def shortest (x : Magnitude) : Nat × Int :=
  search x (leadingExponent x.ratio.1 x.ratio.2) 17 1

/-- Drops zeros at the end of the digits. -/
def dropZeros (digits : List Char) : List Char :=
  (digits.reverse.dropWhile (· = '0')).reverse

/-- How doubles are written: the exponents of the leading digit that are written without one. -/
structure TextFormat where
  least : Int
  most : Int

/-- From `1e-5` up to below `1e16` a number is written with a point and at least one digit after
it, otherwise with an exponent that carries its sign. -/
def plainText : TextFormat := ⟨-5, 15⟩

/-- The digits with a point behind the first, if there are more. -/
def pointed : List Char → List Char
  | [] => []
  | [d] => [d]
  | d :: rest => d :: '.' :: rest

/-- The text of the digits `ds`, the first of which stands for multiples of `10 ^ leading`. -/
def layout (format : TextFormat) (ds : List Char) (leading : Int) : List Char :=
  if leading < format.least ∨ format.most < leading then
    let sign := if leading < 0 then '-' else '+'
    pointed ds ++ 'e' :: sign :: Nat.toDigits 10 leading.natAbs
  else if leading < 0 then
    '0' :: '.' :: List.replicate (leading.natAbs - 1) '0' ++ ds
  else
    let whole := leading.toNat + 1
    let fraction := ds.drop whole
    ds.take whole ++ List.replicate (whole - ds.length) '0'
      ++ '.' :: (if fraction.isEmpty then ['0'] else fraction)

/-- The text of a double. -/
def text (x : Binary64) : String :=
  let sign := if x.negative then ['-'] else []
  if x.significand = 0 then String.ofList (sign ++ ['0', '.', '0'])
  else
    let found := shortest ⟨x.significand, x.exponent⟩
    let all := Nat.toDigits 10 found.1
    String.ofList (sign ++ layout plainText (dropZeros all) (found.2 + all.length - 1))

end BinDelegation.Binary64
