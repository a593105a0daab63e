/-! # The twisted Edwards curve of Ed25519

Field elements are numbers modulo `p = 2 ^ 255 - 19`. Points are kept in extended coordinates
`(X, Y, Z, T)` with `x = X / Z`, `y = Y / Z` and `x * y = T / Z`, for which one addition formula
serves all pairs of points and needs no inversion.
-/

namespace BinDelegation.Ed25519

/-- The field's prime. -/
def p : Nat := (1 <<< 255) - 19

/-- The order of the base point. -/
def order : Nat := (1 <<< 252) + 27742317777372353535851937790883648493

/-- The remainder of `b ^ e`, with one squaring for each of the `bits` lowest bits of `e`. -/
def powMod (modulus b e : Nat) : (bits : Nat) → Nat
  | 0 => 1 % modulus
  | bits + 1 =>
    let half := powMod modulus b (e / 2) bits
    let square := half * half % modulus
    if e % 2 = 1 then square * b % modulus else square

/-- The inverse of a field element; zero for zero. -/
def inverse (a : Nat) : Nat := powMod p a (p - 2) 255

/-- Subtraction of field elements. -/
def sub (a b : Nat) : Nat := (a + (p - b)) % p

/-- The curve constant `-121665 / 121666`. -/
def d : Nat := 37095705934669439343138083508754565189542113879843219016388785533085940283555

/-- A square root of `-1`. -/
def rootOfMinusOne : Nat :=
  19681161376707505956807079304988542015446066515923890162744021073123829784752

/-- A point in extended coordinates. -/
structure Point where
  (x y z t : Nat)

/-- The neutral element. -/
def Point.zero : Point := ⟨0, 1, 1, 0⟩

/-- The point with the given affine coordinates. -/
def Point.ofAffine (x y : Nat) : Point := ⟨x, y, 1, x * y % p⟩

/-- The base point. -/
def Point.base : Point :=
  .ofAffine 15112221349535400772501151409588531511454012693041857206046113283949847762202
    46316835694926478169428394003475163141307993866256225615783033603165251855960

namespace Point

/-- The sum of two points. -/
def add (P Q : Point) : Point :=
  let a := sub P.y P.x * sub Q.y Q.x % p
  let b := (P.y + P.x) * (Q.y + Q.x) % p
  let c := P.t * Q.t % p * (2 * d) % p
  let e := P.z * (2 * Q.z) % p
  let f := sub b a
  let g := sub e c
  let h := e + c
  let i := b + a
  ⟨f * g % p, h * i % p, g * h % p, f * i % p⟩

/-- Twice a point. -/
def double (P : Point) : Point :=
  let a := P.x * P.x % p
  let b := P.y * P.y % p
  let c := 2 * P.z * P.z % p
  let h := (a + b) % p
  let s := P.x + P.y
  let e := sub h (s * s % p)
  let g := sub a b
  let f := (c + g) % p
  ⟨e * f % p, g * h % p, f * g % p, e * h % p⟩

/-- The multiple of a point by the `bits` lowest bits of `n`. -/
def multiple (P : Point) (n : Nat) : (bits : Nat) → Point
  | 0 => zero
  | bits + 1 =>
    let twice := (multiple P (n / 2) bits).double
    if n % 2 = 1 then twice.add P else twice

/-- The negative of a point. -/
def negative (P : Point) : Point := ⟨sub 0 P.x, P.y, P.z, sub 0 P.t⟩

/-- The encoding of a point as a number: `y`, with the parity of `x` in the highest bit. -/
def encode (P : Point) : Nat :=
  let w := inverse P.z
  let x := P.x * w % p
  let y := P.y * w % p
  y + (x % 2) <<< 255

/-- The point that a number encodes. -/
def decode? (n : Nat) : Option Point :=
  let y := n % (1 <<< 255)
  let parity := n >>> 255
  if p ≤ y then none
  else
    let u := sub (y * y % p) 1
    let v := (d * (y * y % p) + 1) % p
    let square := u * inverse v % p
    let root := powMod p square ((p + 3) / 8) 255
    let candidate :=
      if root * root % p = square then some root
      else if root * root % p = sub 0 square then some (root * rootOfMinusOne % p)
      else none
    match candidate with
    | none => none
    | some x =>
      if x = 0 ∧ parity = 1 then none
      else some (.ofAffine (if x % 2 = parity then x else sub 0 x) y)

end Point

end BinDelegation.Ed25519
