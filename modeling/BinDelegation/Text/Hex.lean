/-! # Lower-case hexadecimal

Numbers are written with a least width, bytes with two digits each. Reading takes either case. A
reader of bytes names what is wrong: first an odd number of bytes, then the first byte that is no
digit.
-/

namespace BinDelegation.Hex

/-- The lower-case digit of a number below sixteen. -/
def digit (n : Nat) : Char := Nat.digitChar n

/-- The value of a digit of either case. -/
def digitValue? (c : Char) : Option Nat :=
  if '0' ≤ c ∧ c ≤ '9' then some (c.toNat - 48)
  else if 'a' ≤ c ∧ c ≤ 'f' then some (c.toNat - 87)
  else if 'A' ≤ c ∧ c ≤ 'F' then some (c.toNat - 55)
  else none

/-- The digits that writing produces: decimal digits and the lower-case letters up to `f`. -/
def isLowerDigit (c : Char) : Bool := ('0' ≤ c && c ≤ '9') || ('a' ≤ c && c ≤ 'f')

/-- The last `width` digits of `n`, most significant first. -/
def fixed : (width : Nat) → (n : Nat) → List Char
  | 0, _ => []
  | width + 1, n => fixed width (n / 16) ++ [digit (n % 16)]

@[simp] theorem length_fixed (width n : Nat) : (fixed width n).length = width := by
  induction width generalizing n with
  | zero => rfl
  | succ width ih => simp [fixed, ih]

/-- How many digits `n` needs; zero needs one. -/
def digitCount (n : Nat) : Nat := n.log2 / 4 + 1

/-- `n` in hexadecimal, padded with zeros on the left to at least `width` digits. -/
def padded (width n : Nat) : String := String.ofList (fixed (max width (digitCount n)) n)

/-- The number that a run of digits denotes, or nothing if one of them is no digit. -/
def value? (digits : List Char) : Option Nat :=
  digits.foldlM (fun n c => (digitValue? c).map (16 * n + ·)) 0

/-- Two digits for each byte. -/
def encode (bytes : List UInt8) : String :=
  String.ofList (bytes.flatMap fun b => fixed 2 b.toNat)

/-- Why a text is not the hexadecimal form of a byte string. -/
inductive DecodeError where
  /-- The text has an odd number of bytes. -/
  | oddLength
  /-- The first byte that is no digit, and the number of bytes before it. -/
  | notADigit (byte : UInt8) (position : Nat)
deriving DecidableEq, Repr

/-- The first byte of a character's UTF-8 form. -/
def leadByte (c : Char) : UInt8 := (String.utf8EncodeChar c).headD 0

/-- The digit values of a text. Every character before a bad one is a digit and so one byte long:
its position among the characters is its position among the bytes. -/
def nibbles (position : Nat) : List Char → Except DecodeError (List Nat)
  | [] => .ok []
  | c :: rest =>
    match digitValue? c with
    | none => .error (.notADigit (leadByte c) position)
    | some n => (nibbles (position + 1) rest).map (n :: ·)

/-- Joins digit values two by two into bytes. -/
def bytesOfNibbles : List Nat → List UInt8
  | high :: low :: rest => UInt8.ofNat (16 * high + low) :: bytesOfNibbles rest
  | _ => []

/-- Reads two digits for each byte. -/
def decode (s : String) : Except DecodeError (List UInt8) :=
  if s.utf8ByteSize % 2 = 1 then .error .oddLength
  else (nibbles 0 s.toList).map bytesOfNibbles

end BinDelegation.Hex
