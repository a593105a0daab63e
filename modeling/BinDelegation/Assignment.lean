import BinDelegation.Bin
import BinDelegation.Hash.Sha256

/-! # Assignment of paths to bins

The bin of a target path is found from the leading digits of the SHA-256 digest of its UTF-8 bytes,
by arithmetic alone: the list of bins is not needed.
-/

namespace BinDelegation

/-- The algorithms that bytes can be hashed with. -/
inductive HashAlgorithm where
  | sha256
deriving DecidableEq, Repr

namespace HashAlgorithm

/-- The name under which digests are published. -/
def name : HashAlgorithm → String
  | sha256 => "sha256"

/-- The algorithm of a name. -/
def ofName (s : String) : Except Error HashAlgorithm :=
  if s = "sha256" then .ok sha256
  else .error (.invalidArgument ("unsupported hash algorithm: " ++ s))

/-- The digest of a byte string. -/
def digest : HashAlgorithm → ByteArray → List UInt8
  | sha256, bytes => (Sha256.digest bytes).toList

end HashAlgorithm

/-- The SHA-256 digest of a byte string in hexadecimal. -/
def hashHex (bytes : ByteArray) : String := Hex.encode (HashAlgorithm.sha256.digest bytes)

/-- The hash of a target path: of its bytes as they are. -/
def pathHash (path : String) : String := hashHex path.toUTF8

/-- The characters that fill the first `n` bytes, if these end between two characters. -/
def takeBytes? : (n : Nat) → List Char → Option (List Char)
  | 0, _ => some []
  | _ + 1, [] => none
  | n + 1, c :: rest =>
    if c.utf8Size ≤ n + 1 then (takeBytes? (n + 1 - c.utf8Size) rest).map (c :: ·) else none

/-- The number that an optional plus sign and at least one hexadecimal digit denote. -/
def signedHexValue? : List Char → Option Nat
  | [] => none
  | ['+'] => none
  | '+' :: digits => Hex.value? digits
  | digits => Hex.value? digits

/-- The number that the first `digits` characters of a digest denote. -/
def hexPrefixValue (digest : String) (digits : Nat) : Except Error UInt64 :=
  if digits = 0 ∨ 15 < digits then
    .error (.invalidArgument ("hex prefix length out of range: " ++ toString digits))
  else
    match takeBytes? digits digest.toList with
    | none =>
      .error (.invalidArgument ("digest shorter than " ++ toString digits ++ " hex digits: "
        ++ digest))
    | some cs =>
      match signedHexValue? cs with
      | none => .error (.invalidArgument ("invalid hex prefix: " ++ String.ofList cs))
      | some n => .ok (UInt64.ofNat n)

namespace Partition

/-- The hash prefix of a path. -/
def pathPrefix (p : Partition) (path : String) : Except Error UInt64 :=
  hexPrefixValue (pathHash path) p.width

/-- The name of the bin of a path. -/
def binForPath (p : Partition) (path : String) : Except Error String :=
  (p.pathPrefix path).map p.binForPrefix

end Partition

end BinDelegation
