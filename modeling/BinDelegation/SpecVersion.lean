import BinDelegation.Error
import BinDelegation.Number.Digits
import BinDelegation.Text.Pieces

/-! # Versions of the metadata format

A version is three numbers with dots between them. Only the first major version is written here, so
that a mistyped version is found before any document is built.
-/

namespace BinDelegation

/-- A version of the metadata format. -/
structure SpecVersion where
  major : UInt32
  minor : UInt32
  patch : UInt32
deriving DecidableEq, Repr

namespace SpecVersion

/-- The version that is written unless another is asked for. -/
def standard : String := "1.0.19"

/-- The major version that can be written. -/
def supportedMajor : UInt32 := 1

/-- The number that one or more decimal digits denote, if it is below `2 ^ 32`. -/
def number? (text : List Char) : Option UInt32 := do
  let n ← Digits.number? text
  if n < UInt32.size then some (UInt32.ofNat n) else none

/-- The three numbers of a text. -/
def numbers? (s : String) : Option SpecVersion :=
  match pieces '.' s.toList with
  | [major, minor, patch] => do return ⟨← number? major, ← number? minor, ← number? patch⟩
  | _ => none

/-- Reads a version with a supported major number. -/
def parse (s : String) : Except Error SpecVersion :=
  match numbers? s with
  | none => .error (.invalidArgument ("unsupported spec version: " ++ s))
  | some v =>
    if v.major = supportedMajor then .ok v
    else
      .error (.invalidArgument ("unsupported spec version: " ++ s ++ " (major must be "
        ++ toString supportedMajor.toNat ++ ")"))

/-- The decimal digits of a number. -/
def digits (n : UInt32) : List Char := Digits.ofNat n.toNat

/-- The text of a version. -/
def text (v : SpecVersion) : String :=
  String.ofList (digits v.major ++ '.' :: digits v.minor ++ '.' :: digits v.patch)

/-- The order of versions: by major, then minor, then patch number. -/
def order (v w : SpecVersion) : Ordering :=
  (compare v.major w.major).then ((compare v.minor w.minor).then (compare v.patch w.patch))

end SpecVersion

end BinDelegation
