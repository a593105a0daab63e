import BinDelegation.Document.Key
import BinDelegation.Ed25519.Signing
import BinDelegation.Text.Blank

/-! # Key pairs

A key pair is its secret seed. The seed is kept in files as hexadecimal text; diagnostics never show
it.
-/

namespace BinDelegation

/-- An Ed25519 key pair. -/
structure KeyPair where
  seed : Ed25519.Bytes32
deriving DecidableEq

namespace KeyPair

/-- What is wrong with a text that is not hexadecimal. -/
def decodeErrorText : Hex.DecodeError → String
  | .oddLength => "Odd number of digits"
  | .notADigit byte position =>
    "Invalid character " ++ Quoted.char (Char.ofNat byte.toNat) ++ " at position "
      ++ toString position

/-- Reads a seed in hexadecimal; blanks around it are ignored. -/
def ofSeedHex (s : String) : Except Error KeyPair :=
  match Hex.decode (String.ofList (Blank.trim s.toList)) with
  | .error e => .error (.invalidArgument ("invalid key hex: " ++ decodeErrorText e))
  | .ok bytes =>
    if h : bytes.toArray.size = 32 then .ok ⟨⟨bytes.toArray, h⟩⟩
    else
      .error (.invalidArgument ("expected 32 seed bytes, got " ++ toString bytes.length))

/-- The seed in hexadecimal. -/
def seedHex (k : KeyPair) : String := Hex.encode k.seed.toList

/-- The public key in hexadecimal. -/
def publicHex (k : KeyPair) : String := Hex.encode (Ed25519.publicKey k.seed).toList

/-- The record of the public key. -/
def keyRecord (k : KeyPair) : KeyRecord := .ed25519 k.publicHex

/-- The id of the public key. -/
def keyId (k : KeyPair) : Except Error String := k.keyRecord.keyId

/-- The text shown in diagnostics: the first digits of the public key. -/
def diagnostic (k : KeyPair) : String :=
  "KeyPair(public=" ++ String.ofList (k.publicHex.toList.take 8) ++ "..., secret=[REDACTED])"

end KeyPair

end BinDelegation
