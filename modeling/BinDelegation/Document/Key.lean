import BinDelegation.Assignment
import BinDelegation.Json.Wire

/-! # Public keys and signatures

A public key is identified by the hash of its canonical form, so its id changes with its content.
-/

namespace BinDelegation

/-- A public key as documents hold it. -/
structure KeyRecord where
  keytype : String
  scheme : String
  /-- The public key in lower-case hexadecimal. -/
  publicKey : String
deriving DecidableEq, Repr

namespace KeyRecord

/-- The record of an Ed25519 key. -/
def ed25519 (publicKey : String) : KeyRecord := ⟨"ed25519", "ed25519", publicKey⟩

instance : Wire KeyRecord where
  json k :=
    .object [("keytype", .string k.keytype), ("scheme", .string k.scheme),
      ("keyval", .object [("public", .string k.publicKey)])]
  decode := Json.Form.record? ["keytype", "scheme", "keyval"] fun room fields =>
    match fields with
    | [keytype, scheme, keyval] => do
      let value : Json.Form.Decoder String := Json.Form.record? ["public"] fun _ fields =>
        match fields with
        | [publicKey] => publicKey.text?
        | _ => none
      return ⟨← keytype.text?, ← scheme.text?, ← value room keyval⟩
    | _ => none

/-- The id of a key: the hash of its canonical form. -/
def keyId (k : KeyRecord) : Except Error String := (Wire.canonicalBytes k).map hashHex

end KeyRecord

/-- A signature over the canonical form of a document's body. -/
structure Signature where
  keyId : String
  /-- The signature in lower-case hexadecimal. -/
  value : String
deriving DecidableEq, Repr

instance : Wire Signature where
  json s := .object [("keyid", .string s.keyId), ("sig", .string s.value)]
  decode := Json.Form.record? ["keyid", "sig"] fun _ fields =>
    match fields with
    | [keyId, value] => do return ⟨← keyId.text?, ← value.text?⟩
    | _ => none

end BinDelegation
