import BinDelegation.KeyPair

/-! # Signers

Whatever can sign for a key: a key at hand, a device, a service. A signer names its key once and for
all. Its answers may depend on a state that it shares with others, may differ from call to call,
may fail, and need not be signatures under the key that it names.
-/

namespace BinDelegation

/-- A source of signatures, whose answers depend on a state of type `σ`. -/
structure Signer (σ : Type) where
  /-- The id of the key that the signatures are under. -/
  keyId : String
  /-- Answers with a signature of some bytes, or with a reason for none. -/
  sign : ByteArray → StateM σ (Except Error Signature)

namespace Signer

variable {σ : Type}

/-- The signer of a key pair at hand, which always answers. -/
def ofKeyPair (k : KeyPair) : Except Error (Signer σ) := do
  let keyId ← k.keyId
  let key := Ed25519.expand k.seed
  return {
    keyId := keyId
    sign := fun bytes => pure (.ok ⟨keyId, Hex.encode (key.sign bytes).toList⟩) }

/-- The text shown in diagnostics of a signer with a key at hand. -/
def diagnostic (s : Signer σ) : String :=
  "Ed25519Signer \x7b key_id: " ++ Quoted.text s.keyId ++ " \x7d"

/-- One call of a signer and its answer. -/
structure Call where
  keyId : String
  message : ByteArray
  answer : Except Error Signature

/-- The same signer, with every call noted down behind the calls before it. -/
def recorded (s : Signer σ) : Signer (σ × List Call) where
  keyId := s.keyId
  sign := fun bytes state =>
    let (answer, world) := s.sign bytes state.1
    (answer, (world, state.2 ++ [⟨s.keyId, bytes, answer⟩]))

end Signer

end BinDelegation
