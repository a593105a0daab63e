import BinDelegation.Bytes
import BinDelegation.Document.Body
import BinDelegation.Signer

/-! # Documents on their way to a signature

A document is empty, then populated, then signed, and never goes back. A signed document holds the
one signature over its body and takes no further change.
-/

namespace BinDelegation

/-- How far a document has come. -/
inductive DocumentState where
  | empty
  | populated
  | signed
deriving DecidableEq, Repr

/-- A document of a role. -/
structure Document (β : Type) where
  role : String
  body : β
  /-- How far the document has come. -/
  state : DocumentState := .empty
  /-- The signatures that the document carries. -/
  signatures : List Signature := []

/-- What came of asking for the signature of a document. -/
inductive SignStatus where
  | signed
  /-- The document carried a signature before. -/
  | alreadySigned
  | failed (e : Error)
deriving DecidableEq, Repr

/-- A role and what came of asking for its document's signature. -/
structure SignOutcome where
  role : String
  status : SignStatus
deriving DecidableEq, Repr

/-- A signed document as it is published. -/
structure SignedDocument where
  role : String
  /-- The UTF-8 bytes of the envelope's text. -/
  json : ByteArray
deriving DecidableEq

namespace Document

variable {β : Type}

/-- Refuses to change a signed document. -/
def requireUnsealed (d : Document β) : Except Error Unit :=
  if d.state = .signed then .error (.documentSealed d.role) else .ok ()

/-- An error of a signer as an error of this document. -/
def signingError (d : Document β) : Error → Error
  | .signing _ reason => .signing d.role reason
  | other => .signing d.role other.message

/-- A signer's answer, refused if it is a signature under another key than the signer's. -/
def acceptAnswer (d : Document β) (keyId : String) : Except Error Signature → Except Error Signature
  | .error e => .error (d.signingError e)
  | .ok signature =>
    if signature.keyId = keyId then .ok signature
    else
      .error (.signing d.role ("signer returned signature for key " ++ signature.keyId
        ++ " instead of " ++ keyId))

variable [Wire β] {σ : Type}

/-- Asks a signer for a signature of the body. A body without a canonical form is not asked for. -/
def askSignature (d : Document β) (signer : Signer σ) : StateM σ (Except Error Signature) :=
  match Wire.canonicalBytes d.body with
  | .error e => pure (.error e)
  | .ok bytes => return d.acceptAnswer signer.keyId (← signer.sign bytes)

/-- The outcome of an answer, and the document with it. Without a signature, also an empty document
counts as populated from now on. -/
def settle (d : Document β) : Except Error Signature → SignOutcome × Document β
  | .ok signature =>
    (⟨d.role, .signed⟩, { d with state := .signed, signatures := d.signatures ++ [signature] })
  | .error e => (⟨d.role, .failed e⟩, { d with state := .populated })

/-- Has the document signed, unless it is. -/
def sign (d : Document β) (signer : Signer σ) : StateM σ (SignOutcome × Document β) :=
  match d.state with
  | .signed => pure (⟨d.role, .alreadySigned⟩, d)
  | .empty | .populated => return d.settle (← d.askSignature signer)

/-- The document as it is published. -/
def publish (d : Document β) : Except Error SignedDocument :=
  if d.state = .signed then
    let envelope : Envelope β := ⟨d.body, d.signatures⟩
    .ok ⟨d.role, (Wire.pretty envelope).toUTF8⟩
  else .error (.invariant ("document " ++ d.role ++ " is not signed"))

end Document

end BinDelegation
