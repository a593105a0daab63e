import BinDelegation.Document.Table
import BinDelegation.Document.Target

/-! # Document bodies and envelopes

The parent document delegates and holds no targets; the bin documents hold the targets. Either is
published in an envelope together with the signatures over its body.
-/

namespace BinDelegation

/-- The type that every document states. -/
def targetsType : String := "targets"

/-- The body of the parent document. -/
structure ParentBody where
  type : String := targetsType
  specVersion : String
  version : UInt64 := 1
  expires : String
  /-- Empty in documents that are built here: targets live in the bins. -/
  targets : Dict String TargetRecord := .empty
  delegations : DelegationTable := {}

/-- The body of a bin document. -/
structure BinBody where
  type : String := targetsType
  specVersion : String
  version : UInt64 := 1
  expires : String
  targets : Dict String TargetRecord := .empty

/-- The members that both kinds of body begin with. -/
def commonMembers (type specVersion : String) (version : UInt64) (expires : String)
    (targets : Dict String TargetRecord) : List (String × Json) :=
  [("_type", .string type), ("spec_version", .string specVersion), ("version", .natural version),
    ("expires", .string expires), ("targets", .ofDict Wire.json targets)]

/-- The names of those members. -/
def commonNames : List String := ["_type", "spec_version", "version", "expires", "targets"]

/-- A dictionary of target records as it is read. -/
def targetsOf? : Json.Form.Decoder (Dict String TargetRecord) := Json.Form.dict? Wire.decode

instance : Wire ParentBody where
  json b :=
    .object (commonMembers b.type b.specVersion b.version b.expires b.targets
      ++ [("delegations", Wire.json b.delegations)])
  decode := Json.Form.record? (commonNames ++ ["delegations"]) fun room fields =>
    match fields with
    | [type, specVersion, version, expires, targets, delegations] => do
      return ⟨← type.text?, ← specVersion.text?, ← version.uint64?, ← expires.text?,
        ← targetsOf? room targets, ← Wire.decode room delegations⟩
    | _ => none

instance : Wire BinBody where
  json b := .object (commonMembers b.type b.specVersion b.version b.expires b.targets)
  decode := Json.Form.record? commonNames fun room fields =>
    match fields with
    | [type, specVersion, version, expires, targets] => do
      return ⟨← type.text?, ← specVersion.text?, ← version.uint64?, ← expires.text?,
        ← targetsOf? room targets⟩
    | _ => none

/-- A body and the signatures over it. -/
structure Envelope (β : Type) where
  signed : β
  signatures : List Signature

namespace Envelope

variable {β : Type} [Wire β]

instance : Wire (Envelope β) where
  json e :=
    .object [("signed", Wire.json e.signed), ("signatures", .array (e.signatures.map Wire.json))]
  decode := Json.Form.record? ["signed", "signatures"] fun room fields =>
    match fields with
    | [signed, signatures] => do
      return ⟨← Wire.decode room signed, ← Json.Form.list? Wire.decode room signatures⟩
    | _ => none

/-- The bytes that the signatures cover. -/
def signedBytes (e : Envelope β) : Except Error ByteArray := Wire.canonicalBytes e.signed

end Envelope

end BinDelegation
