import BinDelegation.Assignment
import BinDelegation.Json.Wire

/-! # Target records

What a document states about one target file: its length, its hashes by algorithm, and custom
metadata, which is any JSON value.
-/

namespace BinDelegation

/-- The record of a target file. -/
structure TargetRecord where
  length : UInt64
  hashes : Dict String String
  custom : Option Json := none
  /-- Custom metadata is a value, not a text: its members have one order only. -/
  customSorted : ∀ j, custom = some j → j.isSorted = true := by simp

namespace TargetRecord

/-- The record of a length and a SHA-256 digest in hexadecimal. -/
def ofSha256 (length : UInt64) (digest : String) : TargetRecord where
  length := length
  hashes := Dict.singleton HashAlgorithm.sha256.name digest

/-- The record of a file's content. -/
def ofBytes (bytes : ByteArray) : TargetRecord := ofSha256 (UInt64.ofNat bytes.size) (hashHex bytes)

/-- The record with custom metadata in place of any that it had. -/
def withCustom (r : TargetRecord) (custom : Json) : TargetRecord where
  length := r.length
  hashes := r.hashes
  custom := some custom.sorted
  customSorted := by
    intro j h
    cases h
    exact Json.isSorted_sorted custom

/-- A record as JSON; custom metadata is left out where there is none. -/
def json (r : TargetRecord) : Json :=
  .object ([("length", .natural r.length), ("hashes", .ofDict .string r.hashes)]
    ++ match r.custom with
      | some custom => [("custom", custom)]
      | none => [])

/-- Custom metadata as it is read: a missing member and `null` both mean that there is none. -/
def customOf? (room : Nat) : Option Json.Form → Option (Option Json)
  | none => some none
  | some .null => some none
  | some form => (form.value? room).map some

theorem customSorted_of_customOf? {room : Nat} {form : Option Json.Form} {custom : Option Json}
    (h : customOf? room form = some custom) : ∀ j, custom = some j → j.isSorted = true := by
  intro j hj
  subst hj
  unfold customOf? at h
  split at h
  · simp at h
  · simp at h
  · obtain ⟨value, hvalue, heq⟩ := Option.map_eq_some_iff.1 h
    cases heq
    exact Json.Form.isSorted_of_value? hvalue

/-- What a form says of a target file. -/
def decode : Json.Form.Decoder TargetRecord
  | 0, _ => none
  | room + 1, form =>
    match form.fields? ["length", "hashes", "custom"] with
    | some [some length, some hashes, custom] =>
      match length.uint64?, Json.Form.dict? (fun _ form => form.text?) room hashes with
      | some length, some hashes =>
        match h : customOf? room custom with
        | some custom => some ⟨length, hashes, custom, customSorted_of_customOf? h⟩
        | none => none
      | _, _ => none
    | _ => none

instance : Wire TargetRecord := ⟨json, decode⟩

end TargetRecord

end BinDelegation
