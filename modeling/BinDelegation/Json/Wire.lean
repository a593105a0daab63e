import BinDelegation.Json.Canonical
import BinDelegation.Json.Reader
import BinDelegation.Json.Record

/-! # Values with a wire form

A wire type has an encoder and a decoder. The encoder fixes the order of members in published
documents; signatures and key ids are taken over the canonical form, which has an order of its own.
-/

namespace BinDelegation

/-- A type whose values are published. -/
class Wire (α : Type) where
  /-- The value as JSON, its members in publishing order. -/
  json : α → Json
  /-- What a written form says. -/
  decode : Json.Form.Decoder α

namespace Wire

variable {α : Type} [Wire α]

/-- The bytes that signatures of a value cover. -/
def canonicalBytes (a : α) : Except Error ByteArray := (json a).canonicalBytes

/-- The value as a text without blanks. -/
def compact (a : α) : String := (json a).compact

/-- The value as a published text. -/
def pretty (a : α) : String := (json a).pretty

/-- The value that the characters of a text say. -/
def ofChars? (cs : List Char) : Option α :=
  match Json.formOf? cs with
  | some form => decode Json.maxDepth form
  | none => none

/-- The value that a text says. -/
def read? (s : String) : Option α := ofChars? s.toList

/-- The value that a text says, which is given by its bytes. -/
def readBytes? (bytes : ByteArray) : Option α := ofChars? (Json.charsOfBytes bytes)

end Wire

end BinDelegation
