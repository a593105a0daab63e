import BinDelegation.Document.Key

/-! # The delegation table

The parent document names the roles that it delegates to, with the keys that may sign for each and
the hash prefixes that each serves. Clients look a path up by its prefix; the first role that serves
it counts.
-/

namespace BinDelegation

/-- One role that a parent delegates to. -/
structure RoleSpec where
  name : String
  keyIds : List String
  /-- How many of the keys have to sign. -/
  threshold : UInt32
  terminating : Bool
  pathHashPrefixes : List String
deriving DecidableEq, Repr

/-- A list of texts as it is read. -/
def textsOf? : Json.Form.Decoder (List String) := Json.Form.list? fun _ form => form.text?

instance : Wire RoleSpec where
  json r :=
    .object [("name", .string r.name), ("keyids", .strings r.keyIds),
      ("threshold", .natural r.threshold.toUInt64), ("terminating", .bool r.terminating),
      ("path_hash_prefixes", .strings r.pathHashPrefixes)]
  decode := Json.Form.record? ["name", "keyids", "threshold", "terminating", "path_hash_prefixes"]
    fun room fields =>
      match fields with
      | [name, keyIds, threshold, terminating, prefixes] => do
        return ⟨← name.text?, ← textsOf? room keyIds, ← threshold.uint32?, ← terminating.flag?,
          ← textsOf? room prefixes⟩
      | _ => none

/-- The keys and roles of a parent document. -/
structure DelegationTable where
  /-- Every key that one of the roles uses, by its id. -/
  keys : Dict String KeyRecord := .empty
  /-- The roles, in ascending order of their bins. -/
  roles : List RoleSpec := []
deriving DecidableEq

namespace DelegationTable

instance : Wire DelegationTable where
  json t := .object [("keys", .ofDict Wire.json t.keys), ("roles", .array (t.roles.map Wire.json))]
  decode := Json.Form.record? ["keys", "roles"] fun room fields =>
    match fields with
    | [keys, roles] => do
      return ⟨← Json.Form.dict? Wire.decode room keys, ← Json.Form.list? Wire.decode room roles⟩
    | _ => none

/-- The role of a name. -/
def role? (t : DelegationTable) (name : String) : Option RoleSpec :=
  t.roles.find? (·.name == name)

/-- The first role that serves a hash prefix. -/
def roleForPrefix? (t : DelegationTable) (hashPrefix : String) : Option RoleSpec :=
  t.roles.find? (·.pathHashPrefixes.contains hashPrefix)

end DelegationTable

end BinDelegation
