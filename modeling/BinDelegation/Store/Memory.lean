import BinDelegation.Store.Publishing
import BinDelegation.Store.StoreError

/-! # A store in memory -/

namespace BinDelegation

/-- The documents kept, by role. -/
structure MemoryStore where
  documents : Dict String ByteArray := .empty
deriving DecidableEq

namespace MemoryStore

/-- Keeps a document in place of an earlier one of its role. -/
def store (s : MemoryStore) (role : String) (bytes : ByteArray) :
    Except StoreError MemoryStore := do
  requireRole role
  return ⟨s.documents.insert role bytes⟩

/-- The document of a role. -/
def get? (s : MemoryStore) (role : String) : Option ByteArray := s.documents.get? role

/-- The number of documents. -/
def size (s : MemoryStore) : Nat := s.documents.size

/-- The roles with a document, in order. -/
def roles (s : MemoryStore) : List String := s.documents.keys

/-- Answers the calls of a publisher. -/
def answer (call : StoreCall) : StateM MemoryStore (Except Error Unit) := fun s =>
  match s.store call.role call.bytes with
  | .ok changed => (.ok (), changed)
  | .error e => (.error (e.asError call.role), s)

end MemoryStore

end BinDelegation
