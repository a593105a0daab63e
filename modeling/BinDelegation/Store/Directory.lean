import BinDelegation.Document.Body
import BinDelegation.FileSystem.Action
import BinDelegation.Store.Publishing
import BinDelegation.Store.StoreError

/-! # A store in a directory

The document of a role is the file of its name in one directory. A document is first written to a
draft beside it, which then takes the place of the file in one step. So a write that stops halfway
leaves a draft behind, and never a part of a document under a role's name. Drafts are no documents,
as their names begin with a point.
-/

namespace BinDelegation

/-- A store in a directory. -/
structure DirectoryStore where
  root : String
deriving DecidableEq, Repr

namespace DirectoryStore

/-- What the store asks of a file system, up to a result or an error of the store. -/
abbrev Task (α : Type) := ExceptT StoreError (Program files) α

/-- One file operation. -/
def operate (action : FileAction) : Task action.Result :=
  ExceptT.mk do
    match ← Program.perform (I := files) action with
    | .ok result => return .ok result
    | .error e => return .error (.file e)

/-- A result that is known without a file operation. -/
def known {α : Type} (result : Except StoreError α) : Task α := ExceptT.mk (pure result)

/-- The name of the file of a role. -/
def fileName (role : String) : String := role ++ ".json"

/-- The name of the draft for the file of a role. -/
def draftName (role : String) : String := "." ++ role ++ ".json.tmp"

/-- Opens a store, in a directory that is made if need be. -/
def openAt (root : String) : Task DirectoryStore :=
  ExceptT.mk do
    match ← makeDirectories root with
    | .ok () => return .ok ⟨root⟩
    | .error e => return .error (.file e)

/-- The file of a role. -/
def pathFor (s : DirectoryStore) (role : String) : Except StoreError String := do
  requireRole role
  return Path.join s.root (fileName role)

/-- Puts the draft in the place of a file, or else removes it. -/
def settleDraft (draft target : String) : Task Unit :=
  ExceptT.mk do
    match ← Program.perform (I := files) (.rename draft target) with
    | .ok () => return .ok ()
    | .error e =>
      let _ ← Program.perform (I := files) (.remove draft)
      return .error (.file e)

/-- Writes the document of a role, and answers with its file. -/
def write (s : DirectoryStore) (role : String) (bytes : ByteArray) : Task String := do
  let target ← known (s.pathFor role)
  let draft := Path.join s.root (draftName role)
  operate (.create draft)
  operate (.write draft bytes)
  settleDraft draft target
  return target

/-- Reads the document of a role. -/
def read (s : DirectoryStore) (role : String) : Task ByteArray := do
  let path ← known (s.pathFor role)
  if ← ExceptT.lift (pathExists path) then operate (.read path)
  else throw (.notFound role)

/-- Reads the document of a role and understands it. -/
def load (s : DirectoryStore) (β : Type) [Wire β] (role : String) : Task (Envelope β) := do
  let bytes ← s.read role
  match Wire.readBytes? bytes with
  | some envelope => return envelope
  | none => throw .form

/-- The role whose document has a file name. -/
def roleOfFile? (name : FileName) : Option String := do
  let (stem, extension) ← Path.stemAndExtension? name
  let role ← String.fromUTF8? ⟨stem.toArray⟩
  if extension = Path.bytes "json" ∧ RoleName.isValid role then some role else none

/-- The roles with a document, in order. -/
def roles (s : DirectoryStore) : Task (List String) :=
  ExceptT.mk do
    match ← Program.perform (I := files) (.walk s.root (some 1)) with
    | .error e => return .error (.listing s.root e)
    | .ok entries =>
      let found := entries.filterMap fun (names, kind) =>
        match names, kind with
        | [name], .file => roleOfFile? name
        | _, _ => none
      return .ok (found.mergeSort (· ≤ ·))

/-- Answers the calls of a publisher. -/
def answer (s : DirectoryStore) (call : StoreCall) : Program files (Except Error Unit) := do
  match ← s.write call.role call.bytes with
  | .ok _ => return .ok ()
  | .error e => return .error (e.asError call.role)

end DirectoryStore

end BinDelegation
