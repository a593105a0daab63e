import BinDelegation.Error
import BinDelegation.FileSystem.FileError
import BinDelegation.RoleName

/-! # Errors of stores -/

namespace BinDelegation

/-- Why a store does not keep or show a document. -/
inductive StoreError where
  /-- A text that is no role name. -/
  | invalidRole (role : String)
  /-- A role without a document. -/
  | notFound (role : String)
  /-- A file operation failed. -/
  | file (e : FileError)
  /-- The files of the store cannot be listed. -/
  | listing (path : String) (e : FileError)
  /-- A document is not of the form that was asked for. -/
  | form
deriving DecidableEq, Repr

namespace StoreError

/-- The text shown to a person. -/
def message : StoreError → String
  | invalidRole role => "invalid role name: " ++ Quoted.text role
  | notFound role => "role not found: " ++ role
  | file e => "I/O error: " ++ e.message
  | listing path e => "directory walk error: " ++ e.messageAt path
  | form => "json error: not the expected document"

/-- The error as a failure to store the document of a role. -/
def asError (role : String) (e : StoreError) : Error := .persistence role e.message

end StoreError

/-- Refuses a text that is no role name. -/
def requireRole (role : String) : Except StoreError Unit :=
  if RoleName.isValid role then .ok () else .error (.invalidRole role)

end BinDelegation
