import BinDelegation.Text.Quoted

/-! # Errors

One type of errors for the whole library, one constructor for each class of failure that a caller
tells apart. Failures of a signer or of a store concern one document and may pass when tried again.
-/

namespace BinDelegation

/-- A failure that is reported to the caller. -/
inductive Error where
  /-- A bin count or a delegation's settings cannot be used. -/
  | invalidConfiguration (reason : String)
  /-- A path is assigned to a bin that does not exist. -/
  | assignmentInconsistency (path bin : String)
  /-- A document that carries a signature was about to be changed. -/
  | documentSealed (role : String)
  /-- A signer gave no usable signature for a document. -/
  | signing (role reason : String)
  /-- A store did not take a document. -/
  | persistence (role reason : String)
  /-- A value passed in cannot be used. -/
  | invalidArgument (reason : String)
  /-- A value has no encoded form, or a text is none. -/
  | serialization (reason : String)
  /-- A condition that should always hold does not. -/
  | invariant (reason : String)
deriving DecidableEq, Repr

namespace Error

/-- The text shown to a person. -/
def message : Error → String
  | invalidConfiguration reason => "invalid configuration: " ++ reason
  | assignmentInconsistency path bin =>
    "assignment inconsistency: path " ++ Quoted.text path ++ " mapped to unknown bin "
      ++ Quoted.text bin
  | documentSealed role =>
    "document " ++ Quoted.text role ++ " is signed and can no longer be modified"
  | signing role reason => "signing failed for " ++ Quoted.text role ++ ": " ++ reason
  | persistence role reason => "persistence failed for " ++ Quoted.text role ++ ": " ++ reason
  | invalidArgument reason => "invalid argument: " ++ reason
  | serialization reason => "serialization error: " ++ reason
  | invariant reason => "invariant violated: " ++ reason

/-- The name of the error's class. -/
def kind : Error → String
  | invalidConfiguration _ => "InvalidConfiguration"
  | assignmentInconsistency _ _ => "AssignmentInconsistency"
  | documentSealed _ => "DocumentSealed"
  | signing _ _ => "Signing"
  | persistence _ _ => "Persistence"
  | invalidArgument _ => "InvalidArgument"
  | serialization _ => "Serialization"
  | invariant _ => "Invariant"

/-- What the error holds: one text, or named texts. -/
def fields : Error → List (String × String)
  | assignmentInconsistency path bin => [("path", path), ("bin", bin)]
  | documentSealed role => [("role", role)]
  | signing role reason => [("role", role), ("reason", reason)]
  | persistence role reason => [("role", role), ("reason", reason)]
  | invalidConfiguration reason => [("", reason)]
  | invalidArgument reason => [("", reason)]
  | serialization reason => [("", reason)]
  | invariant reason => [("", reason)]

/-- The text shown in diagnostics: the class and what it holds, every text quoted. -/
def diagnostic (e : Error) : String :=
  match e.fields with
  | [("", reason)] => e.kind ++ "(" ++ Quoted.text reason ++ ")"
  | named =>
    let shown := named.map fun field => field.1 ++ ": " ++ Quoted.text field.2
    e.kind ++ " \x7b " ++ ", ".intercalate shown ++ " \x7d"

/-- Whether the same operation may succeed when it is tried again. -/
def isRetryable : Error → Bool
  | signing _ _ => true
  | persistence _ _ => true
  | _ => false

end Error

/-- How an operation ends without an answer. -/
inductive Failure where
  /-- The caller is told why. -/
  | reported (e : Error)
  /-- The whole program stops: a moment was to be written that has no date in the calendar. -/
  | crashed
deriving DecidableEq, Repr

end BinDelegation
