import BinDelegation.Crew
import BinDelegation.Delegation.Document

/-! # Publishing

Signed documents are handed to a store one by one, or all at once. Each document is tried until the
store takes it or its attempts are used up, and one that fails keeps no other from being tried. What
a store does with a document is its own affair: publishing is a program over the calls of a store.
-/

namespace BinDelegation

/-- A call of a store: to keep some bytes under a role. -/
structure StoreCall where
  role : String
  bytes : ByteArray
deriving DecidableEq

/-- Stores, by their calls and answers. -/
abbrev storing : Interface where
  Action := StoreCall
  Answer _ := Except Error Unit

/-- How often a store is asked to take one document. -/
structure RetryPolicy where
  maxAttempts : UInt32 := 3
deriving DecidableEq, Repr

namespace RetryPolicy

/-- A single attempt. -/
def noRetry : RetryPolicy where
  maxAttempts := 1

/-- The greatest number of attempts, which is at least one. -/
def limit (p : RetryPolicy) : Nat := max 1 p.maxAttempts.toNat

end RetryPolicy

/-- What came of publishing one document. -/
structure PublishOutcome where
  role : String
  attempts : Nat
  result : Except Error Unit

/-- What came of publishing documents, in their order. -/
structure PublishReport where
  outcomes : List PublishOutcome

namespace PublishReport

/-- Whether every document was stored. -/
def isComplete (r : PublishReport) : Bool := r.outcomes.all (·.result.isOk)

/-- The roles whose documents were stored. -/
def stored (r : PublishReport) : List String := (r.outcomes.filter (·.result.isOk)).map (·.role)

/-- The roles whose documents were not stored, with the last error of each. -/
def failed (r : PublishReport) : List (String × Error) :=
  r.outcomes.filterMap fun o =>
    match o.result with
    | .ok () => none
    | .error e => some (o.role, e)

/-- The first document's error, if a document was not stored. -/
def result (r : PublishReport) : Except Error Unit :=
  match r.failed with
  | [] => .ok ()
  | (_, e) :: _ => .error e

end PublishReport

namespace SignedDocument

/-- An error of a store as an error of this document. -/
def storeError (d : SignedDocument) : Error → Error
  | .persistence role reason => .persistence role reason
  | other => .persistence d.role other.message

/-- Tries to store a document up to `more` times after the next attempt, `made` attempts having been
made. -/
def attempt (d : SignedDocument) : (more made : Nat) → Program storing PublishOutcome
  | 0, made => .ask ⟨d.role, d.json⟩ fun
    | .ok () => .done ⟨d.role, made + 1, .ok ()⟩
    | .error e => .done ⟨d.role, made + 1, .error (d.storeError e)⟩
  | more + 1, made => .ask ⟨d.role, d.json⟩ fun
    | .ok () => .done ⟨d.role, made + 1, .ok ()⟩
    | .error _ => d.attempt more (made + 1)

/-- Publishes one document. -/
def store (d : SignedDocument) (policy : RetryPolicy) : Program storing PublishOutcome :=
  d.attempt (policy.limit - 1) 0

end SignedDocument

/-- Publishes documents, one after the other. -/
def publishAll (docs : List SignedDocument) (policy : RetryPolicy) :
    Program storing PublishReport :=
  return ⟨← docs.mapM fun d => d.store policy⟩

/-- The programs that publish documents at once, each of them one document. -/
def publishers (docs : List SignedDocument) (policy : RetryPolicy) :
    List (Program storing PublishOutcome) :=
  docs.map fun d => d.store policy

/-- What came of publishing documents at once. -/
def Crew.report {I : Interface} {ω : Type} (c : Crew I PublishOutcome ω) : PublishReport :=
  ⟨c.ordered⟩

end BinDelegation
