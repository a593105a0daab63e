import BinDelegation.Ascent
import BinDelegation.Delegation.Document
import BinDelegation.Settings
import Std.Data.TreeMap

/-! # The delegation graph

One parent document and one document for each bin. Building the graph names every bin in the parent;
a target is filed into the one bin that the hash of its path selects; signing asks for the signature
of every document that has none.

A bin is known in three ways: by its role in the parent's list, by the place of its document among
the others, and by an index that tells the place for a name. Look-ups go by the index.

Filing and signing work on a graph in place (`Graph.Update`): each step changes the graph that the
next step meets, and a failure leaves whatever has been changed before it. That a refused call
leaves nothing changed is a fact about the order of the steps, not about their type.

This is the sequential build of the program: paths are located and documents signed one after the
other, in the order of the list. A build that shares this work among threads makes the same calls,
but asks the signer of the bins in any order and may report another of several errors.
-/

namespace BinDelegation

/-- A parent document, the documents of its bins in order, and what they were built from. -/
structure Graph where
  settings : Settings
  parent : Document ParentBody
  bins : List (Document BinBody)
  /-- The positions of the bin documents, by the names of the bins. -/
  index : Std.TreeMap String Nat

namespace Graph

/-- How many signatures a bin document needs. -/
def binThreshold : UInt32 := 1

/-- The entry of a bin in the parent document. -/
def roleSpec (keyId : String) (b : Bin) : RoleSpec where
  name := b.name
  keyIds := [keyId]
  threshold := binThreshold
  terminating := false
  pathHashPrefixes := b.hashPrefixes

/-- The positions of bins by their names. The bins are entered in order, each with the number of
those before it. -/
def indexOf (bins : List Bin) : Std.TreeMap String Nat :=
  .ofList (bins.zipIdx.map fun (b, position) => (b.name, position))

/-- An error that is reported to the caller. -/
def report {α : Type} : Except Error α → Except Failure α
  | .ok a => .ok a
  | .error e => .error (.reported e)

/-- The parent document and an empty document for each bin, under a key that all bins share. -/
def build (settings : Settings) (binKey : KeyRecord) : Except Failure Graph := do
  settings.validate
  let keyId ← report binKey.keyId
  let binExpires ← settings.binExpires
  let bins := settings.partition.bins
  report (Ascent.ensure bins (·.low))
  let parentExpires ← settings.parentExpires
  let parentBody : ParentBody :=
    { specVersion := settings.specVersion
      expires := parentExpires
      delegations :=
        { keys := .singleton keyId binKey
          roles := bins.map (roleSpec keyId) } }
  let binBody : BinBody := { specVersion := settings.specVersion, expires := binExpires }
  return {
    settings := settings
    parent := { role := settings.parentRole, body := parentBody, state := .populated }
    bins := bins.map fun b => { role := b.name, body := binBody }
    index := indexOf bins }

/-- The document of a bin, at the position that the index has for its name. An index that leads
behind the last document finds nothing here, and would stop the program. -/
def bin? (g : Graph) (name : String) : Option (Document BinBody) := do
  let i ← g.index[name]?
  g.bins[i]?

/-- The state of a role's document. -/
def stateOf? (g : Graph) (role : String) : Option DocumentState :=
  if role = g.parent.role then some g.parent.state else (g.bin? role).map (·.state)

/-- The signatures of a role's document. -/
def signaturesOf? (g : Graph) (role : String) : Option (List Signature) :=
  if role = g.parent.role then some g.parent.signatures else (g.bin? role).map (·.signatures)

/-- How many targets are filed. -/
def targetCount (g : Graph) : Nat := (g.bins.map (·.body.targets.size)).foldr (· + ·) 0

/-- The role that a client finds for a path, by the hash prefix in the parent's roles. -/
def roleForPath (g : Graph) (path : String) : Except Error RoleSpec := do
  let value ← g.settings.partition.pathPrefix path
  let hashPrefix := g.settings.partition.prefixText value
  match g.parent.body.delegations.roleForPrefix? hashPrefix with
  | some role => .ok role
  | none => .error (.assignmentInconsistency path hashPrefix)

/-- The position of the bin that a path belongs into, by the name of the bin. -/
def locate (g : Graph) (path : String) : Except Error Nat := do
  if path = "" then throw (.invalidArgument "artifact path must not be empty")
  let name ← g.settings.partition.binForPath path
  match g.index[name]? with
  | some i => .ok i
  | none => .error (.assignmentInconsistency path name)

/-- A bin document with a target in it, in place of an earlier record of the path. -/
def withTarget (path : String) (record : TargetRecord) (d : Document BinBody) :
    Document BinBody :=
  { d with
    body := { d.body with targets := d.body.targets.insert path record }
    state := .populated }

/-- The graph with a target in the bin at a position. -/
def insertAt (g : Graph) (i : Nat) (path : String) (record : TargetRecord) : Graph :=
  { g with bins := g.bins.modify i (withTarget path record) }

/-- The document at a position, if it may be changed. -/
def unsealedAt (g : Graph) (i : Nat) : Except Error Unit :=
  match g.bins[i]? with
  | some d => d.requireUnsealed
  | none => .ok ()

/-- Refuses the signer of the bins unless the parent delegates to its key. -/
def requireDelegated (g : Graph) (keyId : String) : Except Error Unit :=
  if g.parent.body.delegations.keys.contains keyId then .ok ()
  else
    .error (.invalidArgument ("bin signer key " ++ keyId ++ " is not delegated to by "
      ++ g.parent.role))

/-- The role of the bin at a position. -/
def roleAt (g : Graph) (i : Nat) : String := (g.bins[i]?.map (·.role)).getD ""

/-- Whether every document carries its signature. -/
def isFullySigned (g : Graph) : Bool :=
  g.parent.state == .signed && g.bins.all (·.state == .signed)

/-- The documents as they are published, the parent first and the bins in order. -/
def signedDocuments (g : Graph) : Except Error (List SignedDocument) := do
  let parent ← g.parent.publish
  let bins ← g.bins.mapM (·.publish)
  return parent :: bins

end Graph

/-- What came of signing, one outcome for each document. -/
structure SigningReport where
  outcomes : List SignOutcome
deriving DecidableEq, Repr

namespace SigningReport

/-- The documents that failed, with their errors. -/
def failed (r : SigningReport) : List (String × Error) :=
  r.outcomes.filterMap fun o =>
    match o.status with
    | .failed e => some (o.role, e)
    | _ => none

/-- Whether no document failed. -/
def isComplete (r : SigningReport) : Bool := r.failed.isEmpty

/-- How many documents were signed now. -/
def newlySigned (r : SigningReport) : Nat := r.outcomes.countP (·.status == .signed)

end SigningReport

namespace Graph

/-! ## Work in place -/

/-- Work on a graph in place. It answers or fails, and in either case it leaves a graph. -/
abbrev Update (m : Type → Type) (α : Type) : Type := ExceptT Error (StateT Graph m) α

namespace Update

variable {m : Type → Type} {α σ : Type}

/-- Does some work on a graph: what comes of it, and the graph that it leaves. -/
def on (work : Update m α) (g : Graph) : m (Except Error α × Graph) :=
  StateT.run (ExceptT.run work) g

/-- Does some work on a graph that is given up if the work fails. -/
def outcome [Monad m] (work : Update m α) (g : Graph) : m (Except Error (α × Graph)) := do
  let (answer, left) ← work.on g
  return answer.map fun a => (a, left)

/-- Looks something up in the graph as it is now, or fails. -/
def look [Monad m] (f : Graph → Except Error α) : Update m α := do f (← get)

/-- Files a target, and answers with the name of its bin. -/
def file (path : String) (record : TargetRecord) : Update Id String := do
  let i ← look fun g => g.locate path
  look fun g => g.unsealedAt i
  modify fun g => g.insertAt i path record
  return (← get).roleAt i

/-- Files targets: first every path is located, then every bin is checked, then the targets are put
into their bins, each time in the order of the list. Answers with their number. -/
def fileAll (targets : List (String × TargetRecord)) : Update Id Nat := do
  let positions ← targets.mapM fun target => look fun g => g.locate target.1
  positions.forM fun i => look fun g => g.unsealedAt i
  (targets.zip positions).forM fun (target, i) => modify fun g => g.insertAt i target.1 target.2
  return targets.length

/-- Has every unsigned document signed, the parent by one signer and the bins by another, in order.
A failure leaves its document unsigned and the others untouched. -/
def signEach (parentSigner binSigner : Signer σ) : Update (StateM σ) SigningReport := do
  let g ← get
  let (parentOutcome, parent) ← g.parent.sign parentSigner
  modify fun g => { g with parent := parent }
  let signed ← (g.bins.mapM fun d => d.sign binSigner : StateM σ _)
  modify fun g => { g with bins := signed.map (·.2) }
  return ⟨parentOutcome :: signed.map (·.1)⟩

/-- Has every unsigned document signed. A bin signer whose key the parent does not delegate to is
refused before anything is signed. -/
def sign (parentSigner binSigner : Signer σ) : Update (StateM σ) SigningReport := do
  look fun g => g.requireDelegated binSigner.keyId
  signEach parentSigner binSigner

end Update

/-- A target's bin and the graph with the target in it. -/
def file (g : Graph) (path : String) (record : TargetRecord) : Except Error (String × Graph) :=
  (Update.file path record).outcome g

/-- The number of some targets and the graph with all of them in their bins. -/
def fileAll (g : Graph) (targets : List (String × TargetRecord)) : Except Error (Nat × Graph) :=
  (Update.fileAll targets).outcome g

/-- What came of a pass of signing and the graph behind it. -/
def sign {σ : Type} (g : Graph) (parentSigner binSigner : Signer σ) :
    StateM σ (Except Error (SigningReport × Graph)) :=
  (Update.sign parentSigner binSigner).outcome g

end Graph

end BinDelegation
