import BinDelegation.CommandLine.Arguments
import BinDelegation.CommandLine.Inspection
import BinDelegation.CommandLine.KeyFiles
import BinDelegation.CommandLine.TargetFiles
import BinDelegation.Delegation.Graph
import BinDelegation.Store.Directory

/-! # Building a delegation

From a directory of targets to a directory of signed documents. Nothing is written before all
documents are signed; from then on each document is written on its own, and a report tells which
ones were not.
-/

namespace BinDelegation

/-- How often signing is tried before it is given up. -/
def signingPasses : Nat := 3

/-- Has a graph signed, in up to so many passes. -/
def Graph.signWithin (parentSigner binSigner : Signer Unit) :
    (passes : Nat) → Graph → Except Error Graph
  | 0, g => .ok g
  | passes + 1, g => do
    let (report, g) ← (g.sign parentSigner binSigner ()).1
    if report.isComplete then return g else signWithin parentSigner binSigner passes g

/-- What came of a build. -/
structure BuildReport where
  binCount : Nat
  targetCount : Nat
  out : String
  parentRole : String
  parentKeyId : String
  binKeyId : String
  published : PublishReport

namespace BuildReport

/-- The documents that were not written, with the texts of their errors. -/
def failed (r : BuildReport) : List (String × String) :=
  r.published.failed.map fun (role, e) => (role, e.message)

/-- One line on how something went. -/
def status (good : Bool) (text : String) : String := (if good then "ok " else "failed ") ++ text

/-- The build as a report. -/
def report (r : BuildReport) : Report where
  json :=
    .object [("bins", .count r.binCount), ("artifacts", .count r.targetCount),
      ("out_dir", .string r.out), ("parent_role", .string r.parentRole),
      ("parent_key_id", .string r.parentKeyId), ("bin_key_id", .string r.binKeyId),
      ("stored", .strings r.published.stored),
      ("failed", .array (r.failed.map fun (role, text) =>
        .object [("role", .string role), ("error", .string text)]))]
  lines :=
    status r.failed.isEmpty (toString r.targetCount ++ " artifacts in " ++ toString r.binCount
        ++ " bins, " ++ toString r.published.stored.length ++ " documents written to " ++ r.out)
      :: r.failed.map fun (role, text) => status false (role ++ ": " ++ text)

/-- The outcome of a build: the report, and the first error if a document was not written. -/
def outcome (r : BuildReport) (asJson : Bool) : Outcome :=
  match r.published.result with
  | .ok () => r.report.outcome asJson
  | .error e => { (Refusal.ofError e).outcome with out := r.report.text asJson }

end BuildReport

namespace BuildOptions

/-- The keys of a build, the parent's first. -/
def keyPairs (o : BuildOptions) : CommandTask (KeyPair × KeyPair) :=
  match o.keys with
  | some directory => KeyFiles.readPair directory
  | none => return (← CommandTask.newKeyPair, ← CommandTask.newKeyPair)

/-- The settings of a build that starts at some moment. -/
def settings (o : BuildOptions) (partition : Partition) (now : Timestamp) : Settings where
  partition := partition
  issuedAt := now
  parentLifetime := .days o.parentDays
  binLifetime := .days o.binDays

/-- The signed graph of some targets. -/
def signedGraph (settings : Settings) (binKey : KeyRecord) (parentSigner binSigner : Signer Unit)
    (targets : List (String × TargetRecord)) : CommandTask Graph := do
  let empty ← CommandTask.ofExcept .ofFailure (Graph.build settings binKey)
  let (_, filed) ← CommandTask.ofExcept .ofError (empty.fileAll targets)
  let g ← CommandTask.ofExcept .ofError (filed.signWithin parentSigner binSigner signingPasses)
  if g.isFullySigned then return g
  else
    throw (.told ("could not sign every document after " ++ toString signingPasses ++ " passes")
      none)

/-- What is told when the directory of documents cannot be opened. -/
def storeRefusal (e : StoreError) : Refusal :=
  match e with
  | .file cause => .ofFileError e.message cause
  | _ => .told e.message none

/-- A build of which all is done but for what is written, and what is told of it. -/
structure Prepared where
  binCount : Nat
  targetCount : Nat
  parentKeyId : String
  binKeyId : String
  graph : Graph

/-- All of a build that comes before the directory of documents is opened. -/
def prepare (o : BuildOptions) : CommandTask Prepared := do
  let partition ← CommandTask.partition o.count
  let (parentKey, binKey) ← o.keyPairs
  let parentSigner : Signer Unit ← CommandTask.ofExcept .ofError (Signer.ofKeyPair parentKey)
  let binSigner : Signer Unit ← CommandTask.ofExcept .ofError (Signer.ofKeyPair binKey)
  let targets ← TargetFiles.collect o.targets
  let settings := o.settings partition (← CommandTask.now)
  let g ← signedGraph settings binKey.keyRecord parentSigner binSigner targets
  return {
    binCount := partition.count
    targetCount := targets.length
    parentKeyId := parentSigner.keyId
    binKeyId := binSigner.keyId
    graph := g }

/-- Writes the documents of a signed graph. -/
def publish (o : BuildOptions) (g : Graph) : CommandTask PublishReport := do
  let store ← CommandTask.onFilesOr storeRefusal (DirectoryStore.openAt o.out).run
  let docs ← CommandTask.ofExcept .ofError g.signedDocuments
  CommandTask.onFiles ((publishAll docs ⟨o.attempts⟩).run store.answer)

/-- What is told of a build when its documents have been handed to the store. -/
def reportOf (o : BuildOptions) (b : Prepared) (published : PublishReport) : BuildReport where
  binCount := b.binCount
  targetCount := b.targetCount
  out := o.out
  parentRole := b.graph.parent.role
  parentKeyId := b.parentKeyId
  binKeyId := b.binKeyId
  published := published

end BuildOptions

/-- Builds, signs and writes a delegation. -/
def Command.buildDelegation (asJson : Bool) (o : BuildOptions) : CommandTask Outcome := do
  let b ← o.prepare
  return (o.reportOf b (← o.publish b.graph)).outcome asJson

end BinDelegation
