import BinDelegation.Proofs.Delegation.Filing
import BinDelegation.Proofs.Delegation.Signing

/-!
# Runs of a graph

A run performs operations on a graph in place, one after the other, and keeps what it did as a list
of events. An operation that is refused may have done part of its work by then; that it has not is
shown with its steps, and taken over here as the graph that is left.

`Graph.Step` says all that one operation can do: a target or a batch is filed, a pass of signing
goes through all documents, or the operation is refused and nothing has changed. `step_perform`
shows that performing an operation is one of these, and it is the only place where operations are
looked into. What every step keeps therefore holds after any run (`run_induction`), of the events so
far and of the graph that they have led to.

A pass of signing brings its own signers, which share a state with those of other passes. Their
calls are noted down by running the same pass with signers that record, and recording changes no
answer.
-/

namespace BinDelegation

/-- One operation on a graph. Every pass of signing brings its own signers. -/
inductive Operation (σ : Type) where
  | file (path : String) (record : TargetRecord)
  | fileAll (targets : List (String × TargetRecord))
  | sign (parentSigner binSigner : Signer σ)

/-- What an operation answers with if it is not refused. -/
inductive Answer where
  | filed (bin : String)
  | filedAll (count : Nat)
  | signed (report : SigningReport)

/-- An operation, what came of it, and the calls that it made to signers. -/
structure Event (σ : Type) where
  operation : Operation σ
  answer : Except Error Answer
  calls : List Signer.Call

variable {σ : Type}

/-- The targets that were filed, in their order. A refused operation files none. -/
def Event.filed (event : Event σ) : List (String × TargetRecord) :=
  match event.operation, event.answer with
  | .file path record, .ok _ => [(path, record)]
  | .fileAll targets, .ok _ => targets
  | _, _ => []

namespace Graph

/-- Performs an operation on a graph in place. The calls of signing are those that recorded signers
note down. -/
def perform (g : Graph) (operation : Operation σ) : StateM σ (Event σ × Graph) := fun world =>
  match operation with
  | .file path record =>
    let (answer, left) := (Update.file path record).on g
    ((⟨operation, answer.map .filed, []⟩, left), world)
  | .fileAll targets =>
    let (answer, left) := (Update.fileAll targets).on g
    ((⟨operation, answer.map .filedAll, []⟩, left), world)
  | .sign parentSigner binSigner =>
    let ((answer, left), world') := (Update.sign parentSigner binSigner).on g world
    let recorded := (Update.sign parentSigner.recorded binSigner.recorded).on g (world, [])
    ((⟨operation, answer.map .signed, recorded.2.2⟩, left), world')

/-- Performs operations in order. -/
def run (g : Graph) : List (Operation σ) → StateM σ (List (Event σ) × Graph)
  | [] => pure ([], g)
  | operation :: rest => do
    let (event, g) ← g.perform operation
    let (events, g) ← g.run rest
    return (event :: events, g)

/-- All that an operation can do. -/
inductive Step (g : Graph) : Event σ → Graph → Prop where
  | filed {path bin : String} {record : TargetRecord} {g' : Graph}
      (hfile : g.file path record = .ok (bin, g')) :
      Step g ⟨.file path record, .ok (.filed bin), []⟩ g'
  | filedAll {targets : List (String × TargetRecord)} {count : Nat} {g' : Graph}
      (hfile : g.fileAll targets = .ok (count, g')) :
      Step g ⟨.fileAll targets, .ok (.filedAll count), []⟩ g'
  | signed {parentSigner binSigner : Signer σ} {calls : List Signer.Call} {report : SigningReport}
      {g' : Graph}
      (hsigning : g.Signing parentSigner binSigner calls (.ok (report, g'))) :
      Step g ⟨.sign parentSigner binSigner, .ok (.signed report), calls⟩ g'
  | refused {operation : Operation σ} {e : Error} : Step g ⟨operation, .error e, []⟩ g

/-- Performing an operation is a step. -/
theorem step_perform (g : Graph) (operation : Operation σ) (world : σ) :
    g.Step (g.perform operation world).1.1 (g.perform operation world).1.2 := by
  cases operation with
  | file path record =>
    simp only [perform, Update.on_file]
    cases hfile : g.file path record with
    | error e => exact .refused
    | ok answer => exact .filed hfile
  | fileAll targets =>
    simp only [perform, Update.on_fileAll]
    cases hfile : g.fileAll targets with
    | error e => exact .refused
    | ok answer => exact .filedAll hfile
  | sign parentSigner binSigner =>
    -- The pass that records goes as the pass itself, and its calls are those of the signing.
    obtain ⟨calls, hrecorded, hsigning⟩ := g.sign_recorded parentSigner binSigner world []
    obtain ⟨result, world', hpass⟩ : ∃ result world',
        g.sign parentSigner binSigner world = (result, world') := ⟨_, _, rfl⟩
    rw [hpass] at hsigning
    simp only [perform, Update.on_sign, hrecorded, hpass, List.nil_append]
    cases result with
    | error e =>
      cases hsigning
      exact .refused
    | ok answer => exact .signed hsigning

theorem operation_perform (g : Graph) (operation : Operation σ) (world : σ) :
    (g.perform operation world).1.1.operation = operation := by
  cases operation <;> rfl

/-- A refused operation leaves the graph as it was. -/
theorem graph_perform_of_error {g g' : Graph} {operation : Operation σ} {event : Event σ}
    {world : σ} (h : (g.perform operation world).1 = (event, g')) {e : Error}
    (hanswer : event.answer = .error e) : g' = g := by
  have hstep := g.step_perform operation world
  rw [h] at hstep
  cases hstep with
  | refused => rfl
  | _ => cases hanswer

/-- A run begins with its first operation. -/
theorem run_cons (g : Graph) (operation : Operation σ) (rest : List (Operation σ)) (world : σ) :
    g.run (operation :: rest) world =
      let ((event, g'), world') := g.perform operation world
      let ((events, g''), world'') := g'.run rest world'
      ((event :: events, g''), world'') := rfl

/-- Performing operations and then more of them is performing all of them. -/
theorem run_append (g : Graph) (operations later : List (Operation σ)) (world : σ) :
    g.run (operations ++ later) world =
      let ((events, g'), world') := g.run operations world
      let ((events', g''), world'') := g'.run later world'
      ((events ++ events', g''), world'') := by
  induction operations generalizing g world with
  | nil => rfl
  | cons operation rest ih =>
    rw [List.cons_append, run_cons, run_cons]
    simp only [ih]
    rfl

/-- The graph that a run has reached is where the rest of the run begins. -/
theorem exists_run_of_append {g g' g'' : Graph} {operations later : List (Operation σ)}
    {events events' : List (Event σ)} {world : σ} (hrun : (g.run operations world).1 = (events, g'))
    (hlater : (g.run (operations ++ later) world).1 = (events', g'')) :
    ∃ rest world', events' = events ++ rest ∧ (g'.run later world').1 = (rest, g'') := by
  rw [run_append] at hlater
  rcases hfirst : g.run operations world with ⟨first, world'⟩
  rw [hfirst] at hrun hlater
  cases hrun
  rcases hsecond : g'.run later world' with ⟨⟨rest, g₂⟩, world''⟩
  simp only [hsecond, Prod.mk.injEq] at hlater
  obtain ⟨rfl, rfl⟩ := hlater
  exact ⟨rest, world', rfl, by rw [hsecond]⟩

/-- What holds at the start and is kept whenever an operation is performed holds after a run, of its
events and of the graph that it ends with. -/
theorem perform_induction {P : List (Event σ) → Graph → Prop} {g g' : Graph}
    {operations : List (Operation σ)} {events : List (Event σ)} {world : σ}
    (hrun : (g.run operations world).1 = (events, g')) (hstart : P [] g)
    (hperform : ∀ past g₁ operation world, P past g₁ →
      P (past ++ [(g₁.perform operation world).1.1]) (g₁.perform operation world).1.2) :
    P events g' := by
  -- The induction is on the operations still to be performed, behind a past that has been.
  suffices hrest : ∀ past g₁ world, P past g₁ →
      P (past ++ (g₁.run operations world).1.1) (g₁.run operations world).1.2 by
    have hend := hrest [] g world hstart
    rwa [hrun] at hend
  clear hrun hstart
  induction operations with
  | nil =>
    intro past g₁ world hpast
    show P (past ++ []) g₁
    rwa [List.append_nil]
  | cons operation rest ih =>
    intro past g₁ world hpast
    have hnext := hperform past g₁ operation world hpast
    have hend := ih _ _ (g₁.perform operation world).2 hnext
    rw [List.append_assoc, List.singleton_append] at hend
    exact hend

/-- What holds at the start and is kept by every step holds after a run, of its events and of the
graph that it ends with. -/
theorem run_induction {P : List (Event σ) → Graph → Prop} {g g' : Graph}
    {operations : List (Operation σ)} {events : List (Event σ)} {world : σ}
    (hrun : (g.run operations world).1 = (events, g')) (hstart : P [] g)
    (hstep : ∀ past event g₁ g₂, P past g₁ → g₁.Step event g₂ → P (past ++ [event]) g₂) :
    P events g' :=
  perform_induction hrun hstart fun past g₁ operation world hpast =>
    hstep past _ g₁ _ hpast (g₁.step_perform operation world)

/-- The events of a run are those of its operations, in their order. -/
theorem operations_of_run {g g' : Graph} {operations : List (Operation σ)}
    {events : List (Event σ)} {world : σ} (hrun : (g.run operations world).1 = (events, g')) :
    events.map (·.operation) = operations := by
  have hevents : (g.run operations world).1.1.map (·.operation) = operations := by
    clear hrun
    induction operations generalizing g world with
    | nil => rfl
    | cons operation rest ih =>
      exact congrArg₂ List.cons (g.operation_perform operation world) ih
  rwa [hrun] at hevents

end Graph

end BinDelegation
