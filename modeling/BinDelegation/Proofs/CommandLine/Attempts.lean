import BinDelegation.CommandLine.Run
import BinDelegation.Proofs.Checks
import BinDelegation.Proofs.Crew
import BinDelegation.Proofs.FileSystem.Attempts

/-!
# Commands on a file tree

A command that runs on a file tree at some moment may find any seed, and each of its file operations
may fail. What a command does is told step by step: how each of its parts may end, and which of them
only read and so leave the tree as it is.

A task may end with a result or a refusal and leave a tree (`CommandTask.Ends`). For every way to
build a task there is one equivalence: for a bind, a result that is returned, a refusal, a check
without an action, a program on files and a single file operation. A command is taken apart with
these, and no proof about one looks into how tasks are run.

A task that only reads (`OnlyReads`) ends with the tree that it found, whatever it comes to
(`OnlyReads.eq`). That is shown for a task by showing it for its parts; the lemmas have the same
shape as those about ends. Commands turn a refusal into an outcome with a code other than zero, so
success tells that the task has not been refused.
-/

namespace BinDelegation

open FileTree (Attempt Reads)

/-- What may come of an action of a command on a file tree, at one moment. -/
inductive FileTree.WorldAttempt (moment : Timestamp) (t : FileTree) :
    (action : WorldAction) → world.Answer action → FileTree → Prop where
  | file {action : FileAction} {answer : Except FileError action.Result} {t' : FileTree}
      (h : t.Attempt action answer t') : WorldAttempt moment t (.file action) answer t'
  | newSeed (seed : Ed25519.Bytes32) : WorldAttempt moment t .newSeed seed t
  | now : WorldAttempt moment t .now moment t

open FileTree (WorldAttempt)

namespace CommandTask

variable {α β ε : Type} {moment : Timestamp} {t t' : FileTree}

/-- At some moment, a task may end with a result or a refusal and leave a tree. -/
def Ends (task : CommandTask α) (moment : Timestamp) (t : FileTree) (result : Except Refusal α)
    (t' : FileTree) : Prop := Program.Runs (WorldAttempt moment) task.run t result t'

/-! ## How tasks end -/

/-- A task and another with its result end in a refusal of the first, or as the second does behind
the first. -/
theorem ends_bind {task : CommandTask α} {f : α → CommandTask β} {result : Except Refusal β} :
    Ends (task >>= f) moment t result t' ↔
      (∃ refusal, result = .error refusal ∧ task.Ends moment t (.error refusal) t') ∨
        ∃ a t₁, task.Ends moment t (.ok a) t₁ ∧ (f a).Ends moment t₁ result t' :=
  Program.runs_bindExcept

/-- Two tasks in a row end with a result if both do. -/
theorem ends_bind_ok {task : CommandTask α} {f : α → CommandTask β} {b : β} :
    Ends (task >>= f) moment t (.ok b) t' ↔
      ∃ a t₁, task.Ends moment t (.ok a) t₁ ∧ (f a).Ends moment t₁ (.ok b) t' :=
  Program.runs_bind_ok

theorem ends_pure {a : α} {result : Except Refusal α} :
    Ends (pure a) moment t result t' ↔ result = .ok a ∧ t' = t := Program.runs_done

theorem ends_throw {refusal : Refusal} {result : Except Refusal α} :
    Ends (throw refusal) moment t result t' ↔ result = .error refusal ∧ t' = t := Program.runs_done

/-- A step without an action ends as it says, with its error as a refusal. -/
theorem ends_ofExcept {refusal : ε → Refusal} {x : Except ε α} {result : Except Refusal α} :
    (ofExcept refusal x).Ends moment t result t' ↔ result = x.mapError refusal ∧ t' = t := by
  cases x with
  | ok a => exact ends_pure
  | error e => exact ends_throw

/-- A step without an action ends with an answer if it has that answer. -/
theorem ends_ofExcept_ok {refusal : ε → Refusal} {x : Except ε α} {a : α} :
    (ofExcept refusal x).Ends moment t (.ok a) t' ↔ x = .ok a ∧ t' = t := by
  rw [ends_ofExcept, eq_comm, mapError_eq_ok]

/-- A program that cannot be refused ends as it runs. -/
theorem ends_lift {p : Program world α} {result : Except Refusal α} :
    Ends (ExceptT.lift p) moment t result t' ↔
      ∃ a, result = .ok a ∧ Program.Runs (WorldAttempt moment) p t a t' := by
  rw [Ends, ExceptT.run_lift, ← bind_pure_comp, Program.runs_bind]
  constructor
  · rintro ⟨a, t₁, hruns, hpure⟩
    obtain ⟨rfl, rfl⟩ := Program.runs_done.1 hpure
    exact ⟨a, rfl, hruns⟩
  · rintro ⟨a, rfl, hruns⟩
    exact ⟨a, t', hruns, .done⟩

/-- A program on files ends as it runs, each operation as it may go on the tree. -/
theorem ends_onFiles {p : Program files α} {result : Except Refusal α} :
    (onFiles p).Ends moment t result t' ↔ ∃ a, result = .ok a ∧ Program.Runs Attempt p t a t' := by
  have hstep (t : FileTree) (action : FileAction) (answer : Except FileError action.Result)
      (t' : FileTree) : Program.Runs (WorldAttempt moment)
        (Program.perform (I := world) (.file action)) t answer t' ↔ t.Attempt action answer t' := by
    rw [Program.runs_perform (I := world)]
    constructor
    · intro h
      cases h with | file h => exact h
    · exact .file
  rw [onFiles, ends_lift]
  refine exists_congr fun a => and_congr_right fun _ => ?_
  rw [Program.runs_handled]
  simp only [hstep]

/-- A program on files that may fail ends as it runs, with its error as a refusal. -/
theorem ends_onFilesOr {refusal : ε → Refusal} {p : Program files (Except ε α)}
    {result : Except Refusal α} : (onFilesOr refusal p).Ends moment t result t' ↔
      ∃ answer, result = answer.mapError refusal ∧ Program.Runs Attempt p t answer t' := by
  rw [onFilesOr, ends_bind]
  simp only [ends_onFiles, ends_ofExcept]
  constructor
  · rintro (⟨e, -, answer, herror, -⟩ | ⟨answer, t₁, ⟨_, hok, hruns⟩, rfl, rfl⟩)
    · cases herror
    · cases hok
      exact ⟨answer, rfl, hruns⟩
  · rintro ⟨answer, rfl, hruns⟩
    exact .inr ⟨answer, t', ⟨answer, rfl, hruns⟩, rfl, rfl⟩

/-- A program on files that may fail ends with an answer if it runs to that answer. -/
theorem ends_onFilesOr_ok {refusal : ε → Refusal} {p : Program files (Except ε α)} {a : α} :
    (onFilesOr refusal p).Ends moment t (.ok a) t' ↔ Program.Runs Attempt p t (.ok a) t' := by
  rw [ends_onFilesOr]
  constructor
  · rintro ⟨answer, hok, hruns⟩
    rwa [mapError_eq_ok.1 hok.symm] at hruns
  · exact fun hruns => ⟨.ok a, rfl, hruns⟩

/-- A file operation ends as it may go on the tree, with its error as a refusal. -/
theorem ends_operate {refusal : FileError → Refusal} {action : FileAction}
    {result : Except Refusal action.Result} : (operate refusal action).Ends moment t result t' ↔
      ∃ answer, result = answer.mapError refusal ∧ t.Attempt action answer t' := by
  rw [operate, ends_onFilesOr]
  simp only [Program.runs_perform (I := files)]

/-- A file operation that succeeds has been done. -/
theorem ends_operate_ok {refusal : FileError → Refusal} {action : FileAction}
    {answer : action.Result} : (operate refusal action).Ends moment t (.ok answer) t' ↔
      FileTree.perform action t = (.ok answer, t') := by
  rw [operate, ends_onFilesOr_ok, Program.runs_perform (I := files)]
  constructor
  · exact Attempt.of_ok
  · intro hdone
    have hperformed := Attempt.performed (t := t) action
    rwa [hdone] at hperformed

/-- Asking for a seed or the time changes no file, nor does an operation that only tells. -/
inductive Reading : WorldAction → Prop where
  | file {action : FileAction} (h : Reads action) : Reading (.file action)
  | newSeed : Reading .newSeed
  | now : Reading .now

/-- All that a task does is to read. -/
def OnlyReads (task : CommandTask α) : Prop := Program.Asks (I := world) Reading task.run

/-- A task that only reads leaves the tree as it is. -/
theorem OnlyReads.eq {task : CommandTask α} (h : task.OnlyReads) {result : Except Refusal α}
    (hends : task.Ends moment t result t') : t' = t := by
  refine Program.Asks.invariant (P := fun u => u = t) h ?_ hends rfl
  rintro action answer t₁ t₂ haction rfl hstep
  cases haction with
  | file hreads => cases hstep with | file hattempt => exact hreads.eq_of_attempt hattempt
  | newSeed => cases hstep; rfl
  | now => cases hstep; rfl

/-- What comes behind a task that only reads finds the same tree. -/
theorem OnlyReads.ends_bind {task : CommandTask α} {f : α → CommandTask β} (h : task.OnlyReads)
    {result : Except Refusal β} (hends : Ends (task >>= f) moment t result t') :
    (∃ refusal, result = .error refusal) ∧ t' = t ∨ ∃ a, (f a).Ends moment t result t' := by
  rcases CommandTask.ends_bind.1 hends with ⟨refusal, rfl, htask⟩ | ⟨a, t₁, htask, hrest⟩
  · exact .inl ⟨⟨refusal, rfl⟩, h.eq htask⟩
  · cases h.eq htask
    exact .inr ⟨a, hrest⟩

/-- Two tasks in a row only read if both do. -/
theorem OnlyReads.bind {task : CommandTask α} {f : α → CommandTask β} (h : task.OnlyReads)
    (hf : ∀ a, (f a).OnlyReads) : OnlyReads (task >>= f) := Program.Asks.bindExcept h hf

theorem onlyReads_pure (a : α) : OnlyReads (pure a) := .done

theorem onlyReads_throw (refusal : Refusal) : OnlyReads (throw refusal : CommandTask α) := .done

/-- A step without an action reads nothing. -/
theorem onlyReads_ofExcept (refusal : ε → Refusal) (x : Except ε α) :
    (ofExcept refusal x).OnlyReads := by
  cases x with
  | ok a => exact onlyReads_pure a
  | error e => exact onlyReads_throw _

/-- A program that asks for nothing but to read only reads. -/
theorem onlyReads_lift {p : Program world α} (h : p.Asks Reading) :
    OnlyReads (ExceptT.lift p) := by
  rw [OnlyReads, ExceptT.run_lift, ← bind_pure_comp]
  exact h.bind fun _ => .done

/-- A program on files that asks for nothing but to read only reads. -/
theorem onlyReads_onFiles {p : Program files α} (h : p.Asks Reads) : (onFiles p).OnlyReads :=
  onlyReads_lift (h.run fun _ haction => Program.asks_perform (I := world) (.file haction))

/-- A file operation that only tells something only reads. -/
theorem onlyReads_operate (refusal : FileError → Refusal) {action : FileAction}
    (h : Reads action) : (operate refusal action).OnlyReads :=
  (onlyReads_onFiles (Program.asks_perform (I := files) h)).bind fun answer =>
    onlyReads_ofExcept refusal answer

/-- Drawing a seed changes no file. -/
theorem onlyReads_newKeyPair : newKeyPair.OnlyReads :=
  OnlyReads.bind (onlyReads_lift (Program.asks_perform (I := world) .newSeed))
    fun seed => onlyReads_pure (KeyPair.mk seed)

end CommandTask

/-! ## How commands end -/

/-- No refusal ends with the code of success. -/
theorem Refusal.exitCode_outcome_ne (refusal : Refusal) : refusal.outcome.exitCode ≠ 0 := by
  cases refusal with
  | told message cause => simp [Refusal.outcome]
  | crashed => simp [Refusal.outcome]

/-- A command ends as its task does, be it with a refusal. -/
theorem Command.exists_of_runs {moment : Timestamp} {t t' : FileTree} {c : Command} {asJson : Bool}
    {outcome : Outcome} (h : Program.Runs (WorldAttempt moment) (c.outcome asJson) t outcome t') :
    (c.task asJson).Ends moment t (.ok outcome) t' ∨
      ∃ refusal, outcome = refusal.outcome ∧ (c.task asJson).Ends moment t (.error refusal) t' := by
  obtain ⟨result, t₁, htask, hrest⟩ := Program.runs_bind.1 h
  cases result with
  | ok told =>
    obtain ⟨rfl, rfl⟩ := Program.runs_done.1 hrest
    exact .inl htask
  | error refusal =>
    obtain ⟨rfl, rfl⟩ := Program.runs_done.1 hrest
    exact .inr ⟨refusal, rfl, htask⟩

end BinDelegation
