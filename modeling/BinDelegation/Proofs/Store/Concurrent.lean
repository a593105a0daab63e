import BinDelegation.Proofs.Store.Mirror
import BinDelegation.Proofs.Store.Writers

/-!
# Publishing at once

A store that keeps roles apart answers a call by the role, the bytes and the earlier calls with the
role. The documents of different roles can be published into it in any order of calls: seen from one
role, all orders are the same. A directory keeps roles apart even within a call, so there it is any
order of file operations.

A crew is a list of programs and a world; turns say which of them makes its next step. `Apart` from
`Crew` is what has to be shown of a world: each program does only what its owner may do, an owner is
answered by what it sees, and its steps change nothing that others see. Then any order of turns
gives the results of working one after the other, and every owner sees the same at the end.

For an arbitrary store the world is the history of its calls and an owner sees those with its role
(`KeepsApart.apart`). For a directory it is the file tree and an owner sees the places of its role
(`apart_writers` in `Writers`).
-/

namespace BinDelegation

section

variable {σ γ : Type} {answer : StoreCall → StateM σ (Except Error Unit)} {s₀ : σ}
  {docs : List SignedDocument} {policy : RetryPolicy} {turns : List Nat}

/-! ## Stores that keep roles apart -/

/-- The calls with a role, in their order. -/
def callsOf (role : String) (calls : List StoreCall) : List StoreCall :=
  calls.filter (·.role = role)

/-- A store after some calls. -/
def afterCalls (answer : StoreCall → StateM σ (Except Error Unit)) (s₀ : σ)
    (calls : List StoreCall) : σ :=
  calls.foldl (fun s call => (answer call s).2) s₀

/-- What is read of a store under a role depends on the earlier calls with the role. -/
def DependsOnRole (answer : StoreCall → StateM σ (Except Error Unit)) (s₀ : σ)
    (read : String → σ → γ) : Prop :=
  ∀ role calls calls', callsOf role calls = callsOf role calls' →
    read role (afterCalls answer s₀ calls) = read role (afterCalls answer s₀ calls')

/-- A store keeps roles apart if its answer to a call depends on the role, the bytes and the earlier
calls with the role. -/
def KeepsApart (answer : StoreCall → StateM σ (Except Error Unit)) (s₀ : σ) : Prop :=
  DependsOnRole answer s₀ fun role s bytes => (answer ⟨role, bytes⟩ s).1

/-- The answers of a store by the calls that it has had. -/
def history (answer : StoreCall → StateM σ (Except Error Unit)) (s₀ : σ) (call : StoreCall) :
    StateM (List StoreCall) (Except Error Unit) := fun calls =>
  ((answer call (afterCalls answer s₀ calls)).1, calls ++ [call])

/-- The answer and the state of a store are told by the calls that it has had. -/
theorem answer_afterCalls (answer : StoreCall → StateM σ (Except Error Unit)) (s₀ : σ)
    (call : StoreCall) (calls : List StoreCall) : answer call (afterCalls answer s₀ calls)
      = ((history answer s₀ call calls).1,
        afterCalls answer s₀ (history answer s₀ call calls).2) := by
  rw [history, afterCalls, afterCalls, List.foldl_append]
  rfl

/-- A program comes to the same with a store as with the history of its calls. -/
theorem run_afterCalls {α : Type} (p : Program storing α) (calls : List StoreCall) :
    p.run answer (afterCalls answer s₀ calls)
      = ((p.run (history answer s₀) calls).1,
        afterCalls answer s₀ (p.run (history answer s₀) calls).2) := by
  induction p generalizing calls with
  | done a => rfl
  | ask call next ih =>
    rw [Program.run_ask_state, answer_afterCalls answer s₀ call calls]
    exact ih _ _

/-- Seen by the calls that it has had, a store that keeps roles apart is one in which nobody gets in
the way of others. -/
theorem KeepsApart.apart (h : KeepsApart answer s₀) :
    Apart (I := storing) (history answer s₀) (fun role call => call.role = role) (fun _ => True)
      callsOf := by
  constructor
  · intros
    trivial
  · rintro role call calls calls' - - rfl hcalls
    refine ⟨congrFun (h call.role calls calls' hcalls) call.bytes, ?_⟩
    show callsOf call.role (calls ++ [call]) = callsOf call.role (calls' ++ [call])
    rw [callsOf, List.filter_append, callsOf, List.filter_append]
    exact congrArg (· ++ [call].filter (·.role = call.role)) hcalls
  · rintro role other call calls - rfl hother
    show callsOf other (calls ++ [call]) = callsOf other calls
    have hnone : [call].filter (·.role = other) = [] := by simp [Ne.symm hother]
    rw [callsOf, List.filter_append, hnone, List.append_nil, callsOf]

/-! ## Publishing -/

/-- All that is asked to store a document are calls with its role. -/
theorem SignedDocument.asks_store (d : SignedDocument) (policy : RetryPolicy) :
    (d.store policy).Asks fun call : StoreCall => call.role = d.role := by
  have hattempt (more made : Nat) :
      (d.attempt more made).Asks fun call : StoreCall => call.role = d.role := by
    induction more generalizing made with
    | zero =>
      refine .ask rfl fun answer => ?_
      cases answer with
      | ok _ => exact .done
      | error e => exact .done
    | succ more ih =>
      refine .ask rfl fun answer => ?_
      cases answer with
      | ok _ => exact .done
      | error e => exact ih (made + 1)
  exact hattempt _ 0

/-- Publishing one document after the other is doing the work of the publishers in order. -/
theorem publishAll_eq (docs : List SignedDocument) (policy : RetryPolicy) :
    publishAll docs policy = do return ⟨← Program.inOrder (publishers docs policy)⟩ := by
  rw [publishAll, publishers, Program.inOrder_map]

/-- Documents of different roles come to the same in every order of calls, in a store that keeps
roles apart. -/
theorem KeepsApart.report_eq (h : KeepsApart answer s₀) (hroles : (docs.map (·.role)).Nodup)
    (hended : ((Crew.start (publishers docs policy) s₀).run answer turns).active = []) :
    ((Crew.start (publishers docs policy) s₀).run answer turns).report
        = ((publishAll docs policy).run answer s₀).1 ∧
      ∀ {γ : Type} (content : String → σ → γ), DependsOnRole answer s₀ content → ∀ role,
        content role ((Crew.start (publishers docs policy) s₀).run answer turns).world
          = content role ((publishAll docs policy).run answer s₀).2 := by
  -- The store is what the history of its calls makes of it, whatever the order of turns.
  have hmirrored : (Crew.start (publishers docs policy) s₀).run answer turns
      = ((Crew.start (publishers docs policy) []).run (history answer s₀) turns).mirrored
        (afterCalls answer s₀) :=
    Crew.run_mirrored (answer_afterCalls answer s₀)
      (Crew.start (publishers docs policy) []) turns
  have hinOrder : (publishAll docs policy).run answer s₀
      = (⟨((Program.inOrder (publishers docs policy)).run (history answer s₀) []).1⟩,
        afterCalls answer s₀
          ((Program.inOrder (publishers docs policy)).run (history answer s₀) []).2) := by
    refine (run_afterCalls (publishAll docs policy) []).trans ?_
    rw [publishAll_eq, Program.run_bind_state]
    rfl
  rw [hmirrored] at hended ⊢
  rw [hinOrder]
  obtain ⟨hordered, hcalls⟩ := h.apart.run_eq hroles (fun d _ => d.asks_store policy) trivial hended
  exact ⟨congrArg PublishReport.mk hordered, fun content hcontent role =>
    hcontent role _ _ (hcalls role)⟩

/-! ## Directories -/

namespace DirectoryStore

variable {s : DirectoryStore} {home : Location} {base t : FileTree}

/-- The publishers of documents into a directory, with every call done by file operations. -/
def publishersInto (s : DirectoryStore) (docs : List SignedDocument) (policy : RetryPolicy) :
    List (Program files PublishOutcome) :=
  (publishers docs policy).map fun p => p.run s.answer

/-- The publisher of a document into a directory stores it by file operations. -/
theorem publishersInto_eq (s : DirectoryStore) (docs : List SignedDocument) (policy : RetryPolicy) :
    s.publishersInto docs policy = docs.map fun d => (d.store policy).run s.answer := by
  rw [publishersInto, publishers, List.map_map]
  rfl

/-- Different roles are different owners. -/
theorem nodup_owners (hroles : (docs.map (·.role)).Nodup) :
    (docs.map fun d => some d.role).Nodup := by
  have hsome := List.Nodup.map (Option.some_injective String) hroles
  rwa [List.map_map] at hsome

/-- Documents of different roles come to the same in every order of file operations. -/
theorem Open.report_eq (h : s.Open home (docs.map (·.role)) base t)
    (hroles : (docs.map (·.role)).Nodup)
    (hended : ((Crew.start (s.publishersInto docs policy) t).run FileTree.perform turns).active
      = []) :
    ((Crew.start (s.publishersInto docs policy) t).run FileTree.perform turns).report
        = (((publishAll docs policy).run s.answer).run FileTree.perform t).1 ∧
      ((Crew.start (s.publishersInto docs policy) t).run FileTree.perform
          turns).world.workingDirectory
        = (((publishAll docs policy).run s.answer).run FileTree.perform t).2.workingDirectory ∧
      ∀ place, ((Crew.start (s.publishersInto docs policy) t).run FileTree.perform
          turns).world.node? place
        = (((publishAll docs policy).run s.answer).run FileTree.perform t).2.node? place := by
  have hasks (d : SignedDocument) (hd : d ∈ docs) : Program.Asks (I := files)
      (s.Does (docs.map (·.role)) (some d.role)) ((d.store policy).run s.answer) := by
    refine (d.asks_store policy).run fun call hcall => ?_
    refine (s.asks_answer call).imp fun action haction => ?_
    exact ⟨List.mem_map_of_mem hd, hcall ▸ haction⟩
  have hinOrder : ((publishAll docs policy).run s.answer).run FileTree.perform t
      = (⟨((Program.inOrder (s.publishersInto docs policy)).run FileTree.perform t).1⟩,
        ((Program.inOrder (s.publishersInto docs policy)).run FileTree.perform t).2) := by
    rw [publishAll_eq, Program.run_bind, Program.run_bind_state, Program.run_inOrder]
    rfl
  -- Publishing one document after the other is a way of doing the work in order, so the lemma on
  -- crews compares with just that.
  rw [publishersInto_eq] at hended
  rw [hinOrder, publishersInto_eq]
  obtain ⟨hordered, hviews⟩ :=
    (apart_writers s home (docs.map (·.role)) base).run_eq (nodup_owners hroles) hasks h hended
  refine ⟨congrArg PublishReport.mk hordered, (view_eq_iff.1 (hviews none)).1, fun place => ?_⟩
  -- Every place is one of a role, or of no role.
  by_cases hplace : ∃ role ∈ docs.map (·.role), place ∈ placesOf home role
  · obtain ⟨role, -, hplace⟩ := hplace
    exact (view_eq_iff.1 (hviews (some role))).2 place hplace
  · exact (view_eq_iff.1 (hviews none)).2 place fun role hrole hmem => hplace ⟨role, hrole, hmem⟩

end DirectoryStore

end

/-! ## A store in memory -/

namespace MemoryStore

variable {s s' : MemoryStore} {role : String}

/-- A store in memory takes a document under a role name and refuses any other. -/
theorem answer_eq (call : StoreCall) (s : MemoryStore) : answer call s
    = if RoleName.isValid call.role = true then
        (.ok (), ⟨s.documents.insert call.role call.bytes⟩)
      else (.error ((StoreError.invalidRole call.role).asError call.role), s) := by
  rw [answer, store, requireRole]
  by_cases hvalid : RoleName.isValid call.role = true
  · rw [if_pos hvalid, if_pos hvalid]
    rfl
  · rw [if_neg hvalid, if_neg hvalid]
    rfl

/-- What a call makes of a role depends on what was there of the role. -/
theorem get?_answer (h : s.get? role = s'.get? role) (call : StoreCall) :
    (answer call s).2.get? role = (answer call s').2.get? role := by
  rw [answer_eq, answer_eq]
  split
  · rw [get?, get?, Dict.get?_insert, Dict.get?_insert]
    exact congrArg (fun old => if role = call.role then some call.bytes else old) h
  · exact h

/-- A call with another role changes nothing. -/
theorem get?_answer_of_ne {call : StoreCall} (h : role ≠ call.role) :
    (answer call s).2.get? role = s.get? role := by
  rw [answer_eq]
  split
  · rw [get?, Dict.get?_insert, if_neg h]
    rfl
  · rfl

/-- What a store in memory has of a role is what the calls with the role make of it. -/
theorem get?_afterCalls (h : s.get? role = s'.get? role) (calls : List StoreCall) :
    (afterCalls answer s calls).get? role
      = (afterCalls answer s' (callsOf role calls)).get? role := by
  induction calls generalizing s s' with
  | nil => exact h
  | cons call rest ih =>
    by_cases hrole : call.role = role
    · rw [callsOf, List.filter_cons, if_pos (decide_eq_true hrole)]
      exact ih (get?_answer h call)
    · rw [callsOf, List.filter_cons, if_neg (by simpa using hrole)]
      exact ih ((get?_answer_of_ne (Ne.symm hrole)).trans h)

/-- What is in memory of a role depends on the calls with the role. -/
theorem dependsOnRole_get? (s₀ : MemoryStore) :
    DependsOnRole answer s₀ fun role s => s.get? role := by
  intro role calls calls' hcalls
  simp only
  rw [get?_afterCalls rfl, hcalls, ← get?_afterCalls rfl]

/-- A store in memory keeps roles apart, since it always answers a call in the same way. -/
theorem keepsApart (s₀ : MemoryStore) : KeepsApart answer s₀ := by
  intro role calls calls' _
  refine funext fun bytes => ?_
  simp only [answer_eq]
  split
  · rfl
  · rfl

end MemoryStore

/-- Whether every document was stored is told by the results in whatever order they came in. -/
theorem Crew.isComplete_report {I : Interface} {ω : Type} (c : Crew I PublishOutcome ω) :
    c.report.isComplete = c.results.all (·.2.result.isOk) := by
  show ((c.results.mergeSort _).map (·.2)).all (·.result.isOk) = _
  rw [List.all_map]
  exact (List.mergeSort_perm c.results _).all_eq

/-! ## Both kinds of stores -/

/-- Documents of different roles that are published at once come to the same as one after the other.
In a store that keeps roles apart, whatever the order in which the publishers make their calls and
hand in their results, the report has the same outcomes in the order of the documents, and
everything is the same that depends on the calls with one role. In a directory, the same holds for
every order of the file operations themselves: the report is the same, and so is what stands at
every place. That is so because the files and the drafts of two roles have four names; only a
symbolic link under the name of a draft could lead from the document of one role to that of another,
and one under the name of a document must not be needed to get to the directory. However far the
publishers have come, they can come to their end. -/
theorem alike_at_once (docs : List SignedDocument) (policy : RetryPolicy)
    (hroles : (docs.map (·.role)).Nodup) :
    (∀ {σ : Type} (answer : StoreCall → StateM σ (Except Error Unit)) (s₀ : σ),
      KeepsApart answer s₀ → ∀ turns c,
        (Crew.start (publishers docs policy) s₀).run answer turns = c →
        (c.active = [] → ∃ report s, (publishAll docs policy).run answer s₀ = (report, s) ∧
          c.report = report ∧ ∀ {γ : Type} (content : String → σ → γ),
            DependsOnRole answer s₀ content → ∀ role, content role c.world = content role s) ∧
        ∃ more, (c.run answer more).active = []) ∧
    (∀ (s : DirectoryStore) (home : Location) (t : FileTree),
      (DirectoryStore.withoutLinks home (docs.map (·.role)) t).HasDirectory s.root home →
      (∀ d ∈ docs, ∀ path,
        t.node? (home.entry (DirectoryStore.draftName d.role)) ≠ some (.link path)) → ∀ turns c,
        (Crew.start (s.publishersInto docs policy) t).run FileTree.perform turns = c →
        (c.active = [] → ∃ report t',
          ((publishAll docs policy).run s.answer).run FileTree.perform t = (report, t') ∧
          c.report = report ∧ c.world.workingDirectory = t'.workingDirectory ∧
          ∀ place, c.world.node? place = t'.node? place) ∧
        ∃ more, (c.run FileTree.perform more).active = []) ∧
    ∀ role role', role ≠ role' →
      [DirectoryStore.fileName role, DirectoryStore.draftName role,
        DirectoryStore.fileName role', DirectoryStore.draftName role'].Nodup := by
  refine ⟨?_, ?_, fun role role' => DirectoryStore.nodup_names⟩
  -- Two worlds, and one lemma on crews for both: the history of calls, and the file tree.
  · rintro σ answer s₀ happart turns c rfl
    refine ⟨fun hended => ?_, Crew.exists_ended _ _⟩
    obtain ⟨hreport, hcontent⟩ := happart.report_eq hroles hended
    exact ⟨_, _, rfl, hreport, hcontent⟩
  · rintro s home t hdirectory hdraft turns c rfl
    refine ⟨fun hended => ?_, Crew.exists_ended _ _⟩
    have hopen := DirectoryStore.Open.of_withoutLinks hdirectory (List.forall_mem_map.2 hdraft)
    obtain ⟨hreport, hworking, hnodes⟩ := hopen.report_eq hroles hended
    exact ⟨_, _, rfl, hreport, hworking, hnodes⟩

namespace Sample

/-- Documents of three roles. -/
def documents : List SignedDocument :=
  [⟨"bins", "1".toUTF8⟩, ⟨"0-7", "2".toUTF8⟩, ⟨"8-f", "3".toUTF8⟩]

end Sample

/-- Three documents whose publishers take turns in no particular order, in memory by whole calls and
in an empty directory by file operations. -/
theorem alike_at_once_sample : (Sample.documents.map (·.role)).Nodup ∧
    (∃ c s, (Crew.start (publishers Sample.documents .noRetry) {}).run MemoryStore.answer
        [2, 0, 2, 1, 1, 0] = c ∧ c.results.map (·.1) = [2, 1, 0] ∧
      (publishAll Sample.documents .noRetry).run MemoryStore.answer {} = (c.report, s) ∧
      ∀ role, c.world.get? role = s.get? role) ∧
    ∃ c t', (Crew.start (DirectoryStore.publishersInto ⟨"meta"⟩ Sample.documents .noRetry)
        DirectoryStore.Sample.emptyTree).run FileTree.perform
          [2, 0, 1, 2, 1, 0, 0, 2, 1, 1, 0, 0] = c ∧
      ((publishAll Sample.documents .noRetry).run (DirectoryStore.answer ⟨"meta"⟩)).run
        FileTree.perform DirectoryStore.Sample.emptyTree = (c.report, t') ∧
      ∀ place, c.world.node? place = t'.node? place := by
  have hroles : (Sample.documents.map (·.role)).Nodup := by decide
  obtain ⟨hstore, hdirectory, -⟩ := alike_at_once Sample.documents .noRetry hroles
  refine ⟨hroles, ?_, ?_⟩
  · obtain ⟨hended, -⟩ := hstore MemoryStore.answer {} (MemoryStore.keepsApart {})
      [2, 0, 2, 1, 1, 0] _ rfl
    obtain ⟨report, s, hrun, hreport, hcontent⟩ := hended (List.isEmpty_iff.1 (by decide +kernel))
    exact ⟨_, s, rfl, by decide +kernel, hreport ▸ hrun,
      hcontent _ (MemoryStore.dependsOnRole_get? {})⟩
  · have hdraft : ∀ d ∈ Sample.documents, ∀ path,
        DirectoryStore.Sample.emptyTree.node?
          (DirectoryStore.Sample.place.entry (DirectoryStore.draftName d.role))
            ≠ some (.link path) := by
      intro d _ path
      have hne : DirectoryStore.Sample.place ≠ [] := List.cons_ne_nil _ _
      rw [DirectoryStore.Sample.emptyTree, FileTree.node?_put hne]
      split
      · simp
      · exact fun hnode => by cases hnode
    obtain ⟨hended, -⟩ := hdirectory ⟨"meta"⟩ DirectoryStore.Sample.place
      DirectoryStore.Sample.emptyTree ⟨by decide +kernel, .inr (by decide +kernel)⟩ hdraft
      [2, 0, 1, 2, 1, 0, 0, 2, 1, 1, 0, 0] _ rfl
    obtain ⟨report, t', hrun, hreport, -, hnodes⟩ :=
      hended (List.isEmpty_iff.1 (by decide +kernel))
    exact ⟨_, t', rfl, hreport ▸ hrun, hnodes⟩

namespace Sample

/-- Documents of two roles. -/
def pair : List SignedDocument := [⟨"a", "[]".toUTF8⟩, ⟨"b", "{}".toUTF8⟩]

/-- The second of two publishers does all its work before the first does its own. -/
def secondFirst : List Nat := [1, 1, 1, 1, 0, 0, 0, 0]

/-- A directory with a symbolic link from the draft of one role to the file of another. -/
def linked : FileTree :=
  (FileTree.put {} DirectoryStore.Sample.place .directory).put
    (DirectoryStore.Sample.place.entry (DirectoryStore.draftName "a"))
    (.link (Path.bytes (DirectoryStore.fileName "b")))

/-- A directory with a symbolic link to itself under the name of a file. -/
def looped : FileTree :=
  (FileTree.put {} DirectoryStore.Sample.place .directory).put
    (DirectoryStore.Sample.place.entry (DirectoryStore.fileName "a")) (.link (Path.bytes "."))

end Sample

/-- Symbolic links bring the documents of two roles together. One from the draft of the first to the
file of the second leaves there what was published last. One on the way to the directory, under the
name of the first, keeps the second from being published once the first has taken its place. -/
theorem exists_entangled : (Sample.pair.map (·.role)).Nodup ∧
    (∃ c report t', (Crew.start (DirectoryStore.publishersInto ⟨"meta"⟩ Sample.pair .noRetry)
        Sample.linked).run FileTree.perform Sample.secondFirst = c ∧ c.active = [] ∧
      ((publishAll Sample.pair .noRetry).run (DirectoryStore.answer ⟨"meta"⟩)).run
        FileTree.perform Sample.linked = (report, t') ∧
      c.world.node? (DirectoryStore.Sample.place.entry (DirectoryStore.fileName "b"))
        = some (.file "[]".toUTF8) ∧
      t'.node? (DirectoryStore.Sample.place.entry (DirectoryStore.fileName "b"))
        = some (.file "{}".toUTF8)) ∧
    ∃ c report t', (Crew.start (DirectoryStore.publishersInto ⟨"meta/a.json"⟩ Sample.pair .noRetry)
        Sample.looped).run FileTree.perform Sample.secondFirst = c ∧ c.active = [] ∧
      ((publishAll Sample.pair .noRetry).run (DirectoryStore.answer ⟨"meta/a.json"⟩)).run
        FileTree.perform Sample.looped = (report, t') ∧
      c.report.isComplete = true ∧ report.isComplete = false := by
  refine ⟨by decide,
    ⟨_, _, _, rfl, List.isEmpty_iff.1 (by decide +kernel), rfl, by decide +kernel,
      by decide +kernel⟩,
    ⟨_, _, _, rfl, List.isEmpty_iff.1 (by decide +kernel), rfl, ?_, by decide +kernel⟩⟩
  rw [Crew.isComplete_report]
  decide +kernel

end BinDelegation
