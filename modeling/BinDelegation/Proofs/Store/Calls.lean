import BinDelegation.Proofs.Checks
import BinDelegation.Proofs.Program
import BinDelegation.Store.Publishing

/-!
# The calls of publishing

Publishing is an account of the calls that it makes: `SignedDocument.Accounted` says which calls a
document costs and what its outcome tells of them. A store may answer every call as it likes, so the
account is one of the answers that were given.

A store is any function from a call and its own state to an answer and a new state. To speak of the
calls that were made, `noted` is put around it; that changes nothing (`run_noted`), and every
statement about the log is one about publishing with the store itself.

One document is a recursion on the attempts that are left (`run_attempt`): errors, and a last answer
that is a success or the last one allowed. `accounted_exchanges` turns that shape into the account.
All documents are an induction on the list (`run_mapM_store`), since the attempts at a document are
over before the next one begins, and the log is the concatenation of the accounts.
-/

namespace BinDelegation

/-! ## Stores that note down their calls -/

/-- A call of a store and its answer. -/
structure StoreExchange where
  call : StoreCall
  answer : Except Error Unit

variable {σ : Type} (answer : StoreCall → StateM σ (Except Error Unit))

/-- The same store, with every call noted down behind the calls before it. -/
def noted (call : StoreCall) : StateM (σ × List StoreExchange) (Except Error Unit) := fun state =>
  ((answer call state.1).1,
    ((answer call state.1).2, state.2 ++ [⟨call, (answer call state.1).1⟩]))

/-- Noting down calls changes nothing else. -/
theorem run_noted {α : Type} (p : Program storing α) (w : σ) (log : List StoreExchange) :
    (p.run (noted answer) (w, log)).1 = (p.run answer w).1 ∧
      (p.run (noted answer) (w, log)).2.1 = (p.run answer w).2 := by
  induction p generalizing w log with
  | done a => exact ⟨rfl, rfl⟩
  | ask call next ih => exact ih _ _ _

/-! ## Documents -/

namespace SignedDocument

variable (d : SignedDocument)

/-- The call for a document. -/
def call : StoreCall := ⟨d.role, d.json⟩

/-- What an outcome tells of an error that the store gave: an error of storing as it is, and any
other one as an error of storing the document. -/
inductive Tells : (given told : Error) → Prop where
  | persistence (role reason : String) :
      Tells (.persistence role reason) (.persistence role reason)
  | wrapped {given : Error} (h : ∀ role reason, given ≠ .persistence role reason) :
      Tells given (.persistence d.role given.message)

/-- An outcome tells the error that was given, as it is or wrapped. -/
theorem tells_storeError (given : Error) : d.Tells given (d.storeError given) := by
  cases given with
  | persistence role reason => exact .persistence role reason
  | _ => exact .wrapped fun _ _ h => by cases h

/-- The account of one document: its calls with their answers, and its outcome. -/
structure Accounted (policy : RetryPolicy) (calls : List StoreExchange) (o : PublishOutcome) :
    Prop where
  role : o.role = d.role
  /-- Every call is one for this document. -/
  own : ∀ exchange ∈ calls, exchange.call = d.call
  attempts : o.attempts = calls.length
  tried : 1 ≤ o.attempts
  limited : o.attempts ≤ max 1 policy.maxAttempts.toNat
  /-- Only a failure is followed by another call. -/
  retried : ∀ exchange ∈ calls.dropLast, ∃ e, exchange.answer = .error e
  stored : o.result = .ok () ↔ ∃ last, calls.getLast? = some last ∧ last.answer = .ok ()
  /-- A document is given up when its attempts are used up, with the error of the last one. -/
  failed : ∀ told, o.result = .error told → o.attempts = max 1 policy.maxAttempts.toNat ∧
    (∀ exchange ∈ calls, ∃ e, exchange.answer = .error e) ∧
    ∃ last given, calls.getLast? = some last ∧ last.answer = .error given ∧ d.Tells given told

/-- The calls for a document with their answers: some errors, and a last answer. -/
def exchanges (errors : List Error) (last : Except Error Unit) : List StoreExchange :=
  (errors.map Except.error ++ [last]).map fun reply => ⟨d.call, reply⟩

section

variable {d} {errors : List Error} {last : Except Error Unit} {exchange : StoreExchange}

theorem call_of_mem_exchanges (h : exchange ∈ d.exchanges errors last) :
    exchange.call = d.call := by
  obtain ⟨reply, -, rfl⟩ := List.mem_map.1 h
  rfl

theorem length_exchanges : (d.exchanges errors last).length = errors.length + 1 := by
  rw [exchanges, List.length_map, List.length_append, List.length_map, List.length_singleton]

theorem getLast?_exchanges : (d.exchanges errors last).getLast? = some ⟨d.call, last⟩ := by
  rw [exchanges, List.map_append, List.map_singleton, List.getLast?_concat]

/-- All answers but the last one are errors. -/
theorem exists_error_of_mem_dropLast (h : exchange ∈ (d.exchanges errors last).dropLast) :
    ∃ e, exchange.answer = .error e := by
  rw [exchanges, List.map_append, List.map_singleton, List.dropLast_concat, List.map_map,
    List.mem_map] at h
  obtain ⟨e, -, rfl⟩ := h
  exact ⟨e, rfl⟩

end

/-- The attempts at a document: some that fail, and a last one. It is the last that is allowed
unless it succeeds. -/
theorem run_attempt (more made : Nat) (w : σ) (log : List StoreExchange) :
    ∃ (errors : List Error) (last : Except Error Unit) (w' : σ), errors.length ≤ more ∧
      (last = .ok () ∨ errors.length = more) ∧
      (d.attempt more made).run (noted answer) (w, log)
        = (⟨d.role, made + errors.length + 1, last.mapError d.storeError⟩,
          (w', log ++ d.exchanges errors last)) := by
  -- Each further attempt is one error more in front of those of the rest.
  induction more generalizing made w log with
  | zero =>
    refine ⟨[], (answer d.call w).1, (answer d.call w).2, Nat.le_refl 0, .inr rfl, ?_⟩
    rw [attempt, Program.run_ask_state]
    simp only [noted, call]
    cases (answer ⟨d.role, d.json⟩ w).1 with
    | ok _ => rfl
    | error e => rfl
  | succ more ih =>
    rw [attempt, Program.run_ask_state]
    simp only [noted]
    cases hanswer : (answer ⟨d.role, d.json⟩ w).1 with
    | ok _ =>
      exact ⟨[], .ok (), (answer ⟨d.role, d.json⟩ w).2, Nat.zero_le _, .inl rfl, rfl⟩
    | error e =>
      obtain ⟨errors, last, w', hle, hlast, hrun⟩ := ih (made + 1) (answer ⟨d.role, d.json⟩ w).2
        (log ++ [⟨d.call, .error e⟩])
      refine ⟨e :: errors, last, w', Nat.succ_le_succ hle, hlast.imp_right (congrArg (· + 1)), ?_⟩
      refine hrun.trans ?_
      rw [List.append_assoc, List.length_cons]
      simp only [Nat.add_right_comm made 1, Nat.add_assoc]
      rfl

/-- Attempts that end with the last one allowed, or with a success, account for a document. -/
theorem accounted_exchanges {policy : RetryPolicy} {errors : List Error}
    {last : Except Error Unit} (hle : errors.length + 1 ≤ max 1 policy.maxAttempts.toNat)
    (hlast : last = .ok () ∨ errors.length + 1 = max 1 policy.maxAttempts.toNat) :
    d.Accounted policy (d.exchanges errors last)
      ⟨d.role, errors.length + 1, last.mapError d.storeError⟩ where
  role := rfl
  own _ := call_of_mem_exchanges
  attempts := length_exchanges.symm
  tried := Nat.le_add_left 1 _
  limited := hle
  retried _ := exists_error_of_mem_dropLast
  stored := by
    rw [getLast?_exchanges]
    cases last with
    | ok _ => exact iff_of_true rfl ⟨_, rfl, rfl⟩
    | error e =>
      refine iff_of_false (fun h => by cases h) ?_
      rintro ⟨exchange, hexchange, hanswer⟩
      cases hexchange
      cases hanswer
  -- A document is given up only when all attempts that are allowed were made.
  failed := by
    intro told htold
    cases last with
    | ok _ => cases htold
    | error e =>
      cases htold
      refine ⟨hlast.resolve_left (fun h => by cases h), fun exchange h => ?_, _, e,
        getLast?_exchanges, rfl, d.tells_storeError e⟩
      rw [exchanges] at h
      obtain ⟨reply, hreply, rfl⟩ := List.mem_map.1 h
      rcases List.mem_append.1 hreply with hearlier | hlast
      · obtain ⟨e', -, rfl⟩ := List.mem_map.1 hearlier
        exact ⟨e', rfl⟩
      · exact ⟨e, List.mem_singleton.1 hlast⟩

/-- A document is accounted for by the calls that are noted down for it. -/
theorem run_store (policy : RetryPolicy) (w : σ) (log : List StoreExchange) :
    ∃ calls o w', (d.store policy).run (noted answer) (w, log) = (o, (w', log ++ calls)) ∧
      d.Accounted policy calls o := by
  obtain ⟨errors, last, w', hle, hlast, hrun⟩ := d.run_attempt answer (policy.limit - 1) 0 w log
  have hlimit : max 1 policy.maxAttempts.toNat = policy.limit - 1 + 1 := by
    rw [RetryPolicy.limit]
    omega
  rw [Nat.zero_add] at hrun
  exact ⟨_, _, w', hrun, d.accounted_exchanges (hlimit ▸ Nat.succ_le_succ hle)
    (hlast.imp_right fun h => by rw [hlimit, h])⟩

end SignedDocument

/-! ## Reports -/

namespace PublishReport

variable (r : PublishReport)

/-- The stored roles are those of outcomes without an error. -/
theorem mem_stored {role : String} :
    role ∈ r.stored ↔ ∃ o ∈ r.outcomes, o.role = role ∧ o.result = .ok () := by
  rw [stored, List.mem_map]
  simp only [List.mem_filter, and_assoc]
  refine exists_congr fun o => and_congr_right fun _ => ?_
  rw [and_comm]
  refine and_congr_right fun _ => ?_
  cases o.result with
  | ok _ => exact iff_of_true rfl rfl
  | error e => exact iff_of_false (fun h => by cases h) (fun h => by cases h)

/-- The failed roles are those of outcomes with an error, each with its error. -/
theorem mem_failed {role : String} {e : Error} :
    (role, e) ∈ r.failed ↔ ∃ o ∈ r.outcomes, o.role = role ∧ o.result = .error e := by
  rw [failed, List.mem_filterMap]
  refine exists_congr fun o => and_congr_right fun _ => ?_
  cases o.result with
  | ok _ => simp
  | error e' => simp

/-- Every document is either stored or failed. -/
theorem perm_roles : (r.stored ++ r.failed.map (·.1)).Perm (r.outcomes.map (·.role)) := by
  have hfailed : r.failed.map (·.1)
      = (r.outcomes.filter fun o => !o.result.isOk).map (·.role) := by
    rw [failed]
    induction r.outcomes with
    | nil => rfl
    | cons o rest ih =>
      cases hresult : o.result with
      | ok _ =>
        rw [List.filterMap_cons, List.filter_cons, hresult]
        exact ih
      | error e =>
        rw [List.filterMap_cons, List.filter_cons, hresult]
        exact congrArg (o.role :: ·) ih
  rw [hfailed, stored, ← List.map_append]
  exact (List.filter_append_perm _ _).map _

/-- A report is complete if nothing failed. -/
theorem isComplete_iff : r.isComplete = true ↔ r.failed = [] := by
  rw [isComplete, List.all_eq_true, failed, List.filterMap_eq_nil_iff]
  refine forall₂_congr fun o _ => ?_
  cases o.result with
  | ok _ => exact iff_of_true rfl rfl
  | error e => exact iff_of_false (fun h => by cases h) (fun h => by cases h)

/-- A report has no error if nothing failed. -/
theorem result_eq_ok : r.result = .ok () ↔ r.failed = [] := by
  rw [result]
  cases r.failed with
  | nil => exact iff_of_true rfl rfl
  | cons first rest => exact iff_of_false (fun h => by cases h) (List.cons_ne_nil _ _)

/-- A report's error is that of the first document that was not stored. -/
theorem result_eq_error {e : Error} : r.result = .error e ↔ ∃ before o after,
    r.outcomes = before ++ o :: after ∧ (∀ b ∈ before, b.result = .ok ()) ∧
      o.result = .error e := by
  obtain ⟨outcomes⟩ := r
  -- The error is that of the first outcome that has one, so outcomes before it are skipped one by
  -- one.
  induction outcomes with
  | nil =>
    refine iff_of_false (fun h => by cases h) ?_
    rintro ⟨before, o, after, h, -⟩
    simp at h
  | cons head rest ih =>
    cases hhead : head.result with
    | ok _ =>
      have hskip : (PublishReport.mk (head :: rest)).result = (PublishReport.mk rest).result := by
        rw [result, result, failed, failed, List.filterMap_cons_none (by rw [hhead])]
      rw [hskip, ih]
      constructor
      · rintro ⟨before, o, after, rfl, hbefore, ho⟩
        exact ⟨head :: before, o, after, rfl, List.forall_mem_cons.2 ⟨hhead, hbefore⟩, ho⟩
      · rintro ⟨before, o, after, h, hbefore, ho⟩
        cases before with
        | nil =>
          cases h
          cases hhead.symm.trans ho
        | cons b before =>
          cases h
          exact ⟨before, o, after, rfl, (List.forall_mem_cons.1 hbefore).2, ho⟩
    | error e' =>
      have hfirst : (PublishReport.mk (head :: rest)).result = .error e' := by
        rw [result, failed, List.filterMap_cons_some (by rw [hhead])]
      rw [hfirst]
      constructor
      · intro h
        cases h
        exact ⟨[], head, rest, rfl, fun _ h => absurd h List.not_mem_nil, hhead⟩
      · rintro ⟨before, o, after, h, hbefore, ho⟩
        cases before with
        | nil =>
          cases h
          exact congrArg Except.error (Except.error.inj (hhead.symm.trans ho))
        | cons b before =>
          cases h
          cases hhead.symm.trans (hbefore _ List.mem_cons_self)

end PublishReport

/-! ## Publishing -/

/-- Documents are accounted for one after the other. -/
theorem run_mapM_store (docs : List SignedDocument) (policy : RetryPolicy) (w : σ)
    (log : List StoreExchange) :
    ∃ (accounts : List (List StoreExchange × PublishOutcome)) (w' : σ),
      (docs.mapM fun d : SignedDocument => d.store policy).run (noted answer) (w, log)
        = (accounts.map (·.2), (w', log ++ (accounts.map (·.1)).flatten)) ∧
      List.Forall₂ (fun d account => d.Accounted policy account.1 account.2) docs accounts := by
  induction docs generalizing w log with
  | nil =>
    refine ⟨[], w, ?_, .nil⟩
    rw [List.map_nil, List.map_nil, List.flatten_nil, List.append_nil]
    rfl
  | cons d rest ih =>
    -- The store has another state behind the first document, and the log the calls for it.
    obtain ⟨calls, o, w₁, hstore, haccount⟩ := d.run_store answer policy w log
    obtain ⟨accounts, w₂, hrest, haccounts⟩ := ih w₁ (log ++ calls)
    refine ⟨(calls, o) :: accounts, w₂, ?_, .cons haccount haccounts⟩
    rw [List.mapM_cons, Program.run_bind_state, hstore, Program.run_bind_state, hrest,
      List.append_assoc]
    rfl

/-- Publishing makes the calls for one document after the other, in the order of the documents, and
each document is accounted for: it is tried at least once and at most as often as the policy allows,
again only after a failure, and up to the last attempt unless one succeeds; its outcome tells how
often, and the error of the last attempt. The numbers of attempts fit into words. The report has the
outcomes in the order of the documents and divides their roles among the stored and the failed. It
is complete exactly if none failed, which is when it has no error, and its error is that of the
first document that failed. All this holds for any store, whatever its answers depend on. -/
theorem accounts_of_publish (docs : List SignedDocument) (policy : RetryPolicy) (w : σ) :
    ∃ (accounts : List (List StoreExchange × PublishOutcome)) (report : PublishReport) (w' : σ),
      (publishAll docs policy).run answer w = (report, w') ∧
      (publishAll docs policy).run (noted answer) (w, [])
        = (report, (w', (accounts.map (·.1)).flatten)) ∧
      report.outcomes = accounts.map (·.2) ∧
      List.Forall₂ (fun d account => d.Accounted policy account.1 account.2) docs accounts ∧
      (∀ o ∈ report.outcomes, o.attempts < UInt32.size) ∧
      report.outcomes.map (·.role) = docs.map (·.role) ∧
      (report.stored ++ report.failed.map (·.1)).Perm (docs.map (·.role)) ∧
      (∀ role, role ∈ report.stored ↔ ∃ o ∈ report.outcomes, o.role = role ∧ o.result = .ok ()) ∧
      (∀ role e, (role, e) ∈ report.failed ↔
        ∃ o ∈ report.outcomes, o.role = role ∧ o.result = .error e) ∧
      (report.isComplete = true ↔ report.failed = []) ∧
      (report.result = .ok () ↔ report.failed = []) ∧
      ∀ e, report.result = .error e ↔ ∃ before o after, report.outcomes = before ++ o :: after ∧
        (∀ b ∈ before, b.result = .ok ()) ∧ o.result = .error e := by
  obtain ⟨accounts, w', hrun, haccounts⟩ := run_mapM_store answer docs policy w []
  -- The calls are those of the store with its log; without the log all else is the same.
  have hnoted : (publishAll docs policy).run (noted answer) (w, [])
      = (⟨accounts.map (·.2)⟩, (w', (accounts.map (·.1)).flatten)) := by
    rw [publishAll, Program.run_bind_state, hrun]
    rfl
  have hroles : (accounts.map (·.2)).map (·.role) = docs.map (·.role) := by
    clear hrun hnoted
    induction haccounts with
    | nil => rfl
    | cons head _ ih => rw [List.map_cons, List.map_cons, List.map_cons, ih, head.role]
  obtain ⟨hreport, hworld⟩ := run_noted answer (publishAll docs policy) w []
  rw [hnoted] at hreport hworld
  refine ⟨accounts, _, w', Prod.ext hreport.symm hworld.symm, hnoted, rfl, haccounts, ?_, hroles,
    hroles ▸ PublishReport.perm_roles _, fun _ => PublishReport.mem_stored _,
    fun _ _ => PublishReport.mem_failed _, PublishReport.isComplete_iff _,
    PublishReport.result_eq_ok _, fun _ => PublishReport.result_eq_error _⟩
  intro o ho
  obtain ⟨account, haccount, rfl⟩ := List.mem_map.1 ho
  obtain ⟨d, -, hd⟩ := exists_of_forall₂ haccounts account haccount
  have hlimited := hd.limited
  have hword := policy.maxAttempts.toNat_lt
  rw [UInt32.size]
  omega

end BinDelegation
