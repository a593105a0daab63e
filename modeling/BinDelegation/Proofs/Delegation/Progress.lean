import BinDelegation.Proofs.Delegation.Accounts

/-!
# Documents only move forward

No operation takes a document back, and none changes a signed one: `Graph.Advances` relates any two
graphs of a run. The history of a run tells how far it has come with each document. A document is
signed if one pass of the run signed it, and a bin is empty if nothing was filed into it and no pass
of signing came by.

The first fact is about one step, and holds along a run because it is transitive. Filing changes an
unsigned document only, since the check of its bin comes first (`advances_file`), and a pass of
signing does not touch a signed one.

The other two compare the last graph with the history, so each has an invariant. `signs_step` says
that an event signs the documents that are signed after it and were not before; as no document goes
back, it is signed by at most one event (`countP_signs_run`). `FilledBy` says which bins are empty
by what has been filed and whether a pass was let through; it is kept by every step, and what was
filed is told by the paths that are located there.
-/

namespace BinDelegation

/-! ## The order of states -/

namespace DocumentState

/-- How many of the states come before. -/
def rank : DocumentState → Nat
  | empty => 0
  | populated => 1
  | signed => 2

instance : LE DocumentState := ⟨fun s t => s.rank ≤ t.rank⟩

instance (s t : DocumentState) : Decidable (s ≤ t) := inferInstanceAs (Decidable (s.rank ≤ t.rank))

/-- The last state comes after all others. -/
theorem le_signed : ∀ s : DocumentState, s ≤ signed
  | empty => by decide
  | populated => by decide
  | signed => by decide

/-- A document that is not signed is populated at most. -/
theorem le_populated {s : DocumentState} (h : s ≠ signed) : s ≤ populated := by
  cases s with
  | empty => decide
  | populated => decide
  | signed => exact absurd rfl h

/-- No state comes after the last. -/
theorem eq_signed_of_le {s : DocumentState} (h : signed ≤ s) : s = signed := by
  cases s with
  | empty => exact absurd h (by decide)
  | populated => exact absurd h (by decide)
  | signed => rfl

end DocumentState

/-! ## Documents and graphs that advance -/

namespace Document

variable {β : Type} {d d' d'' : Document β}

/-- A document has not gone back, and is as it was if it was signed. -/
structure Advances (d d' : Document β) : Prop where
  role : d'.role = d.role
  state : d.state ≤ d'.state
  frozen : d.state = .signed → d' = d

theorem Advances.refl (d : Document β) : d.Advances d := ⟨rfl, Nat.le_refl _, fun _ => rfl⟩

theorem Advances.signed (h : d.Advances d') (hstate : d.state = .signed) : d'.state = .signed :=
  DocumentState.eq_signed_of_le (hstate ▸ h.state)

/-- A document that has advanced twice has advanced. -/
theorem Advances.trans (h : d.Advances d') (h' : d'.Advances d'') : d.Advances d'' where
  role := h'.role.trans h.role
  state := Nat.le_trans h.state h'.state
  frozen hstate := (h'.frozen (h.signed hstate)).trans (h.frozen hstate)

/-- A document that is not signed may become any that is at least populated. -/
theorem Advances.of_unsigned (hrole : d'.role = d.role) (hstate : d.state ≠ .signed)
    (hstate' : .populated ≤ d'.state) : d.Advances d' where
  role := hrole
  state := Nat.le_trans (DocumentState.le_populated hstate) hstate'
  frozen h := absurd h hstate

variable [Wire β] {σ : Type} {signer : Signer σ} {calls : List Signer.Call}
  {result : SignOutcome × Document β}

/-- Signing advances a document that is not signed, and leaves another as it is. -/
theorem Signing.advances (h : d.Signing signer calls result) : d.Advances result.2 := by
  cases h with
  | kept hstate => exact .refl d
  | unwritable hstate hmessage => exact .of_unsigned rfl hstate (Nat.le_refl _)
  | refused hstate hmessage hanswer => exact .of_unsigned rfl hstate (Nat.le_refl _)
  | accepted hstate hmessage hanswer hkey =>
    exact .of_unsigned rfl hstate (DocumentState.le_signed _)

/-- A pass leaves no document empty. -/
theorem Signing.state_ne_empty (h : d.Signing signer calls result) : result.2.state ≠ .empty := by
  cases h with
  | kept hstate => exact fun hempty => by cases hstate.symm.trans hempty
  | unwritable hstate hmessage => exact fun hempty => by cases hempty
  | refused hstate hmessage hanswer => exact fun hempty => by cases hempty
  | accepted hstate hmessage hanswer hkey => exact fun hempty => by cases hempty

end Document

namespace Graph

variable {σ : Type} {g g' g'' : Graph}

/-- Every document of a graph has advanced to the one at its place in another graph. -/
structure Advances (g g' : Graph) : Prop where
  parent : g.parent.Advances g'.parent
  length : g'.bins.length = g.bins.length
  bins : ∀ (i : Nat) (d : Document BinBody), g.bins[i]? = some d →
    ∃ d', g'.bins[i]? = some d' ∧ d.Advances d'

theorem Advances.refl (g : Graph) : g.Advances g := ⟨.refl _, rfl, fun _ d hd => ⟨d, hd, .refl d⟩⟩

/-- A graph that has advanced twice has advanced. -/
theorem Advances.trans (h : g.Advances g') (h' : g'.Advances g'') : g.Advances g'' where
  parent := h.parent.trans h'.parent
  length := h'.length.trans h.length
  bins i d hd := by
    obtain ⟨d', hd', hadvances⟩ := h.bins i d hd
    obtain ⟨d'', hd'', hadvances'⟩ := h'.bins i d' hd'
    exact ⟨d'', hd'', hadvances.trans hadvances'⟩

/-- Filing changes an unsigned document only, which is populated then. -/
theorem advances_file {path bin : String} {record : TargetRecord}
    (h : g.file path record = .ok (bin, g')) : g.Advances g' := by
  obtain ⟨i, -, hstate, -, rfl⟩ := file_eq_ok.1 h
  refine ⟨.refl _, List.length_modify .., ?_⟩
  intro j d' hd'
  rw [getElem?_bins_insertAt, hd']
  split
  · next hij =>
    subst hij
    exact ⟨_, rfl, .of_unsigned rfl (hstate d' hd') (Nat.le_refl _)⟩
  · exact ⟨d', rfl, .refl d'⟩

/-- A pass of signing advances every document. -/
theorem advances_signing {parentSigner binSigner : Signer σ} {calls : List Signer.Call}
    {report : SigningReport} (h : g.Signing parentSigner binSigner calls (.ok (report, g'))) :
    g.Advances g' := by
  cases h with
  | @passed own calls parent bins hkey howns hcalls =>
    refine ⟨howns.advances, by rw [List.length_map, hcalls.length_eq], ?_⟩
    intro i d hd
    obtain ⟨result, _, hresult, -, hsigning⟩ := hcalls.getElem? hd
    exact ⟨result.2, by rw [List.getElem?_map, hresult]; rfl, hsigning.advances⟩

/-- A step advances the graph. -/
theorem advances_step {event : Event σ} (h : g.Step event g') : g.Advances g' := by
  cases h with
  | filed hfile => exact advances_file hfile
  | filedAll hfile =>
    obtain ⟨-, heach⟩ := fileEach_of_fileAll hfile
    exact fileEach_induction (P := fun _ g' => g.Advances g') heach (.refl g)
      fun _ _ _ _ _ _ hpast hfile => hpast.trans (advances_file hfile)
  | signed hsigning => exact advances_signing hsigning
  | refused => exact .refl g

/-- The graphs of a run advance. -/
theorem advances_run {operations : List (Operation σ)} {events : List (Event σ)} {world : σ}
    (h : (g.run operations world).1 = (events, g')) : g.Advances g' :=
  run_induction (P := fun _ g' => g.Advances g') h (.refl g)
    fun _ _ _ _ hpast hstep => hpast.trans (advances_step hstep)

/-- What was signed stays signed, at every place. -/
theorem Advances.states_signed (h : g.Advances g') {position : Nat}
    (hstate : g.states[position]? = some .signed) : g'.states[position]? = some .signed := by
  cases position with
  | zero =>
    have hparent : g.parent.state = .signed := Option.some.inj hstate
    exact congrArg some (h.parent.signed hparent)
  | succ i =>
    rw [states, List.getElem?_cons_succ, List.getElem?_map, Option.map_eq_some_iff] at hstate ⊢
    obtain ⟨d, hd, hsigned⟩ := hstate
    obtain ⟨d', hd', hadvances⟩ := h.bins i d hd
    exact ⟨d', hd', hadvances.signed hsigned⟩

end Graph

/-! ## How often a document is signed -/

/-- The report of the event has a new signature for the document at a position, the parent at 0. -/
def Event.signs {σ : Type} (event : Event σ) (position : Nat) : Bool :=
  event.report?.any fun report => report.outcomes[position]?.any (·.status == .signed)

namespace Graph

variable {σ : Type} {g g' : Graph} {event : Event σ} {events : List (Event σ)}

/-- A pass signs the documents that are signed after it and were not before. -/
theorem signs_signing {parentSigner binSigner : Signer σ} {calls : List Signer.Call}
    {report : SigningReport} (h : g.Signing parentSigner binSigner calls (.ok (report, g')))
    (position : Nat) : report.outcomes[position]?.any (·.status == .signed)
      = (g.states[position]? != some .signed && g'.states[position]? == some .signed) := by
  cases h with
  | @passed own calls parent bins hkey howns hcalls =>
    -- The parent stands at the first position, and the bins behind it.
    cases position with
    | zero => exact howns.signed_eq
    | succ i =>
      simp only [states, List.getElem?_cons_succ, List.getElem?_map]
      cases hd : g.bins[i]? with
      | none =>
        have hnone : bins[i]? = none := by
          rw [List.getElem?_eq_none_iff, hcalls.length_eq]
          exact List.getElem?_eq_none_iff.1 hd
        rw [hnone]
        rfl
      | some d =>
        obtain ⟨result, _, hresult, -, hsigning⟩ := hcalls.getElem? hd
        rw [hresult]
        exact hsigning.signed_eq

/-- Filing signs nothing. -/
theorem states_signed_of_file {path bin : String} {record : TargetRecord} {position : Nat}
    (h : g.file path record = .ok (bin, g')) (hstate : g'.states[position]? = some .signed) :
    g.states[position]? = some .signed := by
  obtain ⟨i, -, -, -, rfl⟩ := file_eq_ok.1 h
  cases position with
  | zero => exact hstate
  | succ j =>
    rw [states, List.getElem?_cons_succ, List.getElem?_map, getElem?_bins_insertAt] at hstate
    split at hstate
    · next hij =>
      subst hij
      -- The document at the position of the target is populated behind it.
      cases hd : g.bins[i]? with
      | none =>
        rw [hd] at hstate
        cases hstate
      | some d =>
        rw [hd] at hstate
        cases hstate
    · rwa [states, List.getElem?_cons_succ, List.getElem?_map]

/-- A step signs the documents that are signed after it and were not before. -/
theorem signs_step (h : g.Step event g') (position : Nat) : event.signs position
      = (g.states[position]? != some .signed && g'.states[position]? == some .signed) := by
  -- Other operations than passes sign nothing, so nothing is signed after them that was not before.
  have hunchanged (hsigns : event.signs position = false)
      (hstates : g'.states[position]? = some .signed → g.states[position]? = some .signed) :
      event.signs position
        = (g.states[position]? != some .signed && g'.states[position]? == some .signed) := by
    rw [hsigns, eq_comm, Bool.and_eq_false_imp, bne_iff_ne, beq_eq_false_iff_ne]
    exact fun hbefore hafter => hbefore (hstates hafter)
  cases h with
  | filed hfile => exact hunchanged rfl (states_signed_of_file hfile)
  | filedAll hfile =>
    obtain ⟨-, heach⟩ := fileEach_of_fileAll hfile
    refine hunchanged rfl ?_
    exact fileEach_induction (P := fun _ g' => g'.states[position]? = some .signed →
        g.states[position]? = some .signed) heach id
      fun _ _ _ _ _ _ hpast hfile hstate => hpast (states_signed_of_file hfile hstate)
  | signed hsigning => exact signs_signing hsigning position
  | refused => exact hunchanged rfl id

variable {settings : Settings} {key : KeyRecord} {g₀ : Graph} {operations : List (Operation σ)}
  {world : σ}

/-- A document was signed once in a run from a build if it is signed, and else never. -/
theorem countP_signs_run (hbuild : build settings key = .ok g₀)
    (hrun : (g₀.run operations world).1 = (events, g)) (position : Nat) :
    events.countP (·.signs position) = if g.states[position]? = some .signed then 1 else 0 := by
  refine run_induction (P := fun past g => past.countP (·.signs position)
    = if g.states[position]? = some .signed then 1 else 0) hrun ?_ ?_
  · obtain ⟨keyId, parentExpires, binExpires, -, rfl⟩ := exists_fresh_of_build hbuild
    have hunsigned : (fresh settings key keyId parentExpires binExpires).states[position]?
        ≠ some .signed := by
      intro hsigned
      have hmem := List.mem_of_getElem? hsigned
      simp [states, fresh] at hmem
    rw [if_neg hunsigned, List.countP_nil]
  · intro past event g₁ g₂ hpast hstep
    rw [List.countP_append, List.countP_singleton, hpast, signs_step hstep position]
    -- A document that was signed stays so, and is not signed again.
    by_cases hbefore : g₁.states[position]? = some .signed
    · have hafter := (advances_step hstep).states_signed hbefore
      simp [hbefore, hafter]
    · by_cases hafter : g₂.states[position]? = some .signed <;> simp [hbefore, hafter]

end Graph

/-! ## Empty bins -/

namespace Graph

variable {σ : Type} {g g' : Graph} {filed : List (String × TargetRecord)} {passed : Bool}

/-- The bins are empty in which none of the targets is located, unless a pass came by. -/
structure FilledBy (filed : List (String × TargetRecord)) (passed : Bool) (g : Graph) : Prop where
  located : ∀ target ∈ filed, ∃ i, g.locate target.1 = .ok i
  empty : ∀ (i : Nat) (d : Document BinBody), g.bins[i]? = some d → (d.state = .empty ↔
    (∀ target ∈ filed, g.locate target.1 ≠ .ok i) ∧ passed = false)

/-- A target that is filed fills the bin in which its path is located. -/
theorem FilledBy.file {path bin : String} {record : TargetRecord} (h : g.FilledBy filed passed)
    (hfile : g.file path record = .ok (bin, g')) :
    g'.FilledBy (filed ++ [(path, record)]) passed := by
  obtain ⟨i, hlocate, -, -, rfl⟩ := file_eq_ok.1 hfile
  constructor
  · intro target htarget
    rw [locate_insertAt]
    rcases List.mem_append.1 htarget with hold | hnew
    · exact h.located target hold
    · rw [List.mem_singleton.1 hnew]
      exact ⟨i, hlocate⟩
  · intro j d' hd'
    simp only [locate_insertAt, List.forall_mem_append, List.forall_mem_singleton, hlocate,
      ne_eq, Except.ok.injEq]
    rw [getElem?_bins_insertAt] at hd'
    -- The target fills the bin where it is located, and leaves the others as they are.
    split at hd'
    · next hij =>
      subst hij
      obtain ⟨d, -, rfl⟩ := Option.map_eq_some_iff.1 hd'
      simp [withTarget]
    · next hij => simpa [hij] using h.empty j d' hd'

/-- No bin is empty behind a pass of signing. -/
theorem FilledBy.signing {parentSigner binSigner : Signer σ} {calls : List Signer.Call}
    {report : SigningReport} (h : g.FilledBy filed passed)
    (hsigning : g.Signing parentSigner binSigner calls (.ok (report, g'))) :
    g'.FilledBy filed true := by
  constructor
  · intro target htarget
    rw [locate_of_outline (outline_signing hsigning)]
    exact h.located target htarget
  · intro i d' hd'
    refine iff_of_false ?_ (by simp)
    cases hsigning with
    | @passed own calls parent bins hkey howns hcalls =>
      rw [List.getElem?_map, Option.map_eq_some_iff] at hd'
      obtain ⟨result, hresult, rfl⟩ := hd'
      obtain ⟨d, _, -, -, hsigning⟩ := hcalls.exists_getElem? hresult
      exact hsigning.state_ne_empty

/-- A step fills the bins of what it files, and all of them if it is a pass that is let through. -/
theorem FilledBy.step {event : Event σ} (h : g.FilledBy filed passed) (hstep : g.Step event g') :
    g'.FilledBy (filed ++ event.filed) (passed || event.report?.isSome) := by
  cases hstep with
  | @filed path bin record _ hfile =>
    show g'.FilledBy (filed ++ [(path, record)]) (passed || false)
    rw [Bool.or_false]
    exact h.file hfile
  | @filedAll targets count _ hfile =>
    -- A batch fills the bins of its targets one after the other.
    obtain ⟨-, heach⟩ := fileEach_of_fileAll hfile
    show g'.FilledBy (filed ++ targets) (passed || false)
    rw [Bool.or_false]
    refine fileEach_induction (P := fun done g' => g'.FilledBy (filed ++ done) passed) heach ?_ ?_
    · rwa [List.append_nil]
    · intro done path record bin g₁ g₂ hpast hfile
      rw [← List.append_assoc]
      exact hpast.file hfile
  | signed hsigning =>
    show g'.FilledBy (filed ++ []) (passed || true)
    rw [List.append_nil, Bool.or_true]
    exact h.signing hsigning
  | @refused operation e =>
    have hnone : (⟨operation, .error e, []⟩ : Event σ).filed = [] := by
      cases operation <;> rfl
    show g.FilledBy (filed ++ _) (passed || false)
    rwa [hnone, List.append_nil, Bool.or_false]

variable {settings : Settings} {key : KeyRecord} {g₀ : Graph} {operations : List (Operation σ)}
  {events : List (Event σ)} {world : σ}

/-- After a run, the bins are empty that its history has left so. -/
theorem filledBy_run (hbuild : build settings key = .ok g₀)
    (hrun : (g₀.run operations world).1 = (events, g)) :
    g.FilledBy (events.flatMap Event.filed) (events.any (·.report?.isSome)) := by
  refine run_induction (P := fun past g => g.FilledBy (past.flatMap Event.filed)
    (past.any (·.report?.isSome))) hrun ?_ ?_
  · obtain ⟨keyId, parentExpires, binExpires, -, rfl⟩ := exists_fresh_of_build hbuild
    constructor
    · exact fun _ htarget => absurd htarget List.not_mem_nil
    · intro i d hd
      obtain ⟨b, -, rfl⟩ := List.mem_map.1 (List.mem_of_getElem? hd)
      exact iff_of_true rfl ⟨fun _ htarget => absurd htarget List.not_mem_nil, rfl⟩
  · intro past event g₁ g₂ hpast hstep
    rw [List.flatMap_append, List.flatMap_singleton, List.any_append, List.any_cons, List.any_nil,
      Bool.or_false]
    exact hpast.step hstep

/-- A pass is not refused if the parent delegates to the key of its bin signer. -/
theorem isSome_report?_perform (parentSigner binSigner : Signer σ) :
    (g.perform (.sign parentSigner binSigner) world).1.1.report?.isSome
      = g.parent.body.delegations.keys.contains binSigner.keyId := by
  cases hkey : g.parent.body.delegations.keys.contains binSigner.keyId with
  | false =>
    obtain ⟨reason, hrefused⟩ := perform_sign_of_not_contains parentSigner world hkey
    rw [hrefused]
    rfl
  | true =>
    obtain ⟨report, calls, g', world', hpassed, -⟩ :=
      perform_sign_of_contains parentSigner world hkey
    rw [hpassed]
    rfl

/-- The body of the parent is what it was before a run. -/
theorem parentBody_run (hrun : (g₀.run operations world).1 = (events, g)) :
    g.parent.body = g₀.parent.body :=
  congrArg (·.parent.body) (outline_run hrun)

/-- In a run the passes are refused whose bin signer has a key that the parent does not delegate
to, and no others. -/
theorem isSome_report?_run (hrun : (g₀.run operations world).1 = (events, g)) {event : Event σ}
    (hevent : event ∈ events) {parentSigner binSigner : Signer σ}
    (hoperation : event.operation = .sign parentSigner binSigner) :
    event.report?.isSome = g₀.parent.body.delegations.keys.contains binSigner.keyId := by
  -- The body of the parent goes along in the induction, since the key is looked up in it.
  have hboth := perform_induction (P := fun past g => g.parent.body = g₀.parent.body ∧
    ∀ event ∈ past, ∀ parentSigner binSigner, event.operation = .sign parentSigner binSigner →
      event.report?.isSome = g₀.parent.body.delegations.keys.contains binSigner.keyId)
    hrun ⟨rfl, fun _ h => absurd h List.not_mem_nil⟩ ?_
  · exact hboth.2 event hevent parentSigner binSigner hoperation
  · rintro past g₁ operation world ⟨hbody, hpast⟩
    have houtline := outline_step (g₁.step_perform operation world)
    refine ⟨(congrArg (·.parent.body) houtline).trans hbody, ?_⟩
    rw [List.forall_mem_append, List.forall_mem_singleton]
    refine ⟨hpast, fun parentSigner binSigner hoperation => ?_⟩
    rw [operation_perform] at hoperation
    rw [hoperation, isSome_report?_perform, hbody]

/-- A report is the answer to a pass. -/
theorem exists_sign_of_report? (hrun : (g₀.run operations world).1 = (events, g)) {event : Event σ}
    (hevent : event ∈ events) (hreport : event.report?.isSome = true) :
    ∃ parentSigner binSigner, event.operation = .sign parentSigner binSigner := by
  have hall := run_induction (P := fun past _ => ∀ event ∈ past, event.report?.isSome = true →
    ∃ parentSigner binSigner, event.operation = .sign parentSigner binSigner) hrun
    (fun _ h => absurd h List.not_mem_nil) ?_
  · exact hall event hevent hreport
  · intro past event g₁ g₂ hpast hstep
    rw [List.forall_mem_append, List.forall_mem_singleton]
    refine ⟨hpast, fun hreport => ?_⟩
    cases hstep with
    | signed hsigning => exact ⟨_, _, rfl⟩
    | _ => cases hreport

/-- A bin is empty exactly if nothing was filed into it and no pass was let through. -/
theorem state_eq_empty_iff (hbuild : build settings key = .ok g₀)
    (hrun : (g₀.run operations world).1 = (events, g)) {d : Document BinBody} (hd : d ∈ g.bins) :
    d.state = .empty ↔
      (∀ event ∈ events, ∀ target ∈ event.filed,
        settings.partition.binForPath target.1 ≠ .ok d.role) ∧
      ∀ event ∈ events, ∀ parentSigner binSigner,
        event.operation = .sign parentSigner binSigner →
          g₀.parent.body.delegations.keys.contains binSigner.keyId = false := by
  have hfilled := filledBy_run hbuild hrun
  obtain ⟨keyId, parentExpires, binExpires, hg⟩ := exists_outline_eq_fresh hbuild hrun
  obtain ⟨i, hi⟩ := List.mem_iff_getElem?.1 hd
  rw [hfilled.empty i d hi, List.forall_mem_flatMap, List.any_eq_false]
  refine and_congr ?_ (forall₂_congr fun event hevent => ⟨?_, ?_⟩)
  · refine forall₂_congr fun event hevent => forall₂_congr fun target htarget => not_congr ?_
    -- What was filed was located, so its path is not empty.
    obtain ⟨k, hk⟩ := hfilled.located target (List.mem_flatMap.2 ⟨event, hevent, htarget⟩)
    rw [locate_iff_role hg hi]
    exact and_iff_right ((locate_iff hg).1 hk).1
  · intro hreport parentSigner binSigner hoperation
    rw [← isSome_report?_run hrun hevent hoperation]
    exact Bool.eq_false_of_not_eq_true hreport
  -- A pass that was let through had a signer under a key of the table.
  · intro hkeys hreport
    obtain ⟨parentSigner, binSigner, hoperation⟩ := exists_sign_of_report? hrun hevent hreport
    have hkey := isSome_report?_run hrun hevent hoperation
    rw [hreport, hkeys parentSigner binSigner hoperation] at hkey
    cases hkey

/-- The parent is populated from the start, so it is never empty. -/
theorem parentState_ne_empty (hbuild : build settings key = .ok g₀)
    (hrun : (g₀.run operations world).1 = (events, g)) : g.parent.state ≠ .empty := by
  obtain ⟨keyId, parentExpires, binExpires, -, rfl⟩ := exists_fresh_of_build hbuild
  have hstate : DocumentState.populated ≤ g.parent.state := (advances_run hrun).parent.state
  intro hempty
  rw [hempty] at hstate
  exact absurd hstate (by decide)

/-- In every run from a build, documents only move forward: none goes back from one graph of the run
to a later one, and a signed one stays as it is, so that no document is signed in more than one
pass. The parent is populated from the start and keeps the body that it was built with. A bin is
empty until a target is filed into it or a pass of signing is let through. -/
theorem progress_of_run (hbuild : build settings key = .ok g₀) {later : List (Operation σ)}
    {events' : List (Event σ)} (hrun : (g₀.run operations world).1 = (events, g))
    (hlater : (g₀.run (operations ++ later) world).1 = (events', g')) :
    g.Advances g' ∧
    (∀ position, events'.countP (·.signs position) ≤ 1) ∧
    g'.parent.state ≠ .empty ∧ g'.parent.body = g₀.parent.body ∧
    ∀ d ∈ g'.bins, d.state = .empty ↔
      (∀ event ∈ events', ∀ target ∈ event.filed,
        settings.partition.binForPath target.1 ≠ .ok d.role) ∧
      ∀ event ∈ events', ∀ parentSigner binSigner,
        event.operation = .sign parentSigner binSigner →
          g₀.parent.body.delegations.keys.contains binSigner.keyId = false := by
  obtain ⟨rest, world', -, hrest⟩ := exists_run_of_append hrun hlater
  refine ⟨advances_run hrest, ?_, parentState_ne_empty hbuild hlater, parentBody_run hlater,
    fun d hd => state_eq_empty_iff hbuild hlater hd⟩
  intro position
  rw [countP_signs_run hbuild hlater]
  split <;> omega

/-- The small delegation advances to one in which all is signed, and no document is signed twice. -/
theorem progress_of_sample : ∃ g₀ events g events' g', build Sample.settings Sample.key = .ok g₀ ∧
    (g₀.run (Sample.operations.take 2) 0).1 = (events, g) ∧
    (g₀.run Sample.operations 0).1 = (events', g') ∧ g'.isFullySigned = true ∧ g.Advances g' ∧
    (∀ position, events'.countP (·.signs position) ≤ 1) ∧
    g'.parent.body = g₀.parent.body := by
  obtain ⟨g₀, events', g', hbuild, hlater, -, hsigned, -⟩ := Sample.exists_run
  rcases hrun : (g₀.run (Sample.operations.take 2) 0).1 with ⟨events, g⟩
  obtain ⟨hadvances, honce, -, hbody, -⟩ := progress_of_run hbuild hrun hlater
  exact ⟨g₀, events, g, events', g', hbuild, hrun, hlater, hsigned, hadvances, honce, hbody⟩

end Graph

end BinDelegation
