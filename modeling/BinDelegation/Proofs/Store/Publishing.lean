import BinDelegation.Proofs.Delegation.Accounts
import BinDelegation.Proofs.Delegation.Building
import BinDelegation.Proofs.Program
import BinDelegation.Proofs.Store.Names
import BinDelegation.Store.Memory

/-!
# Publishing a delegation

The documents of a delegation have roles that a store accepts, and no two of them have the same one:
the names of bins differ, and the checks of the settings keep the parent from having one of them. So
a store in memory takes each document at the first attempt, and none takes the place of another.

The store may hold documents already, and is any store in memory at all. Under the roles of the
delegation it ends up with the new documents, under all others with what it had (`get?_keep`). The
policy does not matter, since the first attempt at a document always succeeds (`run_store`).

Distinct roles are a fact about checked settings and the partition (`Checked.nodup_roles`); the
documents of a graph have these roles because no operation changes the role of a document
(`roles_published`).
-/

namespace BinDelegation

/-! ## Stores in memory -/

namespace MemoryStore

variable {s : MemoryStore} {policy : RetryPolicy} {docs : List SignedDocument}

/-- The store with documents in place of earlier ones of their roles. -/
def keep (s : MemoryStore) (docs : List SignedDocument) : MemoryStore where
  documents := (docs.map fun d => (d.role, d.json)).foldl
    (fun documents entry => documents.insert entry.1 entry.2) s.documents

/-- The outcome of a document that is taken at the first attempt. -/
def taken (d : SignedDocument) : PublishOutcome := ⟨d.role, 1, .ok ()⟩

/-- A document of a role name is taken at the first attempt. -/
theorem run_store {d : SignedDocument} (h : RoleName.isValid d.role = true) :
    (d.store policy).run answer s = (taken d, s.keep [d]) := by
  have hanswer : answer ⟨d.role, d.json⟩ s = (.ok (), s.keep [d]) := by
    rw [answer, store, requireRole_eq_ok.2 h]
    rfl
  rw [SignedDocument.store]
  cases policy.limit - 1 with
  | zero =>
    rw [SignedDocument.attempt, Program.run_ask_state, hanswer]
    rfl
  | succ more =>
    rw [SignedDocument.attempt, Program.run_ask_state, hanswer]
    rfl

/-- Documents of role names are taken one after the other, each at the first attempt. -/
theorem run_publishAll (h : ∀ d ∈ docs, RoleName.isValid d.role = true) :
    (publishAll docs policy).run answer s = (⟨docs.map taken⟩, s.keep docs) := by
  have hstores : (docs.mapM fun d : SignedDocument => d.store policy).run answer s
      = (docs.map taken, s.keep docs) := by
    induction docs generalizing s with
    | nil => rfl
    | cons d rest ih =>
      obtain ⟨hd, hrest⟩ := List.forall_mem_cons.1 h
      rw [List.mapM_cons, Program.run_bind_state, run_store hd, Program.run_bind_state, ih hrest]
      rfl
  rw [publishAll, Program.run_bind_state, hstores]
  rfl

/-- Documents of distinct roles are all found, and the others are as before. -/
theorem get?_keep (h : (docs.map (·.role)).Nodup) :
    (∀ d ∈ docs, (s.keep docs).get? d.role = some d.json) ∧
      ∀ role, role ∉ docs.map (·.role) → (s.keep docs).get? role = s.get? role := by
  have hkeys : (docs.map fun d => (d.role, d.json)).map (·.1) = docs.map (·.role) := by
    rw [List.map_map]
    rfl
  have hnodup : ((docs.map fun d => (d.role, d.json)).map (·.1)).Nodup := hkeys ▸ h
  have hget (role : String) : (s.keep docs).get? role
      = ((docs.map fun d => (d.role, d.json)).lookup role).or (s.get? role) :=
    Dict.get?_foldl_insert hnodup s.documents role
  constructor
  · intro d hd
    have hfound : (docs.map fun d => (d.role, d.json)).lookup d.role = some d.json :=
      lookup_of_nodup_keys hnodup (List.mem_map_of_mem (f := fun d => (d.role, d.json)) hd)
    rw [hget, hfound]
    rfl
  -- No document of the list has the role, so the look-up in it finds nothing.
  · intro role hrole
    have hnone : (docs.map fun d => (d.role, d.json)).lookup role = none := by
      rw [List.lookup_eq_none_iff]
      intro entry hentry
      rw [bne_iff_ne]
      rintro rfl
      exact hrole (hkeys ▸ List.mem_map_of_mem hentry)
    rw [hget, hnone]
    rfl

end MemoryStore

/-! ## The roles of a delegation -/

namespace Settings

variable {settings : Settings} {parentExpires binExpires : String}

/-- The role of the parent and the names of the bins. -/
def roles (settings : Settings) : List String :=
  settings.parentRole :: settings.partition.bins.map (·.name)

/-- The roles of checked settings are distinct. -/
theorem Checked.nodup_roles (h : settings.Checked parentExpires binExpires) :
    settings.roles.Nodup := by
  rw [roles, List.nodup_cons]
  refine ⟨fun hmem => ?_, settings.partition.nodup_names⟩
  obtain ⟨i, hi, hname⟩ := settings.partition.exists_of_mem_names hmem
  exact h.name_ne hi hname

/-- The roles of checked settings are role names. -/
theorem Checked.isValid_roles (h : settings.Checked parentExpires binExpires) :
    ∀ role ∈ settings.roles, RoleName.isValid role = true := by
  refine List.forall_mem_cons.2 ⟨h.parentRole, fun role hrole => ?_⟩
  obtain ⟨i, hi, rfl⟩ := settings.partition.exists_of_mem_names hrole
  exact settings.partition.isValid_name hi

end Settings

namespace Graph

variable {σ : Type} {g g₀ : Graph} {settings : Settings} {key : KeyRecord}
  {operations : List (Operation σ)} {events : List (Event σ)} {world : σ}

/-- The documents of a reached graph are published under the roles of its settings. -/
theorem roles_published (hbuild : build settings key = .ok g₀)
    (hrun : (g₀.run operations world).1 = (events, g)) :
    (g.parent.published :: g.bins.map (·.published)).map (·.role) = settings.roles := by
  obtain ⟨keyId, parentExpires, binExpires, hg⟩ := exists_outline_eq_fresh hbuild hrun
  have hparent : g.parent.role = settings.parentRole := congrArg (·.parent.role) hg
  have hbins : (g.bins.map (·.published)).map (·.role) = g.bins.map (·.role) := by
    rw [List.map_map]
    rfl
  rw [List.map_cons, hbins, roles_of_outline hg, Settings.roles, ← hparent]
  rfl

/-- The documents of a fully signed graph that is reached from a build have distinct roles, each of
them a role name and one more than there are bins. Published into any store in memory, under any
policy, each is stored at the first attempt; then each is found under its role, and what the store
holds under other roles is as before. -/
theorem stored_of_run (hbuild : build settings key = .ok g₀)
    (hrun : (g₀.run operations world).1 = (events, g)) (hsigned : g.isFullySigned = true) :
    ∃ docs, g.signedDocuments = .ok docs ∧ docs.length = settings.partition.count + 1 ∧
      (docs.map (·.role)).Nodup ∧
      (∀ doc ∈ docs, RoleName.isValid doc.role = true ∧ requireRole doc.role = .ok ()) ∧
      ∀ (policy : RetryPolicy) (s : MemoryStore), ∃ report s',
        (publishAll docs policy).run MemoryStore.answer s = (report, s') ∧
        report.isComplete = true ∧
        report.outcomes = docs.map (fun doc => ⟨doc.role, 1, .ok ()⟩) ∧
        (∀ doc ∈ docs, s'.get? doc.role = some doc.json) ∧
        ∀ role, role ∉ docs.map (·.role) → s'.get? role = s.get? role := by
  obtain ⟨parentExpires, binExpires, hchecked⟩ :=
    Settings.exists_checked_of_validate (validate_of_build hbuild)
  have hroles := roles_published hbuild hrun
  have hnodup := hroles ▸ hchecked.nodup_roles
  -- No operation changes a role, so the published roles are those that the checks have seen.
  have hvalid : ∀ doc ∈ g.parent.published :: g.bins.map (·.published),
      RoleName.isValid doc.role = true := by
    intro doc hdoc
    exact hchecked.isValid_roles doc.role (hroles ▸ List.mem_map_of_mem hdoc)
  refine ⟨_, signedDocuments_eq_ok.2 ⟨hsigned, rfl⟩, ?_, hnodup,
    fun doc hdoc => ⟨hvalid doc hdoc, requireRole_eq_ok.2 (hvalid doc hdoc)⟩, fun policy s => ?_⟩
  · have hlength := congrArg List.length hroles
    rw [List.length_map] at hlength
    rw [hlength, Settings.roles, List.length_cons, List.length_map, Partition.length_bins]
  · obtain ⟨hstored, hothers⟩ := MemoryStore.get?_keep (s := s) hnodup
    refine ⟨_, _, MemoryStore.run_publishAll hvalid, ?_, rfl, hstored, hothers⟩
    rw [PublishReport.isComplete, List.all_map, List.all_eq_true]
    exact fun doc _ => rfl

/-- The delegation of the sample, signed by its key, is stored in memory. -/
theorem stored_of_sample : ∃ g₀ events g docs, build Sample.settings Sample.key = .ok g₀ ∧
    (g₀.run Sample.operations 0).1 = (events, g) ∧ g.isFullySigned = true ∧
    g.signedDocuments = .ok docs ∧ docs.length = 3 ∧ (docs.map (·.role)).Nodup ∧
    ∃ report s', (publishAll docs .noRetry).run MemoryStore.answer
        ⟨.singleton "other" .empty⟩ = (report, s') ∧ report.isComplete = true ∧
      ∀ doc ∈ docs, s'.get? doc.role = some doc.json := by
  obtain ⟨g₀, events, g, hbuild, hrun, -, hsigned, -⟩ := Sample.exists_run
  obtain ⟨docs, hdocs, hlength, hnodup, -, hpublish⟩ := stored_of_run hbuild hrun hsigned
  obtain ⟨report, s', hreport, hcomplete, -, hstored, -⟩ :=
    hpublish .noRetry ⟨.singleton "other" .empty⟩
  exact ⟨g₀, events, g, docs, hbuild, hrun, hsigned, hdocs, hlength, hnodup, report, s', hreport,
    hcomplete, hstored⟩

end Graph

end BinDelegation
