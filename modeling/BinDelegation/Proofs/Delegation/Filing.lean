import BinDelegation.Proofs.Delegation.Index
import BinDelegation.Proofs.Delegation.Updates

/-!
# Filing targets

What filing does, said once. `file_eq_ok` tells all that the filing of one target can do: the path
is located, the bin at that position is not signed, and the target is put into it. `fileEach` files
targets one by one, and `fileEach_of_fileAll` says that a batch which is accepted has the effect of
that, though it locates all targets and checks all bins first: a target that is put into a bin moves
no path (`locate_insertAt`) and signs no bin (`unsealedAt_insertAt`), so what was checked at the
start holds when its turn comes.

Properties of batches are therefore inductions over single targets, by `fileEach_induction`.

A path is located by the index, which these lemmas take as it is. Only where a position has to be
that of a document is `Indexed` needed (`lt_of_locate`).
-/

namespace BinDelegation.Graph

variable {g g' : Graph} {i j : Nat} {path name : String} {record : TargetRecord}

/-! ## Positions -/

/-- A path is located where the index has the name that its hash leads to. -/
theorem locate_eq_ok :
    g.locate path = .ok i ↔ path ≠ "" ∧ ∃ name, g.settings.partition.binForPath path = .ok name ∧
      g.index[name]? = some i := by
  unfold locate
  by_cases hpath : path = ""
  · simp [hpath, throw, throwThe, MonadExceptOf.throw, bind, Except.bind]
  · rw [if_neg hpath]
    refine Iff.trans bind_eq_ok ?_
    simp only [hpath, ne_eq, not_false_eq_true, true_and]
    apply exists_congr
    intro name
    apply and_congr_right
    intro _
    cases hindex : g.index[name]? with
    | none => simp
    | some k => simp

/-- A located path leads to a bin of the graph if the index is right. -/
theorem lt_of_locate (hindexed : g.Indexed) (h : g.locate path = .ok i) : i < g.bins.length := by
  obtain ⟨-, name, -, hindex⟩ := locate_eq_ok.1 h
  obtain ⟨d, hd, -⟩ := (hindexed name i).1 hindex
  exact (List.getElem?_eq_some_iff.1 hd).1

/-- Where a path is located depends on the partition and on the index. -/
theorem locate_congr (hsettings : g.settings = g'.settings) (hindex : g.index = g'.index) :
    g.locate path = g'.locate path := by
  simp only [locate, hsettings, hindex]

/-- A bin may be changed unless it is signed. -/
theorem unsealedAt_eq_ok :
    g.unsealedAt i = .ok () ↔ ∀ d, g.bins[i]? = some d → d.state ≠ .signed := by
  cases hd : g.bins[i]? with
  | none => simp [unsealedAt, hd]
  | some d =>
    simp only [unsealedAt, hd, Document.requireUnsealed, Option.some.injEq, forall_eq']
    split <;> simp_all

/-- The name that filing answers with is the role of the document at the position. -/
theorem roleAt_eq {d : Document BinBody} (hd : g.bins[i]? = some d) : g.roleAt i = d.role := by
  rw [roleAt, hd]
  rfl

/-! ## One target in a bin -/

/-- Only the bin at the position has changed. -/
theorem getElem?_bins_insertAt :
    (g.insertAt i path record).bins[j]?
      = if i = j then g.bins[j]?.map (withTarget path record) else g.bins[j]? := by
  show (g.bins.modify i (withTarget path record))[j]? = _
  rw [List.getElem?_modify]
  split <;> simp

/-- A target in a bin changes no role. -/
@[simp] theorem roles_insertAt :
    (g.insertAt i path record).bins.map (·.role) = g.bins.map (·.role) := by
  apply List.ext_getElem?
  intro j
  rw [List.getElem?_map, List.getElem?_map, getElem?_bins_insertAt]
  split
  · cases g.bins[j]? <;> rfl
  · rfl

/-- A target in a bin changes no name that filing answers with. -/
@[simp] theorem roleAt_insertAt : (g.insertAt i path record).roleAt j = g.roleAt j := by
  have hroles : ((g.insertAt i path record).bins.map (·.role))[j]? = (g.bins.map (·.role))[j]? := by
    rw [roles_insertAt]
  rw [List.getElem?_map, List.getElem?_map] at hroles
  rw [roleAt, roleAt, hroles]

/-- A target in a bin moves no path. -/
@[simp] theorem locate_insertAt {other : String} :
    (g.insertAt i path record).locate other = g.locate other := locate_congr rfl rfl

/-- A bin that may be changed may be changed again. -/
theorem unsealedAt_insertAt (h : g.unsealedAt j = .ok ()) :
    (g.insertAt i path record).unsealedAt j = .ok () := by
  refine unsealedAt_eq_ok.2 fun d' hd' => ?_
  rw [getElem?_bins_insertAt] at hd'
  split at hd'
  · obtain ⟨d, -, rfl⟩ := Option.map_eq_some_iff.1 hd'
    simp [withTarget]
  · exact unsealedAt_eq_ok.1 h d' hd'

/-- All that filing one target can do: it puts the target into the bin where the path is located,
which is not signed, and answers with the name of that bin. -/
theorem file_eq_ok :
    g.file path record = .ok (name, g') ↔
      ∃ i, g.locate path = .ok i ∧ (∀ d, g.bins[i]? = some d → d.state ≠ .signed) ∧
        name = g.roleAt i ∧ g' = g.insertAt i path record := by
  rw [file_eq]
  constructor
  · intro h
    obtain ⟨i, hlocate, h⟩ := bind_eq_ok.1 h
    obtain ⟨_, hunsealed, h⟩ := bind_eq_ok.1 h
    cases h
    exact ⟨i, hlocate, unsealedAt_eq_ok.1 hunsealed, roleAt_insertAt, rfl⟩
  · rintro ⟨i, hlocate, hstate, rfl, rfl⟩
    refine bind_eq_ok.2 ⟨i, hlocate, bind_eq_ok.2 ⟨(), unsealedAt_eq_ok.2 hstate, ?_⟩⟩
    rw [roleAt_insertAt]
    rfl

/-- What filing comes to where the document at the position is known. -/
theorem file_eq_ite {d : Document BinBody} (record : TargetRecord)
    (hlocate : g.locate path = .ok i) (hd : g.bins[i]? = some d) :
    g.file path record = if d.state = .signed then .error (.documentSealed d.role)
      else .ok (d.role, g.insertAt i path record) := by
  have hunsealed : g.unsealedAt i = d.requireUnsealed := by rw [unsealedAt, hd]
  have hrole : (g.insertAt i path record).roleAt i = d.role := roleAt_insertAt.trans (roleAt_eq hd)
  rw [file_eq, hlocate]
  simp only [bind, Except.bind, hunsealed, Document.requireUnsealed, hrole]
  by_cases hstate : d.state = .signed
  · simp only [if_pos hstate]
  · simp only [if_neg hstate]
    rfl

/-! ## Several targets -/

/-- Files targets one by one, up to the first that is refused. -/
def fileEach (g : Graph) (targets : List (String × TargetRecord)) : Except Error Graph :=
  targets.foldlM (fun g target => (g.file target.1 target.2).map (·.2)) g

/-- Filing a located target into an unsigned bin succeeds. -/
theorem file_of_locate (record : TargetRecord) (hlocate : g.locate path = .ok i)
    (hunsealed : g.unsealedAt i = .ok ()) :
    (g.file path record).map (·.2) = .ok (g.insertAt i path record) := by
  rw [file_eq_ok.2 ⟨i, hlocate, unsealedAt_eq_ok.1 hunsealed, rfl, rfl⟩]
  rfl

/-- Targets that are located and whose bins are unsigned can be filed one by one. -/
theorem fileEach_of_located {targets : List (String × TargetRecord)} {positions : List Nat}
    (hlocate : List.Forall₂ (fun target i => g.locate target.1 = .ok i) targets positions)
    (hunsealed : ∀ i ∈ positions, g.unsealedAt i = .ok ()) :
    g.fileEach targets = .ok ((targets.zip positions).foldl
      (fun g (target, i) => g.insertAt i target.1 target.2) g) := by
  induction targets generalizing g positions with
  | nil =>
    cases hlocate
    rfl
  | cons target rest ih =>
    obtain ⟨i, later, hhead, htail, rfl⟩ := List.forall₂_cons_left_iff.1 hlocate
    have hfile := file_of_locate target.2 hhead (hunsealed i List.mem_cons_self)
    -- Filing a target moves no path and signs no bin, so the rest stays as it was checked.
    have hrest := ih (g := g.insertAt i target.1 target.2) (by simpa using htail)
      fun k hk => unsealedAt_insertAt (hunsealed k (List.mem_cons_of_mem _ hk))
    rw [fileEach, List.foldlM_cons, hfile]
    exact hrest

/-- A batch that is accepted has the effect of filing its targets one by one. -/
theorem fileEach_of_fileAll {targets : List (String × TargetRecord)} {count : Nat}
    (h : g.fileAll targets = .ok (count, g')) :
    count = targets.length ∧ g.fileEach targets = .ok g' := by
  rw [fileAll_eq] at h
  obtain ⟨positions, hpositions, h⟩ := bind_eq_ok.1 h
  obtain ⟨_, hunsealed, h⟩ := bind_eq_ok.1 h
  cases h
  exact ⟨rfl, fileEach_of_located (mapM_eq_ok.1 hpositions) (forM_eq_ok.1 hunsealed)⟩

/-- What holds before any target and is kept by each filing holds of a batch. -/
theorem fileEach_induction {P : List (String × TargetRecord) → Graph → Prop}
    {targets : List (String × TargetRecord)} (h : g.fileEach targets = .ok g') (hstart : P [] g)
    (hstep : ∀ done path record name g₁ g₂, P done g₁ → g₁.file path record = .ok (name, g₂) →
      P (done ++ [(path, record)]) g₂) : P targets g' := by
  -- The induction is on the targets still to be filed, behind those that are done.
  suffices hrest : ∀ done rest g₁, P done g₁ → g₁.fileEach rest = .ok g' → P (done ++ rest) g' from
    hrest [] targets g hstart h
  intro done rest
  induction rest generalizing done with
  | nil =>
    intro g₁ hdone hfiled
    cases hfiled
    rwa [List.append_nil]
  | cons target rest ih =>
    intro g₁ hdone hfiled
    rw [fileEach, List.foldlM_cons] at hfiled
    obtain ⟨g₂, hfile, hrest⟩ := bind_eq_ok.1 hfiled
    obtain ⟨answer, hanswer, rfl⟩ := map_eq_ok.1 hfile
    have hnext := hstep done target.1 target.2 answer.1 g₁ answer.2 hdone hanswer
    have hall := ih (done ++ [target]) answer.2 hnext hrest
    rwa [List.append_assoc, List.singleton_append] at hall

end BinDelegation.Graph
