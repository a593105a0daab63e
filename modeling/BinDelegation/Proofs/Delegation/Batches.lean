import BinDelegation.Proofs.Delegation.Outline

/-!
# Batches of targets

A batch locates all of its targets, checks all of their bins and only then files them, so the order
of the two kinds of checks is another than that of targets filed one by one. It is accepted all the
same exactly if each of its targets would be on its own, and then has the same effect.

The checks that a path has to pass are named (`check`), and on a graph that is reached from a build
they come to one of two refusals: the path is empty, or its bin is signed (`Refuses`,
`check_eq_error`). Locating a path fails for an empty path alone, because every other path has a bin
and every bin has a document (`exists_locate`, which rests on the index of the graph).

For a batch this means: if any path is empty, all errors of the first pass are alike, so it does not
matter which of them is met; if none is, the second pass fails as the first path does whose bin is
signed (`RefusesAll`, `fileAll_eq_error_iff`). That a refused batch leaves the graph as it was is a
fact about the order of its steps, and is shown with the steps themselves.
-/

namespace BinDelegation.Graph

variable {g g' : Graph} {path : String} {record : TargetRecord} {e : Error}
  {targets : List (String × TargetRecord)}

/-! ## What is refused -/

/-- The document of the bin of a path. -/
def BinOf (g : Graph) (path : String) (d : Document BinBody) : Prop :=
  g.settings.partition.binForPath path = .ok d.role ∧ g.bin? d.role = some d

/-- A path has one bin, and this has one document. -/
theorem BinOf.unique {d d' : Document BinBody} (h : g.BinOf path d) (h' : g.BinOf path d') :
    d = d' := by
  have hrole : d.role = d'.role := Except.ok.inj (h.1.symm.trans h'.1)
  have hd := h.2
  rw [hrole, h'.2] at hd
  exact (Option.some.inj hd).symm

/-- Why a path is refused. -/
inductive Refuses (g : Graph) (path : String) : Error → Prop
  | empty (hpath : path = "") :
      Refuses g path (.invalidArgument "artifact path must not be empty")
  | signed {d : Document BinBody} (hpath : path ≠ "") (hbin : g.BinOf path d)
      (hstate : d.state = .signed) : Refuses g path (.documentSealed d.role)

/-- Why a batch is refused: an empty path anywhere comes before the first bin that is signed. -/
inductive RefusesAll (g : Graph) (targets : List (String × TargetRecord)) : Error → Prop
  | empty (hpath : ∃ target ∈ targets, target.1 = "") :
      RefusesAll g targets (.invalidArgument "artifact path must not be empty")
  | signed {before after : List (String × TargetRecord)} {target : String × TargetRecord}
      {d : Document BinBody} (hpath : ∀ target ∈ targets, target.1 ≠ "")
      (htargets : targets = before ++ target :: after)
      (hbefore : ∀ earlier ∈ before, ∀ d, g.BinOf earlier.1 d → d.state ≠ .signed)
      (hbin : g.BinOf target.1 d) (hstate : d.state = .signed) :
      RefusesAll g targets (.documentSealed d.role)

/-- The checks that a path has to pass. -/
def check (g : Graph) (path : String) : Except Error Unit := g.locate path >>= g.unsealedAt

/-- A target is refused for what its path does not pass. -/
theorem file_eq_error : g.file path record = .error e ↔ g.check path = .error e := by
  rw [file_eq, check, bind_eq_error, bind_eq_error]
  exact or_congr_right (exists_congr fun i => and_congr_right fun _ => bind_pure_eq_error)

/-- A path that passes the checks can be filed. -/
theorem exists_file_eq_ok :
    (∃ answer, g.file path record = .ok answer) ↔ g.check path = .ok () := by
  cases hcheck : g.check path with
  | error e => simp [file_eq_error.2 hcheck]
  | ok _ =>
    cases hfile : g.file path record with
    | error e =>
      rw [file_eq_error.1 hfile] at hcheck
      cases hcheck
    | ok answer => simp

/-- A batch fails where its paths are located, or else as the first path does that does not pass the
checks. -/
theorem fileAll_eq_error : g.fileAll targets = .error e ↔
    targets.mapM (fun target => g.locate target.1) = .error e ∨
      (∃ positions, targets.mapM (fun target => g.locate target.1) = .ok positions) ∧
        targets.forM (fun target => g.check target.1) = .error e := by
  rw [fileAll_eq, bind_eq_error, ← exists_and_right]
  refine or_congr_right (exists_congr fun positions => and_congr_right fun hpositions => ?_)
  refine Iff.trans bind_pure_eq_error ?_
  rw [forM_answers (mapM_eq_ok.1 hpositions)]
  rfl

/-- The paths of a batch that is accepted all pass the checks. -/
theorem check_of_fileAll {answer : Nat × Graph} (h : g.fileAll targets = .ok answer) :
    ∀ target ∈ targets, g.check target.1 = .ok () := by
  rw [fileAll_eq] at h
  obtain ⟨positions, hpositions, h⟩ := bind_eq_ok.1 h
  obtain ⟨_, hunsealed, -⟩ := bind_eq_ok.1 h
  rw [forM_answers (mapM_eq_ok.1 hpositions)] at hunsealed
  exact forM_eq_ok.1 hunsealed

/-! ## Reached graphs -/

section

variable {settings : Settings} {key : KeyRecord} {keyId parentExpires binExpires : String}
  (hg : g.outline = (fresh settings key keyId parentExpires binExpires).outline)

include hg

/-- A document is found under the name of its bin. -/
theorem bin?_role {i : Nat} {d : Document BinBody} (hd : g.bins[i]? = some d) :
    g.bin? d.role = some d :=
  (indexed_of_outline hg).bin?_eq_some.2 ⟨i, hd, rfl⟩

/-- Every path but the empty one is located at the document of its bin. -/
theorem exists_locate (hpath : path ≠ "") :
    ∃ i d, g.locate path = .ok i ∧ g.bins[i]? = some d ∧ g.BinOf path d := by
  obtain ⟨value, i, -, -, hi, -, hbin⟩ := settings.partition.exists_binForPath path
  obtain ⟨d, hd, hrole⟩ := exists_getElem?_bins hg hi
  refine ⟨i, d, (locate_iff hg).2 ⟨hpath, hi, hbin⟩, hd, ?_, bin?_role hg hd⟩
  rw [settings_of_outline hg, hbin, hrole]

/-- On such a graph a path is not located only if it is empty. -/
theorem locate_eq_error : g.locate path = .error e ↔
    path = "" ∧ e = .invalidArgument "artifact path must not be empty" := by
  by_cases hpath : path = ""
  · subst hpath
    have hempty : g.locate "" = .error (.invalidArgument "artifact path must not be empty") := rfl
    rw [hempty, Except.error.injEq, eq_comm]
    exact (and_iff_right rfl).symm
  · obtain ⟨i, d, hlocate, -⟩ := exists_locate hg hpath
    rw [hlocate]
    exact iff_of_false (fun h => by cases h) fun h => hpath h.1

/-- A path that is not empty passes the checks unless its bin is signed. -/
theorem check_eq {d : Document BinBody} (hpath : path ≠ "") (hbin : g.BinOf path d) :
    g.check path = if d.state = .signed then .error (.documentSealed d.role) else .ok () := by
  obtain ⟨i, d', hlocate, hd, hbin'⟩ := exists_locate hg hpath
  cases hbin.unique hbin'
  rw [check, hlocate]
  show g.unsealedAt i = _
  rw [unsealedAt, hd]
  rfl

/-- What a path does not pass is what it is refused for. -/
theorem check_eq_error : g.check path = .error e ↔ g.Refuses path e := by
  constructor
  · intro h
    by_cases hpath : path = ""
    · subst hpath
      cases h
      exact .empty rfl
    · obtain ⟨i, d, -, -, hbin⟩ := exists_locate hg hpath
      rw [check_eq hg hpath hbin] at h
      split at h
      · next hstate =>
        cases h
        exact .signed hpath hbin hstate
      · cases h
  · intro h
    cases h with
    | empty hpath =>
      subst hpath
      rfl
    | signed hpath hbin hstate => rw [check_eq hg hpath hbin, if_pos hstate]

/-- The paths of a batch are all located exactly if none of them is empty. -/
theorem exists_mapM_locate :
    (∃ positions, targets.mapM (fun target => g.locate target.1) = .ok positions) ↔
      ∀ target ∈ targets, target.1 ≠ "" := by
  rw [exists_mapM_eq_ok]
  refine forall₂_congr fun target _ => ⟨?_, fun hpath => ?_⟩
  · rintro ⟨i, hlocate⟩ hpath
    rw [(locate_eq_error hg).2 ⟨hpath, rfl⟩] at hlocate
    cases hlocate
  · obtain ⟨i, d, hlocate, -⟩ := exists_locate hg hpath
    exact ⟨i, hlocate⟩

/-- A batch is refused for an empty path, or else for the first bin that is signed. -/
theorem fileAll_eq_error_iff : g.fileAll targets = .error e ↔ g.RefusesAll targets e := by
  rw [fileAll_eq_error, exists_mapM_locate hg]
  constructor
  -- Either some path could not be located, or all were and some bin is signed.
  · rintro (hmap | ⟨hpaths, hchecks⟩)
    · obtain ⟨target, htarget, hlocate⟩ := exists_of_mapM_eq_error hmap
      obtain ⟨hpath, rfl⟩ := (locate_eq_error hg).1 hlocate
      exact .empty ⟨target, htarget, hpath⟩
    · obtain ⟨before, target, after, rfl, hbefore, htarget⟩ := forM_eq_error.1 hchecks
      have hpath := hpaths target (by simp)
      cases (check_eq_error hg).1 htarget with
      | empty hempty => exact absurd hempty hpath
      | signed _ hbin hstate =>
        refine .signed hpaths rfl ?_ hbin hstate
        intro earlier hearlier d hd hsigned
        have hcheck := hbefore earlier hearlier
        rw [check_eq hg (hpaths earlier (by simp [hearlier])) hd, if_pos hsigned] at hcheck
        cases hcheck
  · intro h
    cases h with
    | empty hpath =>
      -- All errors of locating paths are alike, so it does not matter which path is met first.
      left
      cases hmap : targets.mapM (fun target => g.locate target.1) with
      | error e =>
        obtain ⟨target, -, hlocate⟩ := exists_of_mapM_eq_error hmap
        rw [((locate_eq_error hg).1 hlocate).2]
      | ok positions =>
        obtain ⟨target, htarget, hempty⟩ := hpath
        exact absurd hempty ((exists_mapM_locate hg).1 ⟨positions, hmap⟩ target htarget)
    | @signed before after target d hpaths htargets hbefore hbin hstate =>
      subst htargets
      refine .inr ⟨hpaths, forM_eq_error.2 ⟨before, target, after, rfl, ?_, ?_⟩⟩
      · intro earlier hearlier
        have hpath := hpaths earlier (by simp [hearlier])
        obtain ⟨i, d', -, -, hd'⟩ := exists_locate hg hpath
        rw [check_eq hg hpath hd', if_neg (hbefore earlier hearlier d' hd')]
      · exact (check_eq_error hg).2 (.signed (hpaths target (by simp)) hbin hstate)

/-- A batch is accepted if each of its paths passes the checks. -/
theorem exists_fileAll_eq_ok : (∃ answer, g.fileAll targets = .ok answer) ↔
    ∀ target ∈ targets, g.check target.1 = .ok () := by
  constructor
  · rintro ⟨answer, h⟩
    exact check_of_fileAll h
  · intro h
    cases hall : g.fileAll targets with
    | ok answer => exact ⟨answer, rfl⟩
    | error e =>
      -- A target for which the batch is refused would be refused on its own.
      exfalso
      cases (fileAll_eq_error_iff hg).1 hall with
      | empty hpath =>
        obtain ⟨target, htarget, hempty⟩ := hpath
        have hcheck := h target htarget
        rw [(check_eq_error hg).2 (.empty hempty)] at hcheck
        cases hcheck
      | @signed before after target d hpaths htargets hbefore hbin hstate =>
        subst htargets
        have htarget : target ∈ before ++ target :: after := by simp
        have hcheck := h target htarget
        rw [check_eq hg (hpaths target htarget) hbin, if_pos hstate] at hcheck
        cases hcheck

end

/-! ## Batches and runs -/

variable {σ : Type}

/-- Targets that can be filed one by one are filed by a run of single operations. -/
theorem run_of_fileEach (h : g.fileEach targets = .ok g') (world : σ) :
    ∃ events, (g.run (targets.map fun target => .file target.1 target.2) world).1 = (events, g') ∧
      ∀ event ∈ events, ∃ answer, event.answer = .ok answer := by
  induction targets generalizing g with
  | nil =>
    cases h
    exact ⟨[], rfl, fun _ h => absurd h List.not_mem_nil⟩
  | cons target rest ih =>
    -- The first target is filed, and the others into the graph that it leaves.
    rw [fileEach, List.foldlM_cons] at h
    obtain ⟨g₁, hfile, hrest⟩ := bind_eq_ok.1 h
    obtain ⟨answer, hanswer, rfl⟩ := map_eq_ok.1 hfile
    obtain ⟨events, hrun, hevents⟩ := ih hrest
    have hperform : g.perform (.file target.1 target.2) world
        = ((⟨.file target.1 target.2, .ok (.filed answer.1), []⟩, answer.2), world) := by
      simp only [perform, Update.on_file, hanswer]
      rfl
    refine ⟨⟨.file target.1 target.2, .ok (.filed answer.1), []⟩ :: events, ?_,
      List.forall_mem_cons.2 ⟨⟨_, rfl⟩, hevents⟩⟩
    rw [List.map_cons, run_cons, hperform]
    show (_ :: (answer.2.run _ world).1.1, (answer.2.run _ world).1.2) = _
    rw [hrun]

/-- The answer to filing a target is the name of its bin. -/
theorem answer_perform_file (world : σ) : (g.perform (.file path record) world).1.1.answer
    = (g.file path record).map fun answer => .filed answer.1 := by
  simp only [perform, Update.on_file]
  cases g.file path record <;> rfl

/-- The answer to filing a batch is the number of its targets. -/
theorem answer_perform_fileAll (world : σ) : (g.perform (.fileAll targets) world).1.1.answer
    = (g.fileAll targets).map fun answer => .filedAll answer.1 := by
  simp only [perform, Update.on_fileAll]
  cases g.fileAll targets <;> rfl

/-- A batch that is accepted leads where its targets lead one by one. -/
theorem run_of_perform_fileAll {world : σ} {answer : Answer}
    (h : (g.perform (.fileAll targets) world).1.1.answer = .ok answer) :
    answer = .filedAll targets.length ∧
      ∃ events, (g.run (targets.map fun target => .file target.1 target.2) world).1
          = (events, (g.perform (.fileAll targets) world).1.2) ∧
        ∀ event ∈ events, ∃ answer, event.answer = .ok answer := by
  rw [answer_perform_fileAll, map_eq_ok] at h
  obtain ⟨⟨count, g'⟩, hfile, rfl⟩ := h
  obtain ⟨rfl, heach⟩ := fileEach_of_fileAll hfile
  have hgraph : (g.perform (.fileAll targets) world).1.2 = g' := by
    simp only [perform, Update.on_fileAll, hfile]
    rfl
  rw [hgraph]
  exact ⟨rfl, run_of_fileEach heach world⟩

variable {settings : Settings} {key : KeyRecord} {g₀ : Graph} {operations : List (Operation σ)}
  {events : List (Event σ)} {world : σ}

/-- In every graph that is reached from a build, a target is refused exactly if its path is empty
or its bin is signed. A batch is accepted exactly if each of its targets would be at this point;
then it answers with their number and leads where the targets lead one by one, in their order.
Otherwise it is refused for an empty path, or else for the first bin that is signed. What is refused
changes nothing. -/
theorem batches_of_run (hbuild : build settings key = .ok g₀)
    (hrun : (g₀.run operations world).1 = (events, g)) :
    (∀ (path : String) (record : TargetRecord) (before after : σ) (event : Event σ) (g' : Graph),
      g.perform (.file path record) before = ((event, g'), after) →
        ∀ e, (event.answer = .error e ↔ g.Refuses path e) ∧ (event.answer = .error e → g' = g)) ∧
    ∀ (targets : List (String × TargetRecord)) (before after : σ) (event : Event σ) (g' : Graph),
      g.perform (.fileAll targets) before = ((event, g'), after) →
        ((∃ answer, event.answer = .ok answer) ↔ ∀ target ∈ targets, ∃ answer,
          (g.perform (.file target.1 target.2) before).1.1.answer = .ok answer) ∧
        (∀ answer, event.answer = .ok answer → answer = .filedAll targets.length ∧
          ∃ each,
            (g.run (targets.map fun target => .file target.1 target.2) before).1 = (each, g') ∧
            ∀ event ∈ each, ∃ answer, event.answer = .ok answer) ∧
        ∀ e, (event.answer = .error e ↔ g.RefusesAll targets e) ∧
          (event.answer = .error e → g' = g) := by
  obtain ⟨keyId, parentExpires, binExpires, hg⟩ := exists_outline_eq_fresh hbuild hrun
  -- One target first, then a batch. In both, what was refused has left the graph as it was.
  constructor
  · intro path record before after event g' hperform e
    have hanswer : event.answer = (g.file path record).map fun answer => .filed answer.1 := by
      rw [← answer_perform_file before, hperform]
    refine ⟨?_, graph_perform_of_error (congrArg Prod.fst hperform)⟩
    rw [hanswer, map_eq_error, file_eq_error, check_eq_error hg]
  · intro targets before after event g' hperform
    have hanswer : event.answer = (g.fileAll targets).map fun answer => .filedAll answer.1 := by
      rw [← answer_perform_fileAll before, hperform]
    refine ⟨?_, ?_, fun e => ⟨?_, graph_perform_of_error (congrArg Prod.fst hperform)⟩⟩
    · simp only [hanswer, answer_perform_file, exists_map_eq_ok, exists_file_eq_ok]
      exact exists_fileAll_eq_ok hg
    · intro answer hok
      have hperformed : (g.perform (.fileAll targets) before).1.1.answer = .ok answer := by
        rw [hperform]
        exact hok
      have hone := run_of_perform_fileAll hperformed
      rwa [hperform] at hone
    · rw [hanswer, map_eq_error, fileAll_eq_error_iff hg]

/-- In the end of the small delegation every bin is signed, and still a batch is refused for an
empty path that comes after a path of a signed bin. -/
theorem batches_of_sample : ∃ g₀ events g, build Sample.settings Sample.key = .ok g₀ ∧
    (g₀.run Sample.operations 0).1 = (events, g) ∧ g.isFullySigned = true ∧
    ∀ (record : TargetRecord) (event : Event Nat) (g' : Graph) (after : Nat),
      g.perform (.fileAll [("b", record), ("", record)]) 0 = ((event, g'), after) →
        event.answer = .error (.invalidArgument "artifact path must not be empty") ∧ g' = g := by
  obtain ⟨g₀, events, g, hbuild, hrun, -, hsigned, -⟩ := Sample.exists_run
  refine ⟨g₀, events, g, hbuild, hrun, hsigned, ?_⟩
  intro record event g' after hperform
  obtain ⟨-, -, herror⟩ := (batches_of_run hbuild hrun).2 _ 0 after event g' hperform
  have hanswer := (herror _).1.2 (.empty ⟨("", record), by simp, rfl⟩)
  exact ⟨hanswer, (herror _).2 hanswer⟩

end BinDelegation.Graph
