import BinDelegation.Proofs.Delegation.Outline
import Mathlib.Data.List.Nodup

/-!
# The targets that a graph holds

A graph holds a dictionary of targets if each bin has the part of it whose paths are located there.
Filing a target is an insertion into the dictionary and signing leaves it alone, so after a run the
bins together hold the last record of every path that was filed.

`Holds` is the invariant, and `Holds.step` is what one step does to it: a target that is filed
changes one bin, at its own path; a batch is the same for each of its targets; a pass of signing
keeps all bodies; and what is refused changes nothing. That no other bin has a target of the path is
part of the invariant, since a path is located at one place. `holds_run` is the invariant along a
whole run, by induction.

From the invariant it follows that the bins have the entries of the dictionary, each once
(`Holds.perm_entries`), so their number is right as well, and that a path stands in just one of
them. Where a place has to be that of a document, the index of the graph must be right
(`Graph.Indexed`).
-/

namespace BinDelegation.Graph

variable {σ : Type} {g g' : Graph} {contents : Dict String TargetRecord}

/-- Each bin has the targets of a dictionary that are located there, and no others. -/
structure Holds (contents : Dict String TargetRecord) (g : Graph) : Prop where
  located : ∀ path record, contents.get? path = some record → ∃ i, g.locate path = .ok i
  targets : ∀ i d, g.bins[i]? = some d → ∀ path record,
    d.body.targets.get? path = some record ↔
      g.locate path = .ok i ∧ contents.get? path = some record

/-- The last record of every path that was filed. -/
def lastFiled (events : List (Event σ)) : Dict String TargetRecord :=
  .ofList (events.flatMap Event.filed)

/-! ## Steps -/

/-- Filing a target inserts it into the dictionary. -/
theorem Holds.file {path bin : String} {record : TargetRecord} (h : g.Holds contents)
    (hfile : g.file path record = .ok (bin, g')) : g'.Holds (contents.insert path record) := by
  obtain ⟨i, hlocate, -, -, rfl⟩ := file_eq_ok.1 hfile
  constructor
  · intro p r hp
    rw [locate_insertAt]
    rw [Dict.get?_insert] at hp
    by_cases heq : p = path
    · exact ⟨i, heq ▸ hlocate⟩
    · rw [if_neg heq] at hp
      exact h.located p r hp
  · intro j d' hd' p r
    rw [locate_insertAt, Dict.get?_insert]
    rw [getElem?_bins_insertAt] at hd'
    -- The bin of the target changes at its path only, and no other bin has a target of that path.
    by_cases hij : i = j
    · subst hij
      rw [if_pos rfl, Option.map_eq_some_iff] at hd'
      obtain ⟨d, hd, rfl⟩ := hd'
      show (d.body.targets.insert path record).get? p = some r ↔ _
      rw [Dict.get?_insert]
      by_cases hp : p = path
      · rw [if_pos hp, if_pos hp, hp]
        exact ⟨fun hr => ⟨hlocate, hr⟩, fun hr => hr.2⟩
      · rw [if_neg hp, if_neg hp]
        exact h.targets i d hd p r
    · rw [if_neg hij] at hd'
      rw [h.targets j d' hd' p r]
      by_cases hp : p = path
      · have hne : ¬g.locate p = .ok j := by
          rw [hp, hlocate, Except.ok.injEq]
          exact hij
        exact ⟨fun hr => absurd hr.1 hne, fun hr => absurd hr.1 hne⟩
      · rw [if_neg hp]

/-- A pass of signing leaves every body as it is. -/
theorem bodies_signing {parentSigner binSigner : Signer σ} {calls : List Signer.Call}
    {report : SigningReport} (h : g.Signing parentSigner binSigner calls (.ok (report, g'))) :
    g'.parent.body = g.parent.body ∧ g'.bins.map (·.body) = g.bins.map (·.body) := by
  cases h with
  | @passed own calls parent bins hkey hparent hbins =>
    exact ⟨hparent.role_body.2, hbins.map_eq fun _ _ _ hbody => hbody⟩

/-- A graph with the same outline and the same bodies holds the same targets. -/
theorem Holds.congr (h : g.Holds contents) (houtline : g'.outline = g.outline)
    (hbodies : g'.bins.map (·.body) = g.bins.map (·.body)) : g'.Holds contents := by
  have hlocate (path : String) : g'.locate path = g.locate path := locate_of_outline houtline
  constructor
  · intro path record hpath
    rw [hlocate]
    exact h.located path record hpath
  · intro i d' hd' path record
    have hbody : (g.bins.map (·.body))[i]? = some d'.body := by
      rw [← hbodies, List.getElem?_map, hd']
      rfl
    rw [List.getElem?_map, Option.map_eq_some_iff] at hbody
    obtain ⟨d, hd, heq⟩ := hbody
    rw [← heq, hlocate]
    exact h.targets i d hd path record

/-- A step enters the targets that it filed, the last record of a path over the earlier ones. -/
theorem Holds.step {filed : List (String × TargetRecord)} {event : Event σ}
    (h : g.Holds (.ofList filed)) (hstep : g.Step event g') :
    g'.Holds (.ofList (filed ++ event.filed)) := by
  cases hstep with
  | @filed path bin record _ hfile =>
    show g'.Holds (.ofList (filed ++ [(path, record)]))
    rw [Dict.ofList_append]
    exact h.file hfile
  | filedAll hfile =>
    obtain ⟨-, heach⟩ := fileEach_of_fileAll hfile
    refine fileEach_induction (P := fun done g' => g'.Holds (.ofList (filed ++ done))) heach ?_ ?_
    · rwa [List.append_nil]
    · intro done path record bin g₁ g₂ hpast hfile
      rw [← List.append_assoc, Dict.ofList_append]
      exact hpast.file hfile
  | signed hsigning =>
    show g'.Holds (.ofList (filed ++ []))
    rw [List.append_nil]
    exact h.congr (outline_signing hsigning) (bodies_signing hsigning).2
  | @refused operation e =>
    have hnone : (⟨operation, .error e, []⟩ : Event σ).filed = [] := by
      cases operation <;> rfl
    rw [hnone, List.append_nil]
    exact h

/-! ## All bins together -/

/-- The bins have the entries of the dictionary, each once. -/
theorem Holds.perm_entries (h : g.Holds contents) (hindexed : g.Indexed) :
    (g.bins.flatMap (·.body.targets.entries)).Perm contents.entries := by
  have hmem {i : Nat} {d : Document BinBody} (hd : g.bins[i]? = some d) {path : String}
      {record : TargetRecord} : (path, record) ∈ d.body.targets.entries ↔
        g.locate path = .ok i ∧ (path, record) ∈ contents.entries := by
    rw [Dict.mem_entries, Dict.mem_entries]
    exact h.targets i d hd path record
  refine (List.perm_ext_iff_of_nodup ?_ contents.nodup_entries).2 ?_
  · -- An entry of two bins would be located at both.
    refine List.nodup_flatMap.2 ⟨fun d _ => d.body.targets.nodup_entries, ?_⟩
    refine List.pairwise_iff_getElem.2 ?_
    intro i j hi hj hij
    rintro ⟨path, record⟩ hentry hentry'
    have hone := ((hmem (List.getElem?_eq_getElem hi)).1 hentry).1
    have htwo := ((hmem (List.getElem?_eq_getElem hj)).1 hentry').1
    rw [hone, Except.ok.injEq] at htwo
    omega
  · rintro ⟨path, record⟩
    rw [List.mem_flatMap]
    constructor
    · rintro ⟨d, hd, hentry⟩
      obtain ⟨i, hi⟩ := List.mem_iff_getElem?.1 hd
      exact ((hmem hi).1 hentry).2
    · intro hentry
      obtain ⟨i, hi⟩ := h.located path record (Dict.mem_entries.1 hentry)
      have hlt := lt_of_locate hindexed hi
      exact ⟨_, List.getElem_mem hlt, (hmem (List.getElem?_eq_getElem hlt)).2 ⟨hi, hentry⟩⟩

/-- The number of targets is the number of entries of the dictionary. -/
theorem Holds.targetCount_eq (h : g.Holds contents) (hindexed : g.Indexed) :
    g.targetCount = contents.size := by
  rw [Dict.size, ← (h.perm_entries hindexed).length_eq, List.length_flatMap]
  rfl

/-- A path of the dictionary stands in one bin. -/
theorem Holds.filter_contains (h : g.Holds contents) (hindexed : g.Indexed) {path : String}
    (hpath : contents.contains path = true) :
    ∃ i d, g.locate path = .ok i ∧ g.bins[i]? = some d ∧
      g.bins.filter (·.body.targets.contains path) = [d] := by
  obtain ⟨record, hrecord⟩ := Option.isSome_iff_exists.1 hpath
  obtain ⟨i, hi⟩ := h.located path record hrecord
  have hlt := lt_of_locate hindexed hi
  have hd : g.bins[i]? = some g.bins[i] := List.getElem?_eq_getElem hlt
  refine ⟨i, _, hi, hd, filter_eq_singleton hd ?_⟩
  intro j d' hd'
  rw [Dict.contains, Option.isSome_iff_exists]
  constructor
  · rintro ⟨other, hother⟩
    have hj := ((h.targets j d' hd' path other).1 hother).1
    rw [hi, Except.ok.injEq] at hj
    exact hj.symm
  · rintro rfl
    exact ⟨record, (h.targets j d' hd' path record).2 ⟨hi, hrecord⟩⟩

/-! ## Runs -/

variable {settings : Settings} {key : KeyRecord} {g₀ : Graph} {operations : List (Operation σ)}
  {events : List (Event σ)} {world : σ}

/-- After a run, a graph holds what was filed. -/
theorem holds_run (hbuild : build settings key = .ok g₀)
    (hrun : (g₀.run operations world).1 = (events, g)) :
    g.Holds (lastFiled events) := by
  refine run_induction (P := fun past g => g.Holds (lastFiled past)) hrun ?_ ?_
  · obtain ⟨keyId, parentExpires, binExpires, -, rfl⟩ := exists_fresh_of_build hbuild
    -- A new graph has empty bins, and holds the empty dictionary.
    constructor
    · intro path record hnone
      cases hnone
    · intro i d hd path record
      obtain ⟨b, -, rfl⟩ := List.mem_map.1 (List.mem_of_getElem? hd)
      constructor
      · intro hnone
        cases hnone
      · rintro ⟨-, hnone⟩
        cases hnone
  · intro past event g₁ g₂ hpast hstep
    rw [lastFiled, List.flatMap_append, List.flatMap_singleton]
    exact hpast.step hstep

/-- A target that is filed in a run is filed into the bin of its path by arithmetic. -/
theorem bin_of_filed (hbuild : build settings key = .ok g₀)
    (hrun : (g₀.run operations world).1 = (events, g)) {event : Event σ} (hevent : event ∈ events)
    {path : String} {record : TargetRecord} {answer : Answer}
    (hoperation : event.operation = .file path record) (hanswer : event.answer = .ok answer) :
    ∃ bin, answer = .filed bin ∧ settings.partition.binForPath path = .ok bin := by
  obtain ⟨keyId, parentExpires, binExpires, -, rfl⟩ := exists_fresh_of_build hbuild
  -- The outline goes along in the induction, since the place of a path depends on it.
  have hboth := run_induction (P := fun past g =>
    g.outline = (fresh settings key keyId parentExpires binExpires).outline ∧
      ∀ event ∈ past, ∀ path record answer, event.operation = .file path record →
        event.answer = .ok answer →
          ∃ bin, answer = .filed bin ∧ settings.partition.binForPath path = .ok bin)
    hrun ⟨rfl, fun _ h => absurd h List.not_mem_nil⟩ ?_
  · exact hboth.2 event hevent path record answer hoperation hanswer
  · rintro past event g₁ g₂ ⟨houtline, hpast⟩ hstep
    refine ⟨(outline_step hstep).trans houtline, ?_⟩
    intro event' hevent' path record answer hoperation hanswer
    rcases List.mem_append.1 hevent' with hearlier | hlast
    · exact hpast event' hearlier path record answer hoperation hanswer
    · rw [List.mem_singleton] at hlast
      subst hlast
      -- Only filing a single target answers with the name of a bin.
      cases hstep with
      | @filed path bin record _ hfile =>
        cases hoperation
        cases hanswer
        obtain ⟨i, hlocate, -, rfl, -⟩ := file_eq_ok.1 hfile
        obtain ⟨-, hi, hbin⟩ := (locate_iff houtline).1 hlocate
        obtain ⟨d, hd, hrole⟩ := exists_getElem?_bins houtline hi
        exact ⟨_, rfl, by rw [hbin, roleAt_eq hd, hrole]⟩
      | filedAll hfile => cases hoperation
      | signed hsigning => cases hoperation
      | refused => cases hanswer

/-- A refused operation leaves the graph as it was, and signing leaves the targets as they were. -/
theorem targets_perform {operation : Operation σ} {event : Event σ}
    (h : (g.perform operation world).1 = (event, g')) :
    (∀ e, event.answer = .error e → g' = g) ∧
      (∀ parentSigner binSigner, operation = .sign parentSigner binSigner →
        g'.parent.body.targets = g.parent.body.targets ∧
          g'.bins.map (·.body.targets) = g.bins.map (·.body.targets)) := by
  refine ⟨fun e hanswer => graph_perform_of_error h hanswer, ?_⟩
  intro parentSigner binSigner hsign
  have hstep := g.step_perform operation world
  have hoperation := g.operation_perform operation world
  rw [h] at hstep hoperation
  cases hstep with
  | filed hfile => cases hoperation.trans hsign
  | filedAll hfile => cases hoperation.trans hsign
  | signed hsigning =>
    obtain ⟨hparent, hbins⟩ := bodies_signing hsigning
    have htargets := congrArg (List.map (·.targets)) hbins
    simp only [List.map_map] at htargets
    exact ⟨by rw [hparent], htargets⟩
  | refused => exact ⟨rfl, rfl⟩

/-- In every graph that is reached from a build, the bins together hold the last record of each path
that was filed: each path in the one bin that arithmetic names for it, which is the one found under
that name, and the name is also what filing answered with. Neither signing nor a refused operation
changes what they hold. -/
theorem contents_of_run (hbuild : build settings key = .ok g₀)
    (hrun : (g₀.run operations world).1 = (events, g)) :
    (g.bins.flatMap (·.body.targets.entries)).Perm (lastFiled events).entries ∧
      g.parent.body.targets = .empty ∧
      g.targetCount = (lastFiled events).size ∧
      (∀ path, (lastFiled events).contains path = true → ∃ d,
        settings.partition.binForPath path = .ok d.role ∧ g.bin? d.role = some d ∧
          g.bins.filter (·.body.targets.contains path) = [d]) ∧
      (∀ event ∈ events, ∀ path record answer, event.operation = .file path record →
        event.answer = .ok answer →
          ∃ bin, answer = .filed bin ∧ settings.partition.binForPath path = .ok bin) ∧
      ∀ (operation : Operation σ) (world : σ) (event : Event σ) (g' : Graph),
        (g.perform operation world).1 = (event, g') →
          (∀ e, event.answer = .error e → g' = g) ∧
            ∀ parentSigner binSigner, operation = .sign parentSigner binSigner →
              g'.parent.body.targets = g.parent.body.targets ∧
                g'.bins.map (·.body.targets) = g.bins.map (·.body.targets) := by
  have hholds := holds_run hbuild hrun
  obtain ⟨keyId, parentExpires, binExpires, hg⟩ := exists_outline_eq_fresh hbuild hrun
  have hindexed := indexed_run hbuild hrun
  -- The contents follow from the invariant, and the bin of a path from the index and from
  -- arithmetic, which agree as long as no operation changes the roles.
  refine ⟨hholds.perm_entries hindexed, ?_, hholds.targetCount_eq hindexed, ?_, ?_, ?_⟩
  · rw [parentBody_of_outline hg]
    rfl
  · intro path hpath
    obtain ⟨i, d, hlocate, hd, hfilter⟩ := hholds.filter_contains hindexed hpath
    obtain ⟨-, -, hbin⟩ := (locate_iff hg).1 hlocate
    have hfound : g.bin? d.role = some d := hindexed.bin?_eq_some.2 ⟨i, hd, rfl⟩
    exact ⟨d, by rw [hbin, (role_of_getElem? hg hd).2], hfound, hfilter⟩
  · intro event hevent path record answer hoperation hanswer
    exact bin_of_filed hbuild hrun hevent hoperation hanswer
  · intro operation world event g' hperform
    exact targets_perform hperform

/-- The small delegation refuses its last operation and holds one target. -/
theorem contents_of_sample : ∃ g₀ events g, build Sample.settings Sample.key = .ok g₀ ∧
    (g₀.run Sample.operations 0).1 = (events, g) ∧
    events.map (·.answer.isOk) = [true, true, true, true, false] ∧
    (g.bins.flatMap (·.body.targets.entries)).Perm (lastFiled events).entries ∧
    (lastFiled events).size = 1 := by
  obtain ⟨g₀, events, g, hbuild, hrun, hanswers, -, hone⟩ := Sample.exists_run
  obtain ⟨hperm, -, hcount, -⟩ := contents_of_run hbuild hrun
  exact ⟨g₀, events, g, hbuild, hrun, hanswers, hperm, hcount.symm.trans hone⟩

end BinDelegation.Graph
