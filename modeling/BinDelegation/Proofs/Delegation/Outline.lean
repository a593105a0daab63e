import BinDelegation.Proofs.Delegation.Run
import BinDelegation.Proofs.Dict.Lookup
import BinDelegation.Proofs.Partition.Paths
import BinDelegation.Proofs.Selection

/-!
# What a run leaves alone

The outline of a graph is the graph without targets, states and signatures. No operation changes it,
so a graph that is reached from a build has the settings, the parent body, the bins, the index and
the names that the build gave it, and paths are located in it by arithmetic.

That an operation keeps the outline is shown for its steps: a target in a bin changes what the
outline leaves out, and so does a signature (`outline_step`). A run keeps it by induction. What is
built is `fresh`, a graph written out in full, so `exists_outline_eq_fresh` turns a question about
any graph of a run into one about the partition and the key.

The second part reads the outline: the roles of the parent and the bin documents are in the order of
the bins, one for each, the index has their positions, and a path is located at the bin that has the
name of its bin by arithmetic (`locate_iff`). Here the index and the arithmetic of names come
together, since the index is filled with the names of the bins and asked for the name that the hash
of a path gives.

A small delegation at the end serves as the example for all results about runs.
-/

namespace BinDelegation

namespace Graph

/-! ## Outlines -/

/-- A bin document without targets, state and signatures. -/
def outlineBin (d : Document BinBody) : Document BinBody where
  role := d.role
  body := { d.body with targets := .empty }

/-- The graph without targets, states and signatures. -/
def outline (g : Graph) : Graph where
  settings := g.settings
  parent := { role := g.parent.role, body := g.parent.body }
  bins := g.bins.map outlineBin
  index := g.index

/-- Paths are located by the outline alone. -/
theorem locate_of_outline {g g' : Graph} {path : String} (h : g'.outline = g.outline) :
    g'.locate path = g.locate path := by
  have hsettings : g'.outline.settings = g.outline.settings := congrArg Graph.settings h
  have hindex : g'.outline.index = g.outline.index := congrArg Graph.index h
  exact locate_congr hsettings hindex

/-- A target in a bin is not in the outline. -/
theorem outline_insertAt {g : Graph} {i : Nat} {path : String} {record : TargetRecord} :
    (g.insertAt i path record).outline = g.outline := by
  have hbins : (g.insertAt i path record).bins.map outlineBin = g.bins.map outlineBin := by
    apply List.ext_getElem?
    intro j
    rw [List.getElem?_map, List.getElem?_map, getElem?_bins_insertAt]
    split
    · cases g.bins[j]? <;> rfl
    · rfl
  rw [outline, hbins]
  rfl

/-- Filing a target keeps the outline. -/
theorem outline_file {g g' : Graph} {path bin : String} {record : TargetRecord}
    (h : g.file path record = .ok (bin, g')) : g'.outline = g.outline := by
  obtain ⟨i, -, -, -, rfl⟩ := file_eq_ok.1 h
  exact outline_insertAt

variable {σ : Type}

/-- A pass of signing keeps the outline. -/
theorem outline_signing {g g' : Graph} {parentSigner binSigner : Signer σ}
    {calls : List Signer.Call} {report : SigningReport}
    (h : g.Signing parentSigner binSigner calls (.ok (report, g'))) : g'.outline = g.outline := by
  cases h with
  | @passed own calls parent bins hkey hparent hbins =>
    obtain ⟨hrole, hbody⟩ := hparent.role_body
    have hmap : (bins.map (·.2)).map outlineBin = g.bins.map outlineBin := by
      apply hbins.map_eq
      intro d d' hrole hbody
      simp only [outlineBin, hrole, hbody]
    simp only [outline, hrole, hbody, hmap]

variable {g g' : Graph} {operations : List (Operation σ)} {events : List (Event σ)}
  {world : σ}

/-- A step keeps the outline. -/
theorem outline_step {event : Event σ} (h : g.Step event g') : g'.outline = g.outline := by
  cases h with
  | filed hfile => exact outline_file hfile
  | filedAll hfile =>
    obtain ⟨-, heach⟩ := fileEach_of_fileAll hfile
    refine fileEach_induction (P := fun _ g' => g'.outline = g.outline) heach rfl ?_
    intro _ path record bin g₁ g₂ hpast hfile
    exact (outline_file hfile).trans hpast
  | signed hsigning => exact outline_signing hsigning
  | refused => rfl

/-- A run keeps the outline. -/
theorem outline_run (h : (g.run operations world).1 = (events, g')) : g'.outline = g.outline :=
  run_induction (P := fun _ g' => g'.outline = g.outline) h rfl
    fun _ _ _ _ hpast hstep => (outline_step hstep).trans hpast

/-! ## The graph that is built -/

/-- A new graph, from settings, a key with its id, and the moments at which the parent and the bins
expire. -/
def fresh (settings : Settings) (key : KeyRecord) (keyId parentExpires binExpires : String) :
    Graph where
  settings := settings
  parent :=
    { role := settings.parentRole
      body :=
        { specVersion := settings.specVersion
          expires := parentExpires
          delegations :=
            { keys := .singleton keyId key
              roles := settings.partition.bins.map (roleSpec keyId) } }
      state := .populated }
  bins := settings.partition.bins.map fun b =>
    { role := b.name, body := { specVersion := settings.specVersion, expires := binExpires } }
  index := indexOf settings.partition.bins

/-- The index of a new graph is right, since no two bins have the same name. -/
theorem indexed_fresh {settings : Settings} {key : KeyRecord}
    {keyId parentExpires binExpires : String} :
    (fresh settings key keyId parentExpires binExpires).Indexed := by
  intro name i
  refine (getElem?_indexOf settings.partition.nodup_names).trans ?_
  simp only [fresh, List.getElem?_map]
  cases settings.partition.bins[i]? <;> simp

/-- Building makes a new graph, for the id of the key. -/
theorem exists_fresh_of_build {settings : Settings} {key : KeyRecord}
    (h : build settings key = .ok g) :
    ∃ keyId parentExpires binExpires, key.keyId = .ok keyId ∧
      g = fresh settings key keyId parentExpires binExpires := by
  obtain ⟨_, -, h⟩ := bind_eq_ok.1 h
  obtain ⟨keyId, hkeyId, h⟩ := bind_eq_ok.1 h
  obtain ⟨binExpires, -, h⟩ := bind_eq_ok.1 h
  obtain ⟨_, -, h⟩ := bind_eq_ok.1 h
  obtain ⟨parentExpires, -, h⟩ := bind_eq_ok.1 h
  cases h
  refine ⟨keyId, parentExpires, binExpires, ?_, rfl⟩
  cases hid : key.keyId with
  | error e => rw [hid] at hkeyId; cases hkeyId
  | ok id => rw [hid] at hkeyId; cases hkeyId; rfl

/-- A graph that is reached from a build has the outline of a new graph. -/
theorem exists_outline_eq_fresh {settings : Settings} {key : KeyRecord} {g₀ : Graph}
    (hbuild : build settings key = .ok g₀) (hrun : (g₀.run operations world).1 = (events, g)) :
    ∃ keyId parentExpires binExpires,
      g.outline = (fresh settings key keyId parentExpires binExpires).outline := by
  obtain ⟨keyId, parentExpires, binExpires, -, rfl⟩ := exists_fresh_of_build hbuild
  exact ⟨keyId, parentExpires, binExpires, outline_run hrun⟩

/-! ## Reading the outline -/

section

variable {settings : Settings} {key : KeyRecord} {keyId parentExpires binExpires : String}
  (hg : g.outline = (fresh settings key keyId parentExpires binExpires).outline)

include hg

theorem settings_of_outline : g.settings = settings :=
  congrArg Graph.settings hg

/-- The body of the parent is that of a new graph. -/
theorem parentBody_of_outline :
    g.parent.body = (fresh settings key keyId parentExpires binExpires).parent.body :=
  congrArg (·.parent.body) hg

/-- The parent has the key that the graph was built with, and no other. -/
theorem keys_of_outline : g.parent.body.delegations.keys = .singleton keyId key :=
  congrArg (·.parent.body.delegations.keys) hg

/-- The bin documents have the names of the bins, in their order. -/
theorem roles_of_outline :
    g.bins.map (·.role) = settings.partition.bins.map (·.name) := by
  have hroles := congrArg (fun g => g.bins.map (·.role)) hg
  simp only [outline, fresh, List.map_map] at hroles
  exact hroles

/-- The index is right in every graph that is reached from a build. -/
theorem indexed_of_outline : g.Indexed := by
  have hindex : g.outline.index
      = (fresh settings key keyId parentExpires binExpires).outline.index :=
    congrArg Graph.index hg
  have hfresh : (fresh settings key keyId parentExpires binExpires).Indexed := indexed_fresh
  refine hfresh.congr hindex ?_
  rw [roles_of_outline hg]
  simp only [fresh, List.map_map]
  rfl

/-- The roles of the parent are the entries of the bins, in their order. -/
theorem getElem?_roles {i : Nat} (hi : i < settings.partition.count) :
    g.parent.body.delegations.roles[i]? = some (roleSpec keyId (settings.partition.binAt i)) := by
  rw [parentBody_of_outline hg]
  show (settings.partition.bins.map (roleSpec keyId))[i]? = _
  rw [List.getElem?_map, settings.partition.getElem?_bins hi, Option.map_some]

/-- Every role of the parent is the entry of the bin at its place. -/
theorem eq_of_getElem?_roles {i : Nat} {role : RoleSpec}
    (h : g.parent.body.delegations.roles[i]? = some role) :
    i < settings.partition.count ∧ role = roleSpec keyId (settings.partition.binAt i) := by
  have hi : i < settings.partition.count := by
    rw [parentBody_of_outline hg] at h
    obtain ⟨hlt, -⟩ := List.getElem?_eq_some_iff.1 h
    have hlength : (settings.partition.bins.map (roleSpec keyId)).length
        = settings.partition.count := by rw [List.length_map, Partition.length_bins]
    exact hlength ▸ hlt
  rw [getElem?_roles hg hi, Option.some.injEq] at h
  exact ⟨hi, h.symm⟩

/-- One role of the parent has the name of a bin: the entry of the bin. -/
theorem filter_roles_name {i : Nat} (hi : i < settings.partition.count) :
    g.parent.body.delegations.roles.filter (·.name == (settings.partition.binAt i).name)
      = [roleSpec keyId (settings.partition.binAt i)] := by
  refine filter_eq_singleton (getElem?_roles hg hi) ?_
  intro j role hrole
  obtain ⟨hj, rfl⟩ := eq_of_getElem?_roles hg hrole
  rw [beq_iff_eq]
  exact ⟨settings.partition.name_binAt_inj hj hi, fun h => h ▸ rfl⟩

/-- The bin documents stand in the order of the bins, under their names. -/
theorem role_of_getElem? {i : Nat} {d : Document BinBody} (hd : g.bins[i]? = some d) :
    i < settings.partition.count ∧ d.role = (settings.partition.binAt i).name := by
  have hrole : (g.bins.map (·.role))[i]? = some d.role := by rw [List.getElem?_map, hd]; rfl
  rw [roles_of_outline hg, List.getElem?_map, Option.map_eq_some_iff] at hrole
  obtain ⟨b, hb, hname⟩ := hrole
  obtain ⟨hi, rfl⟩ := settings.partition.getElem?_bins_eq_some hb
  exact ⟨hi, hname.symm⟩

/-- There is a document for every bin. -/
theorem exists_getElem?_bins {i : Nat} (hi : i < settings.partition.count) :
    ∃ d, g.bins[i]? = some d ∧ d.role = (settings.partition.binAt i).name := by
  have hlength : g.bins.length = settings.partition.count := by
    have := congrArg List.length (roles_of_outline hg)
    rwa [List.length_map, List.length_map, Partition.length_bins] at this
  have hd : g.bins[i]? = some g.bins[i] := List.getElem?_eq_getElem (by omega)
  exact ⟨_, hd, (role_of_getElem? hg hd).2⟩

/-- A path is located at the bin that has the name of its bin by arithmetic. -/
theorem locate_iff {path : String} {i : Nat} :
    g.locate path = .ok i ↔ path ≠ "" ∧ i < settings.partition.count ∧
      settings.partition.binForPath path = .ok (settings.partition.binAt i).name := by
  rw [locate_eq_ok, settings_of_outline hg]
  refine and_congr_right fun _ => ⟨?_, ?_⟩
  · rintro ⟨name, hname, hindex⟩
    obtain ⟨d, hd, rfl⟩ := (indexed_of_outline hg name i).1 hindex
    obtain ⟨hi, hrole⟩ := role_of_getElem? hg hd
    exact ⟨hi, hrole ▸ hname⟩
  · rintro ⟨hi, hname⟩
    exact ⟨_, hname, (indexed_of_outline hg _ i).2 (exists_getElem?_bins hg hi)⟩

/-- A path is located at the document of the bin that has its name by arithmetic. -/
theorem locate_iff_role {path : String} {i : Nat} {d : Document BinBody}
    (hd : g.bins[i]? = some d) : g.locate path = .ok i ↔
      path ≠ "" ∧ settings.partition.binForPath path = .ok d.role := by
  obtain ⟨hi, hrole⟩ := role_of_getElem? hg hd
  rw [locate_iff hg, hrole]
  exact and_congr_right fun _ => and_iff_right hi

end

/-- No operation of a run makes the index wrong. -/
theorem indexed_run {settings : Settings} {key : KeyRecord} {g₀ : Graph}
    (hbuild : build settings key = .ok g₀) (hrun : (g₀.run operations world).1 = (events, g)) :
    g.Indexed := by
  obtain ⟨keyId, parentExpires, binExpires, hg⟩ := exists_outline_eq_fresh hbuild hrun
  exact indexed_of_outline hg

end Graph

/-! ## A small delegation

Two bins, and a run in which the signature of the bin of a path is refused at first, so that the
path gets another record before the bin is signed, and none after.
-/

namespace Sample

/-- Settings with two bins, issued at the beginning of a year. -/
def settings : Settings where
  partition := ⟨1, by decide⟩
  issuedAt := ⟨63871632000 * nanosPerSecond, 0, by decide +kernel⟩

/-- A key that is no key of Ed25519, which nothing here asks for. -/
def key : KeyRecord := ⟨"k", "s", "0f"⟩

/-- The id of this key. -/
def keyId : String :=
  match key.keyId with
  | .ok keyId => keyId
  | .error _ => ""

/-- Counts its calls, signs with their number, and fails at the second. -/
def signer : Signer Nat where
  keyId := keyId
  sign _ calls :=
    (if calls = 1 then .error (.signing "" "busy") else .ok ⟨keyId, toString calls⟩, calls + 1)

/-- A target is filed and its bin refused by the signer, the target gets another record in a batch,
all documents are signed, and a target comes too late. -/
def operations : List (Operation Nat) :=
  let first := TargetRecord.ofSha256 1 "00"
  let second := TargetRecord.ofSha256 2 "00"
  [.file "b" first, .sign signer signer, .fileAll [("b", first), ("b", second)],
    .sign signer signer, .file "b" first]

/-- Whether the delegation is built, and its run accepts all operations but the last and ends with
every document signed and one target filed. -/
def runsAsExpected : Bool :=
  match Graph.build settings key with
  | .ok g =>
    (g.run operations 0).1.1.map (·.answer.isOk) == [true, true, true, true, false]
      && (g.run operations 0).1.2.isFullySigned && (g.run operations 0).1.2.targetCount == 1
  | .error _ => false

/-- The run goes as expected, in one evaluation. -/
theorem exists_run : ∃ g₀ events g, Graph.build settings key = .ok g₀ ∧
    (g₀.run operations 0).1 = (events, g) ∧
    events.map (·.answer.isOk) = [true, true, true, true, false] ∧ g.isFullySigned = true ∧
    g.targetCount = 1 := by
  have hrun : runsAsExpected = true := by decide +kernel
  rw [runsAsExpected] at hrun
  cases hbuild : Graph.build settings key with
  | error e =>
    rw [hbuild] at hrun
    cases hrun
  | ok g₀ =>
    simp only [hbuild, Bool.and_eq_true, beq_iff_eq] at hrun
    exact ⟨g₀, _, _, rfl, rfl, hrun.1.1, hrun.1.2, hrun.2⟩

end Sample

end BinDelegation
