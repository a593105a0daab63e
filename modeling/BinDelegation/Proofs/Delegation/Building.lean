import BinDelegation.Proofs.Ascent
import BinDelegation.Proofs.Delegation.Outline
import BinDelegation.Proofs.Document.Reload
import BinDelegation.Proofs.Partition.Names

/-!
# Building a delegation

Building repeats steps that the checks of the settings have made before, and takes others that
cannot fail. So it fails as the checks do and in no other way, and what it gives is a new graph: the
roles of the parent, the bin documents and the bins of the partition are three lists of the same
names, and the index leads from each name to its place in them.

What the checks establish is put down once (`Settings.Checked`), and building needs nothing else:
both expiries can be written, a key always has an id, and the bins of a partition ascend
(`build_of_checked`). The new graph has a name of its own, `fresh`, so that all that is said of a
graph that has been built can be said of it.

The index is filled from the bins in order, and no two bins have one name. So it answers with the
position of a role for the name of that role and with nothing for any other text
(`getElem?_index_fresh`), and the document at this position is the one of the role (`bin?_fresh`).
-/

namespace BinDelegation

/-! ## What the checks establish -/

namespace Settings

variable {s : Settings}

/-- A condition that is required holds. -/
theorem require_eq_ok {condition : Bool} {reason : String} :
    require condition reason = .ok () ↔ condition = true := by
  rw [require]
  cases condition with
  | false => exact iff_of_false (fun h => by cases h) Bool.false_ne_true
  | true => exact iff_of_true rfl rfl

/-- What is known of settings that pass the checks: both lifetimes end at moments that can be
written, and the role of the parent is a role name that no bin has. -/
structure Checked (s : Settings) (parentExpires binExpires : String) : Prop where
  parentExpires : s.parentExpires = .ok parentExpires
  binExpires : s.binExpires = .ok binExpires
  parentRole : RoleName.isValid s.parentRole = true
  parentRole_ne : s.partition.isBinName s.parentRole = false

/-- Settings that pass the checks have all that the checks establish. -/
theorem exists_checked_of_validate (h : s.validate = .ok ()) :
    ∃ parentExpires binExpires, s.Checked parentExpires binExpires := by
  cases hversion : SpecVersion.parse s.specVersion with
  | error e =>
    simp only [validate, hversion] at h
    cases h
  | ok version =>
    simp only [validate, hversion] at h
    -- The checks are taken off one by one, in the order in which they are made.
    obtain ⟨_, -, h⟩ := bind_eq_ok.1 h
    obtain ⟨_, -, h⟩ := bind_eq_ok.1 h
    obtain ⟨parentExpires, hparent, h⟩ := bind_eq_ok.1 h
    obtain ⟨binExpires, hbin, h⟩ := bind_eq_ok.1 h
    obtain ⟨_, hvalid, hcollision⟩ := bind_eq_ok.1 h
    have hcollision := require_eq_ok.1 hcollision
    rw [Bool.not_eq_true'] at hcollision
    exact ⟨parentExpires, binExpires, hparent, hbin, require_eq_ok.1 hvalid, hcollision⟩

/-- The role of the parent is not the name of a bin. -/
theorem Checked.name_ne {parentExpires binExpires : String} (h : s.Checked parentExpires binExpires)
    {i : Nat} (hi : i < s.partition.count) : (s.partition.binAt i).name ≠ s.parentRole := by
  intro heq
  have hrecognized := s.partition.isBinName_iff.2 ⟨i, hi, heq⟩
  rw [h.parentRole_ne] at hrecognized
  cases hrecognized

end Settings

/-- Every key has an id. -/
theorem KeyRecord.exists_keyId (key : KeyRecord) : ∃ keyId, key.keyId = .ok keyId := by
  rw [keyId, exists_map_eq_ok, KeyRecord.codec.exists_canonicalBytes_iff]
  exact fun _ h => absurd h List.not_mem_nil

/-! ## What building gives -/

namespace Graph

variable {settings : Settings} {key : KeyRecord} {keyId parentExpires binExpires : String}

/-- Building fails as the checks do. -/
theorem build_of_error {e : Failure} (h : settings.validate = .error e) :
    build settings key = .error e := by
  rw [build, h]
  rfl

/-- Settings that pass the checks are built into a new graph. -/
theorem build_of_checked (hvalidate : settings.validate = .ok ())
    (hchecked : settings.Checked parentExpires binExpires) (hkey : key.keyId = .ok keyId) :
    build settings key = .ok (fresh settings key keyId parentExpires binExpires) := by
  have hascent : Ascent.ensure settings.partition.bins (·.low) = .ok () :=
    Ascent.ensure_eq_ok.2 settings.partition.ascending_lows
  simp only [build, hvalidate, hkey, hchecked.binExpires, hchecked.parentExpires, hascent]
  rfl

/-- A graph that is built comes from settings that pass the checks. -/
theorem validate_of_build {g : Graph} (h : build settings key = .ok g) :
    settings.validate = .ok () := by
  obtain ⟨_, hvalidate, -⟩ := bind_eq_ok.1 h
  exact hvalidate

/-- The index of a new graph has, for each text, the position of the role of that name. -/
theorem getElem?_index_fresh {name : String} {i : Nat} :
    (fresh settings key keyId parentExpires binExpires).index[name]? = some i ↔
      ∃ spec, (settings.partition.bins.map (roleSpec keyId))[i]? = some spec ∧
        spec.name = name := by
  refine (getElem?_indexOf settings.partition.nodup_names).trans ?_
  rw [List.getElem?_map]
  cases settings.partition.bins[i]? <;> simp [roleSpec]

/-- The bin document that is found under the name of a role stands where the role stands. -/
theorem bin?_fresh {i : Nat} {spec : RoleSpec}
    (hspec : (settings.partition.bins.map (roleSpec keyId))[i]? = some spec) :
    (fresh settings key keyId parentExpires binExpires).bin? spec.name
      = (fresh settings key keyId parentExpires binExpires).bins[i]? := by
  rw [bin?, getElem?_index_fresh.2 ⟨spec, hspec, rfl⟩]
  rfl

/-- There is a bin document for every role of the parent of a new graph, and for no other text. -/
theorem isSome_bin?_fresh {role : String} :
    ((fresh settings key keyId parentExpires binExpires).bin? role).isSome = true ↔
      ∃ b ∈ settings.partition.bins, b.name = role := by
  rw [indexed_fresh.isSome_bin?, fresh]
  simp only [List.mem_map, exists_exists_and_eq_and]

/-- Building fails exactly as the checks of the settings do. Settings that pass them are built, for
any key, into a parent that has this key alone and delegates to each bin of the partition in order,
and into an empty document for each bin. The prefix texts of the roles, one list behind the other,
are all texts of lower-case digits of the width of the partition in strictly ascending order. The
index leads from the name of every role to its place in the list, where its document stands too, and
from no other text anywhere. So there is a document for the name of every role in the list and for
no other text, and a state and signatures for these and for the role of the parent. -/
theorem build_of_settings (settings : Settings) (key : KeyRecord) :
    (∀ e, settings.validate = .error e → build settings key = .error e) ∧
    (settings.validate = .ok () → ∃ g keyId parentExpires binExpires,
      build settings key = .ok g ∧ key.keyId = .ok keyId ∧
      settings.parentExpires = .ok parentExpires ∧ settings.binExpires = .ok binExpires ∧
      g.parent.role = settings.parentRole ∧ g.parent.body.expires = parentExpires ∧
      g.parent.body.delegations.keys = .singleton keyId key ∧
      g.parent.body.delegations.roles = settings.partition.bins.map (fun b =>
        { name := b.name, keyIds := [keyId], threshold := 1, terminating := false,
          pathHashPrefixes := b.hashPrefixes }) ∧
      (g.parent.body.delegations.roles.flatMap (·.pathHashPrefixes)).Pairwise (· < ·) ∧
      (∀ s, s ∈ g.parent.body.delegations.roles.flatMap (·.pathHashPrefixes) ↔
        s.toList.length = settings.partition.width ∧
          ∀ c ∈ s.toList, Hex.isLowerDigit c = true) ∧
      g.bins = settings.partition.bins.map (fun b =>
        { role := b.name, state := .empty, signatures := [],
          body := { specVersion := settings.specVersion, version := 1, expires := binExpires } }) ∧
      (∀ (name : String) (i : Nat), g.index[name]? = some i ↔
        ∃ spec, g.parent.body.delegations.roles[i]? = some spec ∧ spec.name = name) ∧
      (∀ (i : Nat) (spec : RoleSpec), g.parent.body.delegations.roles[i]? = some spec →
        g.bin? spec.name = g.bins[i]?) ∧
      (∀ role, (g.bin? role).isSome = true ↔
        ∃ spec ∈ g.parent.body.delegations.roles, spec.name = role) ∧
      ∀ role, ((g.stateOf? role).isSome = true ↔ role = settings.parentRole ∨
          ∃ spec ∈ g.parent.body.delegations.roles, spec.name = role) ∧
        ((g.signaturesOf? role).isSome = true ↔ role = settings.parentRole ∨
          ∃ spec ∈ g.parent.body.delegations.roles, spec.name = role)) := by
  refine ⟨fun e => build_of_error, fun hvalidate => ?_⟩
  obtain ⟨parentExpires, binExpires, hchecked⟩ := Settings.exists_checked_of_validate hvalidate
  obtain ⟨keyId, hkey⟩ := key.exists_keyId
  -- The roles have the prefixes and the names of the bins.
  have hprefixes : (settings.partition.bins.map (roleSpec keyId)).flatMap (·.pathHashPrefixes)
      = settings.partition.bins.flatMap (·.hashPrefixes) := List.flatMap_map ..
  have hnames (role : String) : (∃ spec ∈ settings.partition.bins.map (roleSpec keyId),
      spec.name = role) ↔ ∃ b ∈ settings.partition.bins, b.name = role := by
    simp only [List.mem_map, exists_exists_and_eq_and, roleSpec]
  refine ⟨_, keyId, parentExpires, binExpires, build_of_checked hvalidate hchecked hkey, hkey,
    hchecked.parentExpires, hchecked.binExpires, rfl, rfl, rfl, rfl, ?prefixes, ?digits, rfl,
    fun name i => getElem?_index_fresh, fun i spec => bin?_fresh, ?bins, ?states⟩
  case prefixes =>
    rw [fresh, hprefixes]
    exact settings.partition.ascending_hashPrefixes
  case digits =>
    intro s
    rw [fresh, hprefixes]
    exact settings.partition.mem_flatMap_hashPrefixes
  case bins =>
    intro role
    rw [isSome_bin?_fresh]
    exact (hnames role).symm
  case states =>
    intro role
    rw [isSome_stateOf?, isSome_signaturesOf?, isSome_bin?_fresh]
    have hrole := or_congr (Iff.refl (role = settings.parentRole)) (hnames role).symm
    exact ⟨hrole, hrole⟩

/-- The small delegation has two bins, and the second one is found at its place. -/
theorem build_of_sample : Sample.settings.validate = .ok () ∧
    ∃ g keyId, build Sample.settings Sample.key = .ok g ∧ Sample.key.keyId = .ok keyId ∧
      g.parent.body.delegations.keys = .singleton keyId Sample.key ∧
      g.parent.body.delegations.roles.length = 2 ∧ g.bin? "8-f" = g.bins[1]? ∧
      ∀ role, (g.stateOf? role).isSome = true ↔
        role = "bins" ∨ ∃ spec ∈ g.parent.body.delegations.roles, spec.name = role := by
  obtain ⟨g₀, -, -, hbuild, -⟩ := Sample.exists_run
  have hvalidate := validate_of_build hbuild
  obtain ⟨g, keyId, -, -, hg, hkey, -, -, -, -, hkeys, hroles, -, -, -, -, hplaces, -, hstates⟩ :=
    (build_of_settings Sample.settings Sample.key).2 hvalidate
  refine ⟨hvalidate, g, keyId, hg, hkey, hkeys, ?_, ?_, fun role => (hstates role).1⟩
  · rw [hroles, List.length_map, Partition.length_bins]
    rfl
  · have hname : (Sample.settings.partition.binAt 1).name = "8-f" := by decide +kernel
    have hbin : Sample.settings.partition.bins[1]? = some (Sample.settings.partition.binAt 1) :=
      Sample.settings.partition.getElem?_bins (by decide)
    rw [← hname]
    refine hplaces 1 (roleSpec keyId (Sample.settings.partition.binAt 1)) ?_
    rw [hroles, List.getElem?_map, hbin]
    rfl

end Graph

end BinDelegation
