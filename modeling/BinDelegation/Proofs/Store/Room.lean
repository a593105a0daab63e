import BinDelegation.Proofs.Store.Mirror
import BinDelegation.Proofs.Store.Publishing

/-!
# Room for the documents of a delegation

A document needs room for the name of its draft, which is longer than that of its file. The names of
bins are always short enough. The checks of settings look at the characters of the parent's role and
not at its length, so a delegation can be built whose parent document no directory takes.

Whether a document is taken is decided by `Path.Fits` for its draft and by nothing else, in a
directory that was empty when its store was opened. Earlier calls do not matter, since the directory
mirrors some memory after any of them, those that were refused included
(`Mirrors.exists_after_calls`).

For names of bins the condition always holds, as they have nine bytes at most
(`length_bytes_name_le`). For the parent it is a condition on the settings that no check makes.
-/

namespace BinDelegation

namespace DirectoryStore

variable {s : DirectoryStore} {root role : String} {t t' : FileTree} {home : Location}
  {m : MemoryStore} {bytes : ByteArray}

namespace Mirrors

variable (h : Mirrors s home t m)

include h in
/-- A directory mirrors some memory after any call. -/
theorem exists_after (call : StoreCall) :
    ∃ m', Mirrors s home ((s.answer call).run FileTree.perform t).2 m' := by
  -- A call that is refused leaves the directory as it was, and with it the memory that it mirrors.
  by_cases hvalid : RoleName.isValid call.role = true
  · by_cases hfits : Path.Fits s.root (draftName call.role)
    · obtain ⟨path, t', hwrite, hmirrors⟩ := h.exists_taken hvalid hfits call.bytes
      rw [run_answer hwrite]
      exact ⟨_, hmirrors⟩
    · rw [run_answer (on_write_of_not_fits (h.hasPlace hvalid) hvalid hfits)]
      exact ⟨m, h⟩
  · rw [run_answer (on_write_of_not_isValid hvalid)]
    exact ⟨m, h⟩

include h in
/-- A directory mirrors some memory after any calls. -/
theorem exists_after_calls (calls : List StoreCall) :
    ∃ m', Mirrors s home ((calls.mapM s.answer).run FileTree.perform t).2 m' := by
  induction calls generalizing t m with
  | nil => exact ⟨m, h⟩
  | cons call rest ih =>
    obtain ⟨m₁, h₁⟩ := h.exists_after call
    obtain ⟨m₂, h₂⟩ := ih h₁
    refine ⟨m₂, ?_⟩
    rw [List.mapM_cons, Program.run_bind_state, Program.run_bind_state]
    exact h₂

include h in
/-- A document that there is room for is taken, read back and listed. -/
theorem exists_kept (hroot : s.root ≠ "") (hvalid : RoleName.isValid role = true)
    (hfits : Path.Fits s.root (draftName role)) (bytes : ByteArray) :
    ∃ path t', (s.write role bytes).on t = (.ok path, t') ∧
      (s.read role).on t' = (.ok bytes, t') ∧
      ∃ listed, s.roles.on t' = (.ok listed, t') ∧ role ∈ listed := by
  obtain ⟨path, t', hwrite, hmirrors⟩ := h.exists_taken hvalid hfits bytes
  have hget : MemoryStore.get? ⟨m.documents.insert role bytes⟩ role = some bytes :=
    (Dict.get?_insert m.documents role role bytes).trans (if_pos rfl)
  refine ⟨path, t', hwrite, ?_, _, hmirrors.on_roles hroot, ?_⟩
  · rw [hmirrors.on_read, hget]
  · exact List.mem_map.2 ⟨(role, bytes), Dict.mem_entries.2 hget, rfl⟩

end Mirrors

end DirectoryStore

/-- The name of a bin is a few bytes long. -/
theorem Partition.length_bytes_name_le (p : Partition) {b : Bin} (hb : b ∈ p.bins) :
    (Path.bytes b.name).length ≤ 9 := by
  obtain ⟨i, hi, hname⟩ := p.exists_of_mem_names (List.mem_map_of_mem hb)
  rw [← hname, RoleName.length_bytes_of_allows (RoleName.isValid_iff.1 (p.isValid_name hi)).2.2]
  have hlength := p.length_name_le hi
  have hwidth := p.width_le
  omega

namespace Graph

open DirectoryStore

variable {settings : Settings}

/-- Settings that pass the checks are built into a graph, and in a directory that was empty each
document of the graph is taken exactly if there is room for its draft: if its role has at most 245
bytes, as the name of every bin has, and the path of the draft is not too long. This holds behind
any calls of the store, whatever their answers. A document that is taken is read back and its role
is listed; one that is not leaves the directory as it was. -/
theorem storable_of_validate (hvalidate : settings.validate = .ok ()) (key : KeyRecord) :
    ∃ g, build settings key = .ok g ∧ g.parent.role = settings.parentRole ∧
      g.bins.map (·.role) = settings.partition.bins.map (·.name) ∧
      (∀ bin ∈ g.bins, (Path.bytes bin.role).length ≤ 9) ∧
      ∀ {root : String} {t : FileTree} {home : Location},
        t.find .through root = .ok (home, .directory) → t.below home = [] →
        (openAt root).on t = (.ok ⟨root⟩, t) ∧
        ∀ (earlier : List StoreCall) (t₁ : FileTree),
          ((earlier.mapM (answer ⟨root⟩)).run FileTree.perform t).2 = t₁ →
          ∀ role ∈ g.parent.role :: g.bins.map (·.role), ∀ bytes : ByteArray,
            (Path.Fits root (draftName role) ↔ (Path.bytes role).length ≤ 245 ∧
              (Path.bytes (Path.join root (draftName role))).length ≤ FileTree.maxPathLength) ∧
            (Path.Fits root (draftName role) → ∃ path t₂,
              (write ⟨root⟩ role bytes).on t₁ = (.ok path, t₂) ∧
              (read ⟨root⟩ role).on t₂ = (.ok bytes, t₂) ∧
              ∃ listed, (roles ⟨root⟩).on t₂ = (.ok listed, t₂) ∧ role ∈ listed) ∧
            (¬ Path.Fits root (draftName role) →
              (write ⟨root⟩ role bytes).on t₁ = (.error (.file .nameTooLong), t₁)) := by
  obtain ⟨parentExpires, binExpires, hchecked⟩ := Settings.exists_checked_of_validate hvalidate
  obtain ⟨keyId, hkey⟩ := key.exists_keyId
  have hbins : (fresh settings key keyId parentExpires binExpires).bins.map (·.role)
      = settings.partition.bins.map (·.name) := by
    rw [fresh, List.map_map]
    rfl
  refine ⟨_, build_of_checked hvalidate hchecked hkey, rfl, hbins, fun bin hbin => ?_,
    fun {root t home} hroot hempty => ?_⟩
  · obtain ⟨b, hb, rfl⟩ := List.mem_map.1 hbin
    exact settings.partition.length_bytes_name_le hb
  · obtain ⟨hlocate, hnode⟩ := FileTree.find_eq_ok.1 hroot
    have hne : root ≠ "" := (FileTree.locate_eq_ok.1 hlocate).2.1
    have hdirectory : t.HasDirectory root home := ⟨hnode, .inr hlocate⟩
    refine ⟨on_openAt hdirectory, fun earlier t₁ hearlier role hrole bytes => ?_⟩
    have hvalid : RoleName.isValid role = true :=
      hchecked.isValid_roles role (by rwa [hbins] at hrole)
    -- Whatever the earlier calls were, the directory still mirrors some memory.
    obtain ⟨m, h⟩ := (mirrors_of_empty (s := ⟨root⟩) hdirectory hempty).exists_after_calls earlier
    rw [hearlier] at h
    exact ⟨fits_draftName_iff, fun hfits => h.exists_kept hne hvalid hfits bytes,
      on_write_of_not_fits (h.hasPlace hvalid) hvalid⟩

end Graph

namespace Sample

/-- The role of the parent is too long to be the name of a file. -/
def longRole : Settings :=
  { settings with parentRole := String.ofList (List.replicate 251 'a') }

end Sample

namespace Graph

open DirectoryStore

/-- The documents of the sample are stored after the calls of the sample store. -/
theorem storable_of_sample : Sample.settings.validate = .ok () ∧
    Sample.emptyTree.find .through "meta" = .ok (Sample.place, .directory) ∧
    Sample.emptyTree.below Sample.place = [] ∧
    ∃ g path t, build Sample.settings Sample.key = .ok g ∧ g.parent.role = "bins" ∧
      (write ⟨"meta"⟩ g.parent.role "{}".toUTF8).on
        ((Sample.calls.mapM (answer ⟨"meta"⟩)).run FileTree.perform Sample.emptyTree).2
          = (.ok path, t) ∧
      (read ⟨"meta"⟩ g.parent.role).on t = (.ok "{}".toUTF8, t) := by
  have hvalidate : Sample.settings.validate = .ok () := by decide +kernel
  have hroot : Sample.emptyTree.find .through "meta" = .ok (Sample.place, .directory) := by
    decide +kernel
  have hempty : Sample.emptyTree.below Sample.place = [] := by decide +kernel
  obtain ⟨g, hbuild, hparent, -, -, hstores⟩ := storable_of_validate hvalidate Sample.key
  obtain ⟨-, hstore⟩ := hstores hroot hempty
  obtain ⟨-, htaken, -⟩ := hstore Sample.calls _ rfl g.parent.role List.mem_cons_self "{}".toUTF8
  have hfits : Path.Fits "meta" (draftName g.parent.role) := by
    rw [hparent]
    decide +kernel
  obtain ⟨path, t, hwrite, hread, -⟩ := htaken hfits
  exact ⟨hvalidate, hroot, hempty, g, path, t, hbuild, hparent, hwrite, hread⟩

/-- Settings can pass the checks and be built into a graph whose parent document is not taken in an
empty directory, under a name of which not even the final file can be. -/
theorem exists_not_storable : ∃ settings : Settings, settings.validate = .ok () ∧
    FileTree.maxNameLength < (Path.bytes (fileName settings.parentRole)).length ∧
    ∃ g, build settings Sample.key = .ok g ∧ g.parent.role = settings.parentRole ∧
      Sample.emptyTree.find .through "meta" = .ok (Sample.place, .directory) ∧
      Sample.emptyTree.below Sample.place = [] ∧ ∀ bytes,
        (write ⟨"meta"⟩ g.parent.role bytes).on Sample.emptyTree
          = (.error (.file .nameTooLong), Sample.emptyTree) := by
  have hvalidate : Sample.longRole.validate = .ok () := by decide +kernel
  obtain ⟨parentExpires, binExpires, hchecked⟩ := Settings.exists_checked_of_validate hvalidate
  obtain ⟨keyId, hkey⟩ := Sample.key.exists_keyId
  have hdirectory : Sample.emptyTree.HasDirectory "meta" Sample.place :=
    ⟨by decide +kernel, .inr (by decide +kernel)⟩
  have hempty : Sample.emptyTree.below Sample.place = [] := by decide +kernel
  refine ⟨Sample.longRole, hvalidate, by decide +kernel, _,
    build_of_checked hvalidate hchecked hkey, rfl, by decide +kernel, hempty, fun bytes => ?_⟩
  have hmirrors := mirrors_of_empty (s := ⟨"meta"⟩) hdirectory hempty
  have hfits : ¬ Path.Fits "meta" (draftName Sample.longRole.parentRole) := by decide +kernel
  exact on_write_of_not_fits (hmirrors.hasPlace hchecked.parentRole) hchecked.parentRole hfits

end Graph

end BinDelegation
