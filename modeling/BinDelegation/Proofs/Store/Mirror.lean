import BinDelegation.Proofs.Store.Drafts
import BinDelegation.Store.Memory

/-!
# Two stores that answer alike

A directory that was empty when its store was opened mirrors a store in memory: for each document in
memory there is a file of its role, and there is nothing else. Storing a document keeps this up, and
while it holds, both stores have the same documents.

`Mirrors` is a simulation between the two stores. It starts with an empty directory and an empty
memory (`mirrors_of_empty`). One call is answered alike by both and leaves them mirrored
(`Mirrors.exists_answer`), hence a run of calls (`Mirrors.exists_answers`), and what is read and
listed under it is the same on both sides (`Mirrors.on_read`, `Mirrors.on_roles`).

Its part `only` is what makes a write go through: the directory holds nothing but files of roles, so
there is no symbolic link anywhere and no draft is left over from an earlier write. The one way in
which the stores could differ is a name that is too long for a file, which is a hypothesis.
-/

namespace BinDelegation.DirectoryStore

variable {s : DirectoryStore} {root role : String} {t t' : FileTree} {home : Location}
  {m : MemoryStore} {bytes : ByteArray}

/-! ## Opening a directory that is there -/

/-- A directory that is there cannot be made. -/
theorem makeDirectory_of_hasDirectory (h : t.HasDirectory root home) (hroot : root ≠ "") :
    t.makeDirectory root = .error .alreadyExists := by
  have hnofollow : FileTree.Approach.toDirectory.followsLast = false := rfl
  obtain ⟨-, ⟨place, node⟩, hfind⟩ := h.exists_find hroot hnofollow
  obtain ⟨hlocate, hnode⟩ := FileTree.find_eq_ok.1 hfind
  refine bind_eq_error.2 (.inr ⟨place, hlocate, ?_⟩)
  simp only at hnode
  rw [hnode]
  rfl

/-- A directory that cannot be made is fine if it is there. -/
theorem run_makeOneDirectory (h : t.HasDirectory root home) (hroot : root ≠ "") :
    (makeOneDirectory root).run FileTree.perform t = (.ok (), t) := by
  have hnofollow : FileTree.Approach.toDirectory.followsLast = false := rfl
  have hmake : FileTree.perform (.makeDirectory root) t = (.error .alreadyExists, t) :=
    congrArg t.after (makeDirectory_of_hasDirectory h hroot)
  have hkind : FileTree.perform (.kind root) t = (.ok .directory, t) := by
    refine congrArg (·, t) ?_
    rw [FileTree.kind, (h.exists_find hroot hnofollow).1]
    rfl
  rw [makeOneDirectory, Program.run_bind_state, Program.run_perform, hmake]
  simp only
  rw [Program.run_bind_state, pathIsDirectory, Program.run_bind_state, Program.run_perform, hkind]
  rfl

/-- A directory that is there is not made again. -/
theorem on_openAt (h : t.HasDirectory root home) : (openAt root).on t = (.ok ⟨root⟩, t) := by
  have hmake : (makeDirectories root).run FileTree.perform t = (.ok (), t) := by
    obtain ⟨above, habove⟩ : ∃ above, Path.upward root.length root = root :: above := by
      cases root.length with
      | zero => exact ⟨[], rfl⟩
      | succ more => exact ⟨_, rfl⟩
    rw [makeDirectories, habove, makeDirectoriesAlong]
    split
    · rfl
    · next hroot =>
      rw [Program.run_bind_state, run_makeOneDirectory h hroot]
      rfl
  rw [Task.on, openAt, ExceptT.run_mk, Program.run_bind_state, hmake]
  rfl

/-! ## Storing one document -/

/-- A draft that can be renamed is settled. -/
theorem on_settleDraft_of_ok {draft target : String} (h : t.rename draft target = .ok t') :
    (settleDraft draft target).on t = (.ok (), t') := by
  have hperform : FileTree.perform (.rename draft target) t = (.ok (), t') := congrArg t.after h
  rw [Task.on, settleDraft, ExceptT.run_mk, Program.run_bind_state, Program.run_perform, hperform]
  rfl

/-- A write succeeds if there is room for its names and no directory stands in its way. -/
theorem exists_on_write (hfree : t.HasPlace s.root home (draftName role))
    (hvalid : RoleName.isValid role = true) (hfits : Path.Fits s.root (draftName role))
    (hdraft : t.node? (home.entry (draftName role)) ≠ some .directory)
    (hfile : t.node? (home.entry (fileName role)) ≠ some .directory) :
    ∃ path t', (s.write role bytes).on t = (.ok path, t') ∧ Written home role bytes t t' := by
  obtain ⟨hroot, -, hlink⟩ := hfree
  have hplace {t' : FileTree} (h : Drafted home role t t') :
      t'.HasPlace s.root home (draftName role) := h.hasPlace hroot hlink hvalid
  have hput (t : FileTree) (content : ByteArray) :
      (t.put (home.entry (draftName role)) (.file content)).node? (home.entry (draftName role))
        = some (.file content) := by
    rw [FileTree.node?_put (home.entry_ne_nil _), if_pos rfl]
  -- The draft is made, filled and put in the place of the file.
  obtain ⟨t₁, ht₁⟩ : ∃ t₁, t₁ = t.put (home.entry (draftName role)) (.file .empty) := ⟨_, rfl⟩
  have hcreate := (hplace .refl).create_eq_ok.2 ⟨hfits, hdraft, ht₁⟩
  have h₁ : Drafted home role t t₁ := ht₁ ▸ Drafted.refl.put hlink hdraft .empty
  have hempty : t₁.node? (home.entry (draftName role)) = some (.file .empty) := ht₁ ▸ hput t .empty
  obtain ⟨t₂, ht₂⟩ : ∃ t₂, t₂ = t₁.put (home.entry (draftName role)) (.file bytes) := ⟨_, rfl⟩
  have hwrite := (hplace h₁).write_eq_ok.2 ⟨hfits, ⟨_, hempty⟩, ht₂⟩
  have h₂ : Drafted home role t t₂ :=
    ht₂ ▸ h₁.put hlink (fun hdirectory => by cases hempty.symm.trans hdirectory) bytes
  have hbytes : t₂.node? (home.entry (draftName role)) = some (.file bytes) := ht₂ ▸ hput t₁ bytes
  have hfile₂ : t₂.node? (home.entry (fileName role)) ≠ some .directory := h₂.file role ▸ hfile
  have hrename := ((hplace h₂).rename_eq_ok (isName_fileName hvalid)).2
    ⟨hfits, fits_fileName hfits, hfile₂, _, hbytes, rfl⟩
  have hperform₁ : FileTree.perform (.create (Path.join s.root (draftName role))) t
      = (.ok (), t₁) := congrArg t.after hcreate
  have hperform₂ : FileTree.perform (.write (Path.join s.root (draftName role)) bytes) t₁
      = (.ok (), t₂) := congrArg t₁.after hwrite
  refine ⟨Path.join s.root (fileName role), _, ?_, h₂.written hlink hbytes hfile₂⟩
  rw [write, pathFor_of_isValid hvalid, on_bind_of_ok (on_known _ t),
    on_bind_of_ok (on_operate_of_ok hperform₁), on_bind_of_ok (on_operate_of_ok hperform₂),
    on_bind_of_ok (on_settleDraft_of_ok hrename)]
  rfl

/-- A document of no role name is refused. -/
theorem on_write_of_not_isValid (hvalid : ¬ RoleName.isValid role = true) :
    (s.write role bytes).on t = (.error (.invalidRole role), t) := by
  rw [write, pathFor_of_not_isValid hvalid, on_bind, on_known]

/-- A document is refused where there is no room for its draft. -/
theorem on_write_of_not_fits (hplace : t.HasPlace s.root home (draftName role))
    (hvalid : RoleName.isValid role = true) (hfits : ¬ Path.Fits s.root (draftName role)) :
    (s.write role bytes).on t = (.error (.file .nameTooLong), t) := by
  have hcreate : FileTree.perform (.create (Path.join s.root (draftName role))) t
      = (.error .nameTooLong, t) := congrArg t.after (hplace.create_of_not_fits hfits)
  rw [write, pathFor_of_isValid hvalid, on_bind_of_ok (on_known _ t), on_bind, on_operate, hcreate]
  rfl

/-- A directory has a file for each document in memory, and nothing else. -/
structure Mirrors (s : DirectoryStore) (home : Location) (t : FileTree) (m : MemoryStore) :
    Prop where
  directory : t.HasDirectory s.root home
  files : ∀ role, t.node? (home.entry (fileName role)) = (m.get? role).map .file
  only : ∀ names, names ≠ [] → (∀ role, names ≠ [Path.bytes (fileName role)]) →
    t.node? (home ++ names) = none
  roles : ∀ role content, m.get? role = some content →
    RoleName.isValid role = true ∧ Path.Fits s.root (fileName role)

namespace Mirrors

variable (h : Mirrors s home t m)

include h in
/-- There are no symbolic links in a mirroring directory. -/
theorem notLink (name : FileName) (path : List UInt8) :
    t.node? (home ++ [name]) ≠ some (.link path) := by
  by_cases hname : ∃ role, name = Path.bytes (fileName role)
  · obtain ⟨role, rfl⟩ := hname
    have hfile := h.files role
    rw [Location.entry] at hfile
    rw [hfile]
    cases m.get? role with
    | none => simp
    | some content => simp
  · have hnone : t.node? (home ++ [name]) = none :=
      h.only [name] (List.cons_ne_nil _ _) fun role hrole =>
        hname ⟨role, List.singleton_inj.1 hrole⟩
    rw [hnone]
    simp

include h in
/-- The draft of a role name can be put in the directory. -/
theorem hasPlace (hvalid : RoleName.isValid role = true) :
    t.HasPlace s.root home (draftName role) :=
  ⟨h.directory, isName_draftName hvalid, h.notLink _⟩

include h in
/-- No draft is left in a mirroring directory. -/
theorem draft (role : String) : t.node? (home.entry (draftName role)) = none := by
  refine h.only _ (List.cons_ne_nil _ _) fun role' heq => ?_
  exact fileName_ne_draftName (Path.bytes_inj (List.singleton_inj.1 heq)).symm

include h in
/-- A document that is written to the directory and kept in memory is one in both. -/
theorem written (hwritten : Written home role bytes t t') (hvalid : RoleName.isValid role = true)
    (hfits : Path.Fits s.root (fileName role)) :
    Mirrors s home t' ⟨m.documents.insert role bytes⟩ := by
  have hget (other : String) : MemoryStore.get? ⟨m.documents.insert role bytes⟩ other
      = if other = role then some bytes else m.get? other :=
    Dict.get?_insert m.documents role other bytes
  refine ⟨hwritten.hasDirectory h.directory (h.notLink _), fun other => ?_,
    fun names hne hnames => ?_, fun other content hother => ?_⟩
  · rw [hget]
    by_cases hother : other = role
    · rw [if_pos hother, hother, hwritten.file]
      rfl
    · have hplace : home.entry (fileName other) ≠ home.entry (fileName role) :=
        fun heq => hother (fileName_inj (Location.entry_inj heq))
      rw [if_neg hother, hwritten.others _ hplace entry_fileName_ne_draftName, h.files]
  · by_cases hdraft : home ++ names = home.entry (draftName role)
    · rw [hdraft, hwritten.draft]
    · rw [hwritten.others _ (fun hfile => hnames role (List.append_cancel_left hfile)) hdraft,
        h.only names hne hnames]
  · rw [hget] at hother
    split at hother
    · next heq => exact heq ▸ ⟨hvalid, hfits⟩
    · exact h.roles other content hother

include h in
/-- A document is taken where there is room for its draft. -/
theorem exists_taken (hvalid : RoleName.isValid role = true)
    (hfits : Path.Fits s.root (draftName role)) (bytes : ByteArray) :
    ∃ path t', (s.write role bytes).on t = (.ok path, t') ∧
      Mirrors s home t' ⟨m.documents.insert role bytes⟩ := by
  have hfile : t.node? (home.entry (fileName role)) ≠ some .directory := by
    rw [h.files]
    cases m.get? role with
    | none => simp
    | some content => simp
  have hdraft : t.node? (home.entry (draftName role)) ≠ some .directory := by
    rw [h.draft]
    simp
  obtain ⟨path, t', hwrite, hwritten⟩ :=
    exists_on_write (h.hasPlace hvalid) hvalid hfits hdraft hfile
  exact ⟨path, t', hwrite, h.written hwritten hvalid (fits_fileName hfits)⟩

end Mirrors

/-! ## Runs of calls -/

/-- A call of the store is answered as its write comes out. -/
theorem run_answer {call : StoreCall} {outcome : Except StoreError String}
    (h : (s.write call.role call.bytes).on t = (outcome, t')) :
    (s.answer call).run FileTree.perform t
      = ((outcome.map fun _ => ()).mapError (StoreError.asError call.role), t') := by
  have hrun : Program.run FileTree.perform (s.write call.role call.bytes) t = (outcome, t') := h
  rw [answer, Program.run_bind_state, hrun]
  cases outcome with
  | ok path => rfl
  | error e => rfl

/-- The answer of a store to a call: that it has the document, unless the role is no role name. -/
def answerTo (call : StoreCall) : Except Error Unit :=
  (requireRole call.role).mapError (StoreError.asError call.role)

/-- One call is answered alike by both stores, and they stay alike. -/
theorem Mirrors.exists_answer (h : Mirrors s home t m) {call : StoreCall}
    (hfits : RoleName.isValid call.role = true → Path.Fits s.root (draftName call.role)) :
    ∃ t' m', (s.answer call).run FileTree.perform t = (answerTo call, t') ∧
      MemoryStore.answer call m = (answerTo call, m') ∧ Mirrors s home t' m' := by
  by_cases hvalid : RoleName.isValid call.role = true
  · obtain ⟨path, t', hwrite, hmirrors⟩ := h.exists_taken hvalid (hfits hvalid) call.bytes
    refine ⟨t', _, ?_, ?_, hmirrors⟩
    · rw [run_answer hwrite, answerTo, requireRole_eq_ok.2 hvalid]
      rfl
    · rw [MemoryStore.answer, MemoryStore.store, answerTo, requireRole_eq_ok.2 hvalid]
      rfl
  · have hrefused : requireRole call.role = .error (.invalidRole call.role) := if_neg hvalid
    have hwrite : (s.write call.role call.bytes).on t = (.error (.invalidRole call.role), t) :=
      on_write_of_not_isValid hvalid
    refine ⟨t, m, ?_, ?_, h⟩
    · rw [run_answer hwrite, answerTo, hrefused]
      rfl
    · rw [MemoryStore.answer, MemoryStore.store, answerTo, hrefused]
      rfl

/-- Calls are answered alike by both stores, and they stay alike. -/
theorem Mirrors.exists_answers (h : Mirrors s home t m) {calls : List StoreCall}
    (hfits : ∀ call ∈ calls, RoleName.isValid call.role = true →
      Path.Fits s.root (draftName call.role)) :
    ∃ t' m', (calls.mapM s.answer).run FileTree.perform t = (calls.map answerTo, t') ∧
      calls.mapM MemoryStore.answer m = (calls.map answerTo, m') ∧ Mirrors s home t' m' := by
  induction calls generalizing t m with
  | nil => exact ⟨t, m, rfl, rfl, h⟩
  | cons call rest ih =>
    obtain ⟨hcall, hrest⟩ := List.forall_mem_cons.1 hfits
    obtain ⟨t₁, m₁, hanswer, hmemory, h₁⟩ := h.exists_answer hcall
    obtain ⟨t₂, m₂, hanswers, hmemories, h₂⟩ := ih h₁ hrest
    -- The first call leaves the stores mirrored, so the others are answered alike as well.
    refine ⟨t₂, m₂, ?_, ?_, h₂⟩
    · rw [List.mapM_cons, Program.run_bind_state, hanswer, Program.run_bind_state, hanswers]
      rfl
    · simp only [List.mapM_cons, bind, StateT.bind, hmemory, hmemories]
      rfl

/-! ## What mirrored stores show -/

/-- Mirrored stores have the same documents to read. -/
theorem Mirrors.on_read (h : Mirrors s home t m) (role : String) : (s.read role).on t
    = (match m.get? role with
      | some bytes => .ok bytes
      | none =>
        .error (if RoleName.isValid role then .notFound role else .invalidRole role), t) := by
  rw [DirectoryStore.on_read h.directory (h.notLink _), h.files]
  cases hdocument : m.get? role with
  | none =>
    by_cases hvalid : RoleName.isValid role = true
    · simp [reading, hvalid]
    · simp [reading, hvalid]
  | some bytes =>
    obtain ⟨hvalid, hfits⟩ := h.roles role bytes hdocument
    simp [reading, hvalid, hfits]

/-- Mirrored stores list the same roles. -/
theorem Mirrors.on_roles (h : Mirrors s home t m) (hroot : s.root ≠ "") :
    s.roles.on t = (.ok m.roles, t) := by
  obtain ⟨listed, hlisted, hascend, hmem⟩ := exists_on_roles h.directory hroot
  have hkeys : m.roles.Pairwise (· < ·) := List.pairwise_map.2 m.documents.ascending
  rw [hlisted, eq_of_pairwise_lt hascend hkeys fun role => ?_]
  rw [hmem, h.files, MemoryStore.roles, Dict.keys, List.mem_map]
  constructor
  · rintro ⟨-, content, hfile⟩
    obtain ⟨bytes, hget, -⟩ := Option.map_eq_some_iff.1 hfile
    exact ⟨(role, bytes), Dict.mem_entries.2 hget, rfl⟩
  · rintro ⟨⟨role, bytes⟩, hentry, rfl⟩
    have hget : m.get? role = some bytes := Dict.mem_entries.1 hentry
    exact ⟨(h.roles role bytes hget).1, bytes, congrArg (Option.map FileNode.file) hget⟩

/-- A mirroring directory has the files of the documents, each once, and nothing else. -/
theorem Mirrors.below_perm (h : Mirrors s home t m) : (t.below home).Perm
    (m.documents.entries.map fun document =>
      ([Path.bytes (fileName document.1)], .file document.2)) := by
  have hfiles : (m.documents.entries.map fun document =>
      ([Path.bytes (fileName document.1)], FileNode.file document.2)).Nodup := by
    refine m.documents.nodup_entries.map ?_
    rintro ⟨role, bytes⟩ ⟨role', bytes'⟩ heq
    obtain ⟨hnames, hnode⟩ := Prod.mk.inj heq
    have hrole : role = role' := fileName_inj (Path.bytes_inj (List.singleton_inj.1 hnames))
    have hbytes : bytes = bytes' := FileNode.file.inj hnode
    rw [hrole, hbytes]
  refine (List.perm_ext_iff_of_nodup FileTree.nodup_below.of_map hfiles).2 ?_
  rintro ⟨names, node⟩
  rw [FileTree.mem_below, List.mem_map]
  constructor
  · rintro ⟨hne, hnode⟩
    by_cases hnames : ∃ role, names = [Path.bytes (fileName role)]
    · obtain ⟨role, rfl⟩ := hnames
      obtain ⟨bytes, hget, rfl⟩ := Option.map_eq_some_iff.1 ((h.files role).symm.trans hnode)
      exact ⟨(role, bytes), Dict.mem_entries.2 hget, rfl⟩
    · rw [h.only names hne fun role heq => hnames ⟨role, heq⟩] at hnode
      cases hnode
  · rintro ⟨⟨role, bytes⟩, hentry, heq⟩
    obtain ⟨rfl, rfl⟩ := Prod.mk.inj heq
    have hget : m.get? role = some bytes := Dict.mem_entries.1 hentry
    exact ⟨List.cons_ne_nil _ _, (h.files role).trans (congrArg (Option.map FileNode.file) hget)⟩

/-- A directory below which there is nothing mirrors an empty memory. -/
theorem mirrors_of_empty (h : t.HasDirectory s.root home) (hempty : t.below home = []) :
    Mirrors s home t {} := by
  have hnone (names : Location) (hne : names ≠ []) : t.node? (home ++ names) = none := by
    cases hnode : t.node? (home ++ names) with
    | none => rfl
    | some node =>
      have hmem := FileTree.mem_below.2 ⟨hne, hnode⟩
      rw [hempty] at hmem
      cases hmem
  exact ⟨h, fun role => hnone _ (List.cons_ne_nil _ _), fun names hne _ => hnone names hne,
    fun role content hget => by cases hget⟩

/-- A store opened in an empty directory and an empty store in memory answer every run of calls
alike, as long as the names of the drafts are short enough: a document is taken unless its role is
no role name. After any such run both have the same documents to read under every text, and list the
same roles; and the directory has the files of these documents, each once, and nothing else. -/
theorem mirrors_of_run (hroot : t.find .through root = .ok (home, .directory))
    (hempty : t.below home = []) {calls : List StoreCall}
    (hfits : ∀ call ∈ calls, RoleName.isValid call.role = true →
      Path.Fits root (draftName call.role)) :
    (openAt root).on t = (.ok ⟨root⟩, t) ∧
    ∃ answers t' m, (calls.mapM (answer ⟨root⟩)).run FileTree.perform t = (answers, t') ∧
      calls.mapM MemoryStore.answer {} = (answers, m) ∧
      answers = calls.map (fun call =>
        (requireRole call.role).mapError (StoreError.asError call.role)) ∧
      (∀ role, (read ⟨root⟩ role).on t' = (match m.get? role with
        | some bytes => .ok bytes
        | none =>
          .error (if RoleName.isValid role then .notFound role else .invalidRole role), t')) ∧
      (roles ⟨root⟩).on t' = (.ok m.roles, t') ∧
      (t'.below home).Perm (m.documents.entries.map fun document =>
        ([Path.bytes (fileName document.1)], .file document.2)) := by
  obtain ⟨hlocate, hnode⟩ := FileTree.find_eq_ok.1 hroot
  have hne : root ≠ "" := (FileTree.locate_eq_ok.1 hlocate).2.1
  have hdirectory : t.HasDirectory root home := ⟨hnode, .inr hlocate⟩
  have hstart : Mirrors ⟨root⟩ home t {} := mirrors_of_empty hdirectory hempty
  obtain ⟨t', m, hanswers, hmemory, h⟩ := hstart.exists_answers hfits
  exact ⟨on_openAt hdirectory, _, t', m, hanswers, hmemory, rfl, h.on_read, h.on_roles hne,
    h.below_perm⟩

namespace Sample

/-- An empty directory. -/
def emptyTree : FileTree := FileTree.put {} place .directory

/-- Calls with a document that is stored twice, a text that is no role, and roles that look like the
names of files. -/
def calls : List StoreCall :=
  [⟨"bins", "1".toUTF8⟩, ⟨"../bins", "2".toUTF8⟩, ⟨"a.json", "3".toUTF8⟩, ⟨"a.", "4".toUTF8⟩,
    ⟨"bins", "5".toUTF8⟩]

end Sample

/-- Of five calls one is refused and one stores a document anew, so three roles are left. -/
theorem mirrors_of_run_sample :
    Sample.emptyTree.find .through "meta" = .ok (Sample.place, .directory) ∧
    Sample.emptyTree.below Sample.place = [] ∧
    (∀ call ∈ Sample.calls, RoleName.isValid call.role = true →
      Path.Fits "meta" (draftName call.role)) ∧
    ∃ answers t' m,
      (Sample.calls.mapM (answer ⟨"meta"⟩)).run FileTree.perform Sample.emptyTree = (answers, t') ∧
      Sample.calls.mapM MemoryStore.answer {} = (answers, m) ∧ m.roles = ["a.", "a.json", "bins"] ∧
      (roles ⟨"meta"⟩).on t' = (.ok m.roles, t') ∧
      (read ⟨"meta"⟩ "bins").on t' = (.ok "5".toUTF8, t') := by
  have hroot : Sample.emptyTree.find .through "meta" = .ok (Sample.place, .directory) := by
    decide +kernel
  have hempty : Sample.emptyTree.below Sample.place = [] := by decide +kernel
  have hfits : ∀ call ∈ Sample.calls, RoleName.isValid call.role = true →
      Path.Fits "meta" (draftName call.role) := by decide +kernel
  obtain ⟨-, answers, t', m, hanswers, hmemory, -, hread, hroles, -⟩ :=
    mirrors_of_run hroot hempty hfits
  have hm : m = (Sample.calls.mapM MemoryStore.answer {}).2 := (congrArg Prod.snd hmemory).symm
  refine ⟨hroot, hempty, hfits, answers, t', m, hanswers, hmemory, ?_, hroles, ?_⟩
  · rw [hm]
    decide +kernel
  · have hget : m.get? "bins" = some "5".toUTF8 := by
      rw [hm]
      decide +kernel
    rw [hread, hget]

end BinDelegation.DirectoryStore
