import BinDelegation.Proofs.FileSystem.Attempts
import BinDelegation.Proofs.Store.Documents

/-!
# Writes that fail or are stopped

A document is written to a draft, and the draft then takes the place of the file in one step. Up to
that step a write touches the draft alone (`Drafted`), and the step completes it (`Written`). So
whatever fails on the way, and wherever a write is stopped, no document is damaged. `always_write`
follows the file operations of a write one by one, each of which may go well, fail, or stop halfway;
what that means for the files and for the answers of the store is read off at the end.

Two things are asked of the directory. A draft is opened in the ordinary way, so no symbolic link
may stand under its name: a link from the draft of one role to the file of another has the document
of the one written over that of the other, also by a write that fails in the end. And a role is read
through a symbolic link under the name of its file, so the answer may depend on the draft if the
link leads there. The last result has both, in directories of three entries.
-/

namespace BinDelegation

namespace DirectoryStore

open FileTree (Attempt)

variable {s : DirectoryStore} {t t' : FileTree} {home : Location} {role : String}
  {bytes : ByteArray}

/-- The tree is as before but for the draft of a role, and there it is as before or has a file, or
nothing, in place of a file or of nothing. -/
structure Drafted (home : Location) (role : String) (t t' : FileTree) : Prop where
  workingDirectory : t'.workingDirectory = t.workingDirectory
  others : ∀ place, place ≠ home.entry (draftName role) → t'.node? place = t.node? place
  draft : t'.node? (home.entry (draftName role)) = t.node? (home.entry (draftName role)) ∨
    t.Yields (home.entry (draftName role)) ∧ t'.Yields (home.entry (draftName role))

/-- The document of a role is written, its draft is gone, and all else is as before. -/
structure Written (home : Location) (role : String) (bytes : ByteArray) (t t' : FileTree) :
    Prop where
  workingDirectory : t'.workingDirectory = t.workingDirectory
  file : t'.node? (home.entry (fileName role)) = some (.file bytes)
  draft : t'.node? (home.entry (draftName role)) = none
  others : ∀ place, place ≠ home.entry (fileName role) → place ≠ home.entry (draftName role) →
    t'.node? place = t.node? place
  notDirectory : t.node? (home.entry (fileName role)) ≠ some .directory
  yields : t.Yields (home.entry (draftName role))

/-- No file of a role stands at the place of a draft. -/
theorem entry_fileName_ne_draftName {role' : String} :
    home.entry (fileName role') ≠ home.entry (draftName role) :=
  fun heq => fileName_ne_draftName (Location.entry_inj heq)

namespace Drafted

theorem refl : Drafted home role t t := ⟨rfl, fun _ _ => rfl, .inl rfl⟩

/-- The directory is still led to. -/
theorem hasDirectory {root : String} (h : Drafted home role t t')
    (hroot : t.HasDirectory root home) : t'.HasDirectory root home := by
  refine hroot.congr h.workingDirectory fun place => ?_
  by_cases hplace : place = home.entry (draftName role)
  · subst hplace
    exact h.draft.imp_right And.left
  · exact .inl (h.others place hplace)

/-- Every path leads where it led, since a draft is neither a directory nor a symbolic link. -/
theorem sameWays (h : Drafted home role t t') : t.SameWays t' := by
  intro place
  by_cases hplace : place = home.entry (draftName role)
  · exact hplace ▸ h.draft
  · exact .inl (h.others place hplace)

variable {root : String} (h : Drafted home role t t') (hroot : t.HasDirectory root home)
  (hlink : ∀ path, t.node? (home.entry (draftName role)) ≠ some (.link path))

include h hlink in
/-- No symbolic link comes to stand under the name of the draft. -/
theorem notLink (path : List UInt8) :
    t'.node? (home.entry (draftName role)) ≠ some (.link path) := by
  rcases h.draft with hsame | ⟨-, hyields⟩
  · exact hsame ▸ hlink path
  · exact hyields.notLink path

include h hroot hlink in
/-- The draft of a role name can still be put in the directory. -/
theorem hasPlace (hvalid : RoleName.isValid role = true) :
    t'.HasPlace root home (draftName role) :=
  ⟨h.hasDirectory hroot, isName_draftName hvalid, h.notLink hlink⟩

/-- The file of every role is as before. -/
theorem file (h : Drafted home role t t') (role' : String) :
    t'.node? (home.entry (fileName role')) = t.node? (home.entry (fileName role')) :=
  h.others _ entry_fileName_ne_draftName

include h hlink in
/-- What stands at the place of the draft is no directory before if it is none now. -/
theorem yields (hdirectory : t'.node? (home.entry (draftName role)) ≠ some .directory) :
    t.Yields (home.entry (draftName role)) := by
  rcases h.draft with hsame | ⟨hyields, -⟩
  · exact FileTree.yields_of_ne (hsame ▸ hdirectory) hlink
  · exact hyields

include h hlink in
/-- A file in place of the draft keeps all else. -/
theorem put (hdirectory : t'.node? (home.entry (draftName role)) ≠ some .directory)
    (content : ByteArray) :
    Drafted home role t (t'.put (home.entry (draftName role)) (.file content)) := by
  have hne := home.entry_ne_nil (draftName role)
  refine ⟨h.workingDirectory, fun place hplace => ?_,
    .inr ⟨h.yields hlink hdirectory, FileTree.yields_put hne content⟩⟩
  rw [FileTree.node?_put hne, if_neg hplace, h.others place hplace]

include h hlink in
/-- Taking the draft away keeps all else. -/
theorem clear (hdirectory : t'.node? (home.entry (draftName role)) ≠ some .directory) :
    Drafted home role t (t'.clear (home.entry (draftName role))) := by
  have hne := home.entry_ne_nil (draftName role)
  refine ⟨h.workingDirectory, fun place hplace => ?_,
    .inr ⟨h.yields hlink hdirectory, FileTree.yields_clear hne⟩⟩
  rw [FileTree.node?_clear hne, if_neg hplace, h.others place hplace]

include h hlink in
/-- A draft with the whole content completes the write in the place of the file. -/
theorem written (hdraft : t'.node? (home.entry (draftName role)) = some (.file bytes))
    (hfile : t'.node? (home.entry (fileName role)) ≠ some .directory) :
    Written home role bytes t ((t'.clear (home.entry (draftName role))).put
      (home.entry (fileName role)) (.file bytes)) := by
  have hdifferent : home.entry (fileName role) ≠ home.entry (draftName role) :=
    entry_fileName_ne_draftName
  have hneDraft := home.entry_ne_nil (draftName role)
  have hneFile := home.entry_ne_nil (fileName role)
  have hsame := h.file role
  refine ⟨h.workingDirectory, ?_, ?_, fun place hnotFile hnotDraft => ?_, ?_, ?_⟩
  · rw [FileTree.node?_put hneFile, if_pos rfl]
  · rw [FileTree.node?_put hneFile, if_neg hdifferent.symm, FileTree.node?_clear hneDraft,
      if_pos rfl]
  · rw [FileTree.node?_put hneFile, if_neg hnotFile, FileTree.node?_clear hneDraft,
      if_neg hnotDraft, h.others place hnotDraft]
  · exact hsame ▸ hfile
  · exact h.yields hlink fun hdirectory => by cases hdraft.symm.trans hdirectory

end Drafted

/-- The directory is still led to behind a write, unless the way there went through a symbolic link
under the name of the file, whose place the draft has taken. -/
theorem Written.hasDirectory {root : String} (h : Written home role bytes t t')
    (hroot : t.HasDirectory root home)
    (hlink : ∀ path, t.node? (home.entry (fileName role)) ≠ some (.link path)) :
    t'.HasDirectory root home := by
  refine hroot.congr h.workingDirectory fun place => ?_
  by_cases hfile : place = home.entry (fileName role)
  · exact .inr (hfile ▸ FileTree.yields_of_ne h.notDirectory hlink)
  · by_cases hdraft : place = home.entry (draftName role)
    · exact .inr (hdraft ▸ h.yields)
    · exact .inl (h.others place hfile hdraft)

/-- The path of a file leads to another place than its own only if a symbolic link stands there. -/
theorem exists_link_of_locate {place : Location} (hroot : t.HasDirectory s.root home)
    (hvalid : RoleName.isValid role = true) (hne : place ≠ home.entry (fileName role))
    (hlocate : t.locate .through (Path.join s.root (fileName role)) = .ok place) :
    ∃ path, t.node? (home.entry (fileName role)) = some (.link path) := by
  by_contra hlink
  rw [not_exists] at hlink
  have hplace : t.HasPlace s.root home (fileName role) := ⟨hroot, isName_fileName hvalid, hlink⟩
  exact hne (hplace.locate_join_eq_ok.1 hlocate).2

/-- While all but a draft is as before, a role is read as before, unless its file is a symbolic link
that leads to the draft. -/
theorem Drafted.read_eq (h : Drafted home role t t') (hroot : t.HasDirectory s.root home)
    (r : String) : ((s.read r).on t').1 = ((s.read r).on t).1 ∨
      (∃ path, t.node? (home.entry (fileName r)) = some (.link path)) ∧
        t.locate .through (Path.join s.root (fileName r)) = .ok (home.entry (draftName role)) := by
  by_cases hvalid : RoleName.isValid r = true
  · by_cases hdraft : t.locate .through (Path.join s.root (fileName r))
        = .ok (home.entry (draftName role))
    · exact .inr
        ⟨exists_link_of_locate hroot hvalid entry_fileName_ne_draftName.symm hdraft, hdraft⟩
    · refine .inl (on_read_congr h.sameWays h.workingDirectory fun place hlocate => ?_)
      exact h.others place fun heq => hdraft (heq ▸ hlocate)
  · rw [on_read_of_not_isValid hvalid, on_read_of_not_isValid hvalid]
    exact .inl rfl

/-- While all but a draft is as before, the same roles are listed. -/
theorem Drafted.roles_eq (h : Drafted home role t t') (hroot : t.HasDirectory s.root home) :
    (s.roles.on t').1 = (s.roles.on t).1 :=
  on_roles_congr hroot (h.hasDirectory hroot) fun r _ => h.file r

/-- What holds at every state of a write. -/
def OnWay (home : Location) (role : String) (bytes : ByteArray) (t t' : FileTree) : Prop :=
  Drafted home role t t' ∨ Written home role bytes t t'

/-- What holds at the end of a write. -/
def AtEnd {α : Type} (home : Location) (role : String) (bytes : ByteArray) (t : FileTree) :
    Except StoreError α → FileTree → Prop
  | .ok _, t' => Written home role bytes t t'
  | .error _, t' => Drafted home role t t'

variable (hroot : t.HasDirectory s.root home)
  (hlink : ∀ path, t.node? (home.entry (draftName role)) ≠ some (.link path))
  (hvalid : RoleName.isValid role = true)

include hroot hlink hvalid in
/-- A draft that has the whole content takes the place of the file, or is removed or left. -/
theorem always_settle {result : String} (h : Drafted home role t t')
    (hdraft : t'.node? (home.entry (draftName role)) = some (.file bytes)) :
    Program.Always Attempt (OnWay home role bytes t) (AtEnd home role bytes t)
      (do
        settleDraft (Path.join s.root (draftName role)) (Path.join s.root (fileName role))
        return result : Task String).run t' := by
  have hplace := h.hasPlace hroot hlink hvalid
  refine .ask (.inl h) fun answer t₁ hattempt => ?_
  rcases hattempt.rename_cases with ⟨rfl, hrename⟩ | ⟨⟨e, rfl⟩, rfl⟩
  · obtain ⟨-, -, hfile, content, hcontent, rfl⟩ :=
      (hplace.rename_eq_ok (isName_fileName hvalid)).1 hrename
    cases hdraft.symm.trans hcontent
    have hwritten := h.written hlink hdraft hfile
    exact .done (.inr hwritten) hwritten
  · refine .ask (.inl h) fun answer t₂ hattempt => ?_
    rcases hattempt.remove_cases with ⟨rfl, hremove⟩ | ⟨⟨e, rfl⟩, rfl⟩
    · obtain ⟨-, -, rfl⟩ := hplace.remove_eq_ok.1 hremove
      have hcleared := h.clear hlink fun hdirectory => by cases hdraft.symm.trans hdirectory
      exact .done (.inl hcleared) hcleared
    · exact .done (.inl h) h

include hroot hlink in
/-- A write touches the draft alone until it is complete, however its actions go. -/
theorem always_write : Program.Always Attempt (OnWay home role bytes t) (AtEnd home role bytes t)
    (s.write role bytes).run t := by
  by_cases hvalid : RoleName.isValid role = true
  · rw [write, pathFor_of_isValid hvalid]
    have hplace {t' : FileTree} (h : Drafted home role t t') :
        t'.HasPlace s.root home (draftName role) := h.hasPlace hroot hlink hvalid
    have hne := home.entry_ne_nil (draftName role)
    have hstart : Drafted home role t t := .refl
    -- Each operation goes as the tree performs it or fails with the tree as it was; filling may
    -- also stop with a part of the content.
    refine .ask (.inl hstart) fun answer t₁ hattempt => ?_
    rcases hattempt.create_cases with ⟨rfl, hcreate⟩ | ⟨⟨e, rfl⟩, rfl⟩
    · obtain ⟨-, hdirectory, rfl⟩ := (hplace hstart).create_eq_ok.1 hcreate
      have hcreated := hstart.put hlink hdirectory .empty
      -- The draft is a file now, and filling it leaves it one.
      have hfile : (t.put (home.entry (draftName role)) (.file .empty)).node?
          (home.entry (draftName role)) ≠ some .directory := by
        rw [FileTree.node?_put hne, if_pos rfl]
        simp
      refine .ask (.inl hcreated) fun answer t₂ hattempt => ?_
      rcases hattempt.write_cases with ⟨rfl, hwrite⟩ | ⟨⟨e, rfl⟩, rfl | ⟨part, hwrite⟩⟩
      · obtain ⟨-, -, rfl⟩ := (hplace hcreated).write_eq_ok.1 hwrite
        refine always_settle hroot hlink hvalid (hcreated.put hlink hfile bytes) ?_
        rw [FileTree.node?_put hne, if_pos rfl]
      · exact .done (.inl hcreated) hcreated
      · obtain ⟨-, -, rfl⟩ := (hplace hcreated).write_eq_ok.1 hwrite
        have htorn := hcreated.put hlink hfile part
        exact .done (.inl htorn) htorn
    · exact .done (.inl hstart) hstart
  · rw [write, pathFor_of_not_isValid hvalid]
    exact .done (.inl .refl) .refl

include hroot in
/-- A write that fails changes nothing but its draft, so the store lists as before, and it reads as
before except through a symbolic link to the draft. A write that succeeds leaves its bytes in the
file of the role, no draft, and all else as before. Wherever a write is stopped, the file of the
role is as before or has all its bytes, every other entry but the draft is as before, and what is
listed are roles of files in the directory and not the draft. All this holds however the actions of
the write go, and one way they may go is as the file tree performs them. No symbolic link may stand
under the name of the draft, since the document would be written through it. -/
theorem kept_of_write (role : String)
    (hlink : ∀ path, t.node? (home.entry (draftName role)) ≠ some (.link path))
    (bytes : ByteArray) :
    (∀ e t', Program.Runs Attempt (s.write role bytes).run t (.error e) t' →
      (∀ place, place ≠ home.entry (draftName role) → t'.node? place = t.node? place) ∧
      (∀ r, ((s.read r).on t').1 = ((s.read r).on t).1 ∨
        (∃ path, t.node? (home.entry (fileName r)) = some (.link path)) ∧
          t.locate .through (Path.join s.root (fileName r))
            = .ok (home.entry (draftName role))) ∧
      (s.roles.on t').1 = (s.roles.on t).1) ∧
    (∀ path t', Program.Runs Attempt (s.write role bytes).run t (.ok path) t' →
      t'.node? (home.entry (fileName role)) = some (.file bytes) ∧
      t'.node? (home.entry (draftName role)) = none ∧
      ∀ place, place ≠ home.entry (fileName role) → place ≠ home.entry (draftName role) →
        t'.node? place = t.node? place) ∧
    (∀ t', Program.Stops Attempt (s.write role bytes).run t t' →
      (t'.node? (home.entry (fileName role)) = t.node? (home.entry (fileName role)) ∨
        t'.node? (home.entry (fileName role)) = some (.file bytes)) ∧
      (∀ place, place ≠ home.entry (fileName role) → place ≠ home.entry (draftName role) →
        t'.node? place = t.node? place) ∧
      ∀ listed, (s.roles.on t').1 = .ok listed → ∀ r ∈ listed, fileName r ≠ draftName role ∧
        (t'.HasDirectory s.root home →
          ∃ content, t'.node? (home.entry (fileName r)) = some (.file content))) ∧
    Program.Runs Attempt (s.write role bytes).run t
      ((s.write role bytes).on t).1 ((s.write role bytes).on t).2 := by
  have halways : Program.Always Attempt (OnWay home role bytes t) (AtEnd home role bytes t)
      (s.write role bytes).run t := always_write hroot hlink
  -- One invariant of the write gives all parts: at an end by its answer, at a stop by either case.
  refine ⟨fun e t' hruns => ?_, fun path t' hruns => ?_, fun t' hstops => ?_, ?_⟩
  · have hdrafted : Drafted home role t t' := halways.of_runs hruns
    exact ⟨hdrafted.others, hdrafted.read_eq hroot, hdrafted.roles_eq hroot⟩
  · have hwritten : Written home role bytes t t' := halways.of_runs hruns
    exact ⟨hwritten.file, hwritten.draft, hwritten.others⟩
  · have hlisted : ∀ listed, (s.roles.on t').1 = .ok listed → ∀ r ∈ listed,
        fileName r ≠ draftName role ∧ (t'.HasDirectory s.root home →
          ∃ content, t'.node? (home.entry (fileName r)) = some (.file content)) :=
      fun listed hroles r hr => ⟨fileName_ne_draftName, fun hdirectory =>
        exists_file_of_mem_roles hdirectory hroles hr⟩
    rcases halways.of_stops hstops with hdrafted | hwritten
    · exact ⟨.inl (hdrafted.file role), fun place _ hdraft => hdrafted.others place hdraft, hlisted⟩
    · exact ⟨.inr hwritten.file, hwritten.others, hlisted⟩
  · exact Program.runs_run (fun action t => .performed action) _ t

namespace Sample

def place : Location := [Path.bytes "meta"]

/-- A directory with the document of one role, to which a symbolic link leads from the file name of
another, and with a directory and a stale draft under the names of a third. -/
def tree : FileTree :=
  ((((FileTree.put {} place .directory).put (place.entry (fileName "b")) (.file "{}".toUTF8)).put
    (place.entry (fileName "a")) .directory).put
    (place.entry (draftName "a")) (.file "[".toUTF8)).put
    (place.entry (fileName "c")) (.link (Path.bytes (fileName "b")))

/-- The same with a symbolic link in place of the draft. -/
def linkedDraft : FileTree :=
  tree.put (place.entry (draftName "a")) (.link (Path.bytes (fileName "b")))

/-- The same with a symbolic link that leads to the draft. -/
def linkedFile : FileTree :=
  tree.put (place.entry (fileName "c")) (.link (Path.bytes (draftName "a")))

theorem hasDirectory : tree.HasDirectory "meta" place :=
  ⟨by decide +kernel, .inr (by decide +kernel)⟩

theorem notLink (path : List UInt8) :
    tree.node? (place.entry (draftName "a")) ≠ some (.link path) := by
  have hnode : tree.node? (place.entry (draftName "a")) = some (.file "[".toUTF8) := by
    decide +kernel
  rw [hnode]
  simp

end Sample

/-- A write fails where a directory stands in the place of the file. It takes the stale draft away
and changes nothing else, also for whoever reads through a symbolic link. -/
theorem kept_of_write_sample : Sample.tree.HasDirectory "meta" Sample.place ∧
    (∀ path, Sample.tree.node? (Sample.place.entry (draftName "a")) ≠ some (.link path)) ∧
    ∃ t', (write ⟨"meta"⟩ "a" "[]".toUTF8).on Sample.tree
        = (.error (.file .isADirectory), t') ∧
      (∀ at_, at_ ≠ Sample.place.entry (draftName "a") → t'.node? at_ = Sample.tree.node? at_) ∧
      ((read ⟨"meta"⟩ "c").on t').1 = .ok "{}".toUTF8 ∧
      ((roles ⟨"meta"⟩).on t').1 = .ok ["b"] := by
  obtain ⟨hfailed, -, -, hperformed⟩ :=
    kept_of_write (s := ⟨"meta"⟩) Sample.hasDirectory "a" Sample.notLink "[]".toUTF8
  have hanswer : ((write ⟨"meta"⟩ "a" "[]".toUTF8).on Sample.tree).1
      = .error (.file .isADirectory) := by decide +kernel
  have hfound : ((read ⟨"meta"⟩ "c").on Sample.tree).1 = .ok "{}".toUTF8 := by decide +kernel
  have hlisted : ((roles ⟨"meta"⟩).on Sample.tree).1 = .ok ["b"] := by decide +kernel
  rw [hanswer] at hperformed
  obtain ⟨hsame, hread, hroles⟩ := hfailed _ _ hperformed
  refine ⟨Sample.hasDirectory, Sample.notLink, _, Prod.ext hanswer rfl, hsame, ?_,
    hroles.trans hlisted⟩
  rcases hread "c" with hunchanged | ⟨-, hdraft⟩
  · exact hunchanged.trans hfound
  · have hfile : Sample.tree.locate .through (Path.join "meta" (fileName "c"))
        = .ok (Sample.place.entry (fileName "b")) := by decide +kernel
    exact absurd (Except.ok.inj (hfile.symm.trans hdraft)) entry_fileName_ne_draftName

/-- Symbolic links let a write that fails damage what is stored. One in place of the draft leads the
bytes into the file of another role. One that leads from the file name of another role to the draft
has this role answer with what is in the draft, until the write takes the draft away. -/
theorem exists_damaged :
    (∃ t', (write ⟨"meta"⟩ "a" "[]".toUTF8).on Sample.linkedDraft
        = (.error (.file .isADirectory), t') ∧
      Sample.linkedDraft.node? (Sample.place.entry (fileName "b")) = some (.file "{}".toUTF8) ∧
      t'.node? (Sample.place.entry (fileName "b")) = some (.file "[]".toUTF8) ∧
      ((read ⟨"meta"⟩ "b").on Sample.linkedDraft).1 = .ok "{}".toUTF8 ∧
      ((read ⟨"meta"⟩ "b").on t').1 = .ok "[]".toUTF8) ∧
    ∃ t', (write ⟨"meta"⟩ "a" "[]".toUTF8).on Sample.linkedFile
        = (.error (.file .isADirectory), t') ∧
      ((read ⟨"meta"⟩ "c").on Sample.linkedFile).1 = .ok "[".toUTF8 ∧
      ((read ⟨"meta"⟩ "c").on t').1 = .error (.notFound "c") := by
  refine ⟨⟨_, Prod.ext ?_ rfl, ?_, ?_, ?_, ?_⟩, ⟨_, Prod.ext ?_ rfl, ?_, ?_⟩⟩
  all_goals decide +kernel

end DirectoryStore

end BinDelegation
