import BinDelegation.Proofs.Crew
import BinDelegation.Proofs.FileSystem.Operations
import BinDelegation.Proofs.Store.Drafts

/-!
# Writers in one directory

Everything that is done to store a document of a role is done at two places of the directory, those
of the file and of the draft of the role. The places of two roles are four different ones. So
whoever writes documents of different roles works apart from the others, file operation by file
operation. A symbolic link under the name of a document is no hindrance, for the draft takes its
place; one under the name of a draft is, for a document would be written through it.

`Open` is the invariant of the directory while it is written to. It compares the tree with a `base`
in which the directory is led to without links under the names of documents: such a link may be
needed to get to the directory at first, and would be gone after the first document.

Each operation of a writer is one of four (`Writes`). `Open.of_perform` says what one of them
leaves, `Open.alike_perform` that its answer depends on the places of the role alone, and the two
together are the conditions of `Apart` (`apart_writers`).
-/

namespace BinDelegation.DirectoryStore

variable {s : DirectoryStore} {home place : Location} {role role' : String} {roles : List String}
  {base t t' u : FileTree} {action : FileAction}

/-! ## The places of a role -/

/-- The places of the file and of the draft of a role. -/
def placesOf (home : Location) (role : String) : List Location :=
  [home.entry (fileName role), home.entry (draftName role)]

/-- The name of a draft tells the role. -/
theorem draftName_inj (h : draftName role = draftName role') : role = role' := by
  have hlist := congrArg String.toList h
  simp only [draftName, String.toList_append] at hlist
  exact String.toList_inj.1 (List.append_cancel_left (List.append_cancel_right hlist))

/-- The files and the drafts of two roles have four names. -/
theorem nodup_names (h : role ≠ role') :
    [fileName role, draftName role, fileName role', draftName role'].Nodup := by
  simp only [List.nodup_cons, List.mem_cons, List.not_mem_nil, or_false, not_or, not_false_eq_true,
    List.nodup_nil, and_true]
  exact ⟨⟨fileName_ne_draftName, fun heq => h (fileName_inj heq), fileName_ne_draftName⟩,
    ⟨fileName_ne_draftName.symm, fun heq => h (draftName_inj heq)⟩, fileName_ne_draftName⟩

/-- The places of two roles are different ones. -/
theorem disjoint_placesOf (h : role ≠ role') (hplace : place ∈ placesOf home role) :
    place ∉ placesOf home role' := by
  have hnames := (List.nodup_append.1 (show ([fileName role, draftName role]
    ++ [fileName role', draftName role']).Nodup from nodup_names h)).2.2
  have hentry {role : String} (hplace : place ∈ placesOf home role) :
      ∃ name ∈ [fileName role, draftName role], home.entry name = place :=
    List.mem_map.1 hplace
  intro hplace'
  obtain ⟨name, hname, rfl⟩ := hentry hplace
  obtain ⟨name', hname', heq⟩ := hentry hplace'
  exact hnames name hname name' hname' (Location.entry_inj heq).symm

/-! ## The actions of a writer -/

/-- The file operations by which a document of a role is written. -/
inductive Writes (s : DirectoryStore) (role : String) : FileAction → Prop where
  | create : Writes s role (.create (Path.join s.root (draftName role)))
  | fill (bytes : ByteArray) : Writes s role (.write (Path.join s.root (draftName role)) bytes)
  | settle : Writes s role
      (.rename (Path.join s.root (draftName role)) (Path.join s.root (fileName role)))
  | drop : Writes s role (.remove (Path.join s.root (draftName role)))

section

variable {α β : Type} {allowed : FileAction → Prop} {task : Task α} {f : α → Task β}

/-- All that a task asks of a file system is allowed. -/
def Task.Asks (allowed : FileAction → Prop) (task : Task α) : Prop :=
  Program.Asks (I := files) allowed task.run

/-- What a task asks is allowed if it is in both of its parts. -/
theorem Task.Asks.bind (h : task.Asks allowed) (hf : ∀ a, (f a).Asks allowed) :
    Task.Asks allowed (task >>= f) := Program.Asks.bindExcept h hf

/-- A file operation asks for itself. -/
theorem asks_operate (h : allowed action) : (operate action).Asks allowed := by
  refine (Program.asks_perform (I := files) h).bind fun answer => ?_
  cases answer with
  | ok result => exact .done
  | error e => exact .done

/-- To settle a draft is to rename it, or to remove it. -/
theorem asks_settleDraft {draft target : String} (hrename : allowed (.rename draft target))
    (hremove : allowed (.remove draft)) : (settleDraft draft target).Asks allowed := by
  refine (Program.asks_perform (I := files) hrename).bind fun answer => ?_
  cases answer with
  | ok result => exact .done
  | error e => exact (Program.asks_perform (I := files) hremove).bind fun _ => .done

end

/-- What is done to write a document of a role, which is nothing if the role is no role name. -/
theorem asks_write (s : DirectoryStore) (role : String) (bytes : ByteArray) :
    (s.write role bytes).Asks fun action =>
      RoleName.isValid role = true ∧ s.Writes role action := by
  by_cases hvalid : RoleName.isValid role = true
  · have hwrite : s.write role bytes = do
        operate (.create (Path.join s.root (draftName role)))
        operate (.write (Path.join s.root (draftName role)) bytes)
        settleDraft (Path.join s.root (draftName role)) (Path.join s.root (fileName role))
        return Path.join s.root (fileName role) := by
      rw [write, pathFor_of_isValid hvalid]
      rfl
    rw [hwrite]
    refine (asks_operate ⟨hvalid, .create⟩).bind fun _ => ?_
    refine (asks_operate ⟨hvalid, .fill bytes⟩).bind fun _ => ?_
    exact (asks_settleDraft ⟨hvalid, .settle⟩ ⟨hvalid, .drop⟩).bind fun _ => .done
  · rw [write, pathFor_of_not_isValid hvalid]
    exact .done

/-- To answer a call is to write a document of its role. -/
theorem asks_answer (s : DirectoryStore) (call : StoreCall) : (s.answer call).Asks fun action =>
    RoleName.isValid call.role = true ∧ s.Writes call.role action := by
  refine Program.Asks.bind (asks_write s call.role call.bytes) fun answer => ?_
  cases answer with
  | ok path => exact .done
  | error e => exact .done

/-! ## Directories for documents -/

/-- A tree with a directory for the documents of some roles. It differs in files alone from one in
which the path of the directory leads there without symbolic links under the names of the documents,
and under the names of their drafts there are no symbolic links. -/
structure Open (s : DirectoryStore) (home : Location) (roles : List String) (base t : FileTree) :
    Prop where
  directory : base.HasDirectory s.root home
  file : ∀ role ∈ roles, ∀ path, base.node? (home.entry (fileName role)) ≠ some (.link path)
  workingDirectory : t.workingDirectory = base.workingDirectory
  nodes : ∀ at_, t.node? at_ = base.node? at_ ∨ base.Yields at_
  draft : ∀ role ∈ roles, ∀ path, t.node? (home.entry (draftName role)) ≠ some (.link path)

/-- A tree without the symbolic links under the names of documents. -/
def withoutLinks (home : Location) (roles : List String) (t : FileTree) : FileTree :=
  t.unlinked (roles.map fun role => home.entry (fileName role))

namespace Open

variable (h : s.Open home roles base t) (hrole : role ∈ roles)

/-- A directory that is led to without links under the names of documents can be written to. -/
theorem of_withoutLinks (hdirectory : (withoutLinks home roles t).HasDirectory s.root home)
    (hdraft : ∀ role ∈ roles, ∀ path, t.node? (home.entry (draftName role)) ≠ some (.link path)) :
    s.Open home roles (withoutLinks home roles t) t := by
  refine ⟨hdirectory, fun role hrole => FileTree.unlinked_notLink (List.mem_map_of_mem hrole),
    FileTree.workingDirectory_unlinked.symm, fun at_ => ?_, hdraft⟩
  exact (t.node?_unlinked _ at_).imp Eq.symm fun hgone => FileTree.yields_of_none hgone.2

include h in
theorem hasDirectory : t.HasDirectory s.root home :=
  h.directory.congr h.workingDirectory h.nodes

include h hrole in
/-- The draft of a role name can be put in the directory. -/
theorem hasPlace (hvalid : RoleName.isValid role = true) :
    t.HasPlace s.root home (draftName role) :=
  ⟨h.hasDirectory, isName_draftName hvalid, h.draft role hrole⟩

include h in
/-- Where something else is written than a directory or a symbolic link, nothing else stood. -/
theorem yields (hyields : t.Yields place) : base.Yields place := by
  rcases h.nodes place with hsame | hbase
  · exact fun node hnode => hyields node (hsame.trans hnode)
  · exact hbase

include h hrole in
/-- A file can be written under the name of a document, unless a directory stands there. -/
theorem yields_file (hdirectory : t.node? (home.entry (fileName role)) ≠ some .directory) :
    base.Yields (home.entry (fileName role)) := by
  rcases h.nodes (home.entry (fileName role)) with hsame | hbase
  · exact FileTree.yields_of_ne (hsame ▸ hdirectory) (h.file role hrole)
  · exact hbase

include h in
/-- The directory stays one when a place that is free has a file, or nothing. -/
theorem congr (hworking : t'.workingDirectory = t.workingDirectory) (hbase : base.Yields place)
    (hplace : t'.Yields place) (hsame : ∀ at_, at_ ≠ place → t'.node? at_ = t.node? at_) :
    s.Open home roles base t' := by
  refine ⟨h.directory, h.file, hworking.trans h.workingDirectory, fun at_ => ?_,
    fun role hrole path => ?_⟩
  · by_cases hat : at_ = place
    · exact .inr (hat ▸ hbase)
    · rw [hsame at_ hat]
      exact h.nodes at_
  · by_cases hat : home.entry (draftName role) = place
    · rw [hat]
      exact hplace.notLink path
    · rw [hsame _ hat]
      exact h.draft role hrole path

end Open

/-! ## What a writer leaves -/

/-- A tree in which the places of a role alone have changed, and in which documents can be written
as before. -/
structure Advanced (s : DirectoryStore) (home : Location) (roles : List String) (base : FileTree)
    (role : String) (t t' : FileTree) : Prop where
  isOpen : s.Open home roles base t'
  others : ∀ place, place ∉ placesOf home role → t'.node? place = t.node? place

namespace Advanced

theorem refl (h : s.Open home roles base t) : s.Advanced home roles base role t t :=
  ⟨h, fun _ _ => rfl⟩

theorem trans (h : s.Advanced home roles base role t t')
    (h' : s.Advanced home roles base role t' u) : s.Advanced home roles base role t u :=
  ⟨h'.isOpen, fun place hplace => (h'.others place hplace).trans (h.others place hplace)⟩

/-- An operation that fails changes nothing. -/
theorem after (h : s.Open home roles base t) {result : Except FileError FileTree}
    (hok : ∀ t', result = .ok t' → s.Advanced home roles base role t t') :
    s.Advanced home roles base role t (t.after result).2 := by
  cases result with
  | ok t' => exact hok t' rfl
  | error e => exact refl h

/-- Putting a file at a place of the role is a change there. -/
theorem put (h : s.Open home roles base t) (hplace : place ∈ placesOf home role) (hne : place ≠ [])
    (hbase : base.Yields place) (content : ByteArray) :
    s.Advanced home roles base role t (t.put place (.file content)) := by
  have hsame (at_ : Location) (hat : at_ ≠ place) :
      (t.put place (.file content)).node? at_ = t.node? at_ := by
    rw [FileTree.node?_put hne, if_neg hat]
  exact ⟨h.congr rfl hbase (FileTree.yields_put hne content) hsame,
    fun at_ hat => hsame at_ fun heq => hat (heq ▸ hplace)⟩

/-- Clearing a place of the role is a change there. -/
theorem clear (h : s.Open home roles base t) (hplace : place ∈ placesOf home role)
    (hne : place ≠ []) (hbase : base.Yields place) :
    s.Advanced home roles base role t (t.clear place) := by
  have hsame (at_ : Location) (hat : at_ ≠ place) : (t.clear place).node? at_ = t.node? at_ := by
    rw [FileTree.node?_clear hne, if_neg hat]
  exact ⟨h.congr rfl hbase (FileTree.yields_clear hne) hsame,
    fun at_ hat => hsame at_ fun heq => hat (heq ▸ hplace)⟩

end Advanced

namespace Open

variable (h : s.Open home roles base t) (hrole : role ∈ roles)
  (hvalid : RoleName.isValid role = true)

include h hrole hvalid in
/-- A writer changes the places of its role alone. -/
theorem of_perform (hwrites : s.Writes role action) :
    s.Advanced home roles base role t (FileTree.perform action t).2 := by
  have hplace := h.hasPlace hrole hvalid
  have hdraftIn : home.entry (draftName role) ∈ placesOf home role :=
    List.mem_cons_of_mem _ List.mem_cons_self
  -- A draft that has a file did not stand in place of a directory or of a symbolic link.
  have hfilled {content : ByteArray}
      (hnode : t.node? (home.entry (draftName role)) = some (.file content)) :
      base.Yields (home.entry (draftName role)) :=
    h.yields fun node hsome => ⟨content, Option.some.inj (hsome.symm.trans hnode)⟩
  have hne := home.entry_ne_nil
  cases hwrites with
  | create =>
    refine .after h fun t' hdone => ?_
    obtain ⟨-, hdirectory, rfl⟩ := hplace.create_eq_ok.1 hdone
    exact .put h hdraftIn (hne _) (h.yields (FileTree.yields_of_ne hdirectory hplace.notLink)) _
  | fill bytes =>
    refine .after h fun t' hdone => ?_
    obtain ⟨-, ⟨old, hold⟩, rfl⟩ := hplace.write_eq_ok.1 hdone
    exact .put h hdraftIn (hne _) (hfilled hold) _
  | settle =>
    refine .after h fun t' hdone => ?_
    obtain ⟨-, -, hdirectory, content, hcontent, rfl⟩ :=
      (hplace.rename_eq_ok (isName_fileName hvalid)).1 hdone
    -- Renaming is two changes, and both are at places of the role.
    have hcleared := Advanced.clear h hdraftIn (hne _) (hfilled hcontent)
    exact hcleared.trans
      (.put hcleared.isOpen List.mem_cons_self (hne _) (h.yields_file hrole hdirectory) _)
  | drop =>
    refine .after h fun t' hdone => ?_
    obtain ⟨-, ⟨old, hold⟩, rfl⟩ := hplace.remove_eq_ok.1 hdone
    exact .clear h hdraftIn (hne _) (hfilled hold)

include h hrole hvalid in
/-- What a writer is answered, and what it leaves at the places of its role, depends on what stands
there. -/
theorem alike_perform (hu : s.Open home roles base u)
    (halike : FileTree.Alike (placesOf home role) t u) (hwrites : s.Writes role action) :
    (FileTree.perform action t).1 = (FileTree.perform action u).1 ∧
      FileTree.Alike (placesOf home role) (FileTree.perform action t).2
        (FileTree.perform action u).2 := by
  have hplace := h.hasPlace hrole hvalid
  have hplace' := hu.hasPlace hrole hvalid
  have hdraftIn : home.entry (draftName role) ∈ placesOf home role :=
    List.mem_cons_of_mem _ List.mem_cons_self
  cases hwrites with
  | create => exact halike.create hplace hplace' hdraftIn
  | fill bytes => exact halike.write hplace hplace' hdraftIn bytes
  | settle =>
    exact halike.rename hplace hplace' hdraftIn (isName_fileName hvalid) List.mem_cons_self
  | drop => exact halike.remove hplace hplace' hdraftIn

end Open

/-! ## Writers apart -/

/-- What a writer owns: the places of its role. Without a role, one owns the places of no role. -/
def Owns (home : Location) (roles : List String) : Option String → Location → Prop
  | some role, place => place ∈ placesOf home role
  | none, place => ∀ role ∈ roles, place ∉ placesOf home role

/-- What an owner does: to write documents of its role. -/
def Does (s : DirectoryStore) (roles : List String) : Option String → FileAction → Prop
  | some role, action => role ∈ roles ∧ RoleName.isValid role = true ∧ s.Writes role action
  | none, _ => False

/-- What an owner sees: the working directory, and what stands at the places that it owns. -/
def view (home : Location) (roles : List String) (owner : Option String) (t : FileTree) :
    Location × ({place : Location // Owns home roles owner place} → Option FileNode) :=
  (t.workingDirectory, fun place => t.node? place.1)

/-- An owner sees the same if the working directory and its places are the same. -/
theorem view_eq_iff {owner : Option String} : view home roles owner t = view home roles owner u ↔
    t.workingDirectory = u.workingDirectory ∧
      ∀ place, Owns home roles owner place → t.node? place = u.node? place := by
  rw [view, view, Prod.mk.injEq, funext_iff, Subtype.forall]

/-- A place that another owner owns is none of the role. -/
theorem not_owns_of_ne {other : Option String} (hrole : role ∈ roles) (hother : other ≠ some role)
    (howns : Owns home roles other place) : place ∉ placesOf home role := by
  cases other with
  | none => exact howns role hrole
  | some role' => exact disjoint_placesOf (fun heq => hother (congrArg some heq)) howns

/-- No other owner sees what has changed at the places of a role. -/
theorem Open.view_eq (h : s.Open home roles base t) (hrole : role ∈ roles)
    (hadvanced : s.Advanced home roles base role t t') {other : Option String}
    (hother : other ≠ some role) : view home roles other t' = view home roles other t :=
  view_eq_iff.2 ⟨hadvanced.isOpen.workingDirectory.trans h.workingDirectory.symm,
    fun place howns => hadvanced.others place (not_owns_of_ne hrole hother howns)⟩

/-- Whoever writes documents of one role gets in nobody's way who writes documents of others. -/
theorem apart_writers (s : DirectoryStore) (home : Location) (roles : List String)
    (base : FileTree) : Apart (I := files) FileTree.perform (s.Does roles)
      (s.Open home roles base) (view home roles) := by
  -- A directory stays one, an owner is answered by what it sees, and others see no change.
  constructor
  · intro owner action t hopen hdoes
    cases owner with
    | none => exact hdoes.elim
    | some role => exact (hopen.of_perform hdoes.1 hdoes.2.1 hdoes.2.2).isOpen
  · intro owner action t u hopen hopen' hdoes hview
    cases owner with
    | none => exact hdoes.elim
    | some role =>
      obtain ⟨hrole, hvalid, hwrites⟩ := hdoes
      obtain ⟨hanswer, halike⟩ :=
        hopen.alike_perform hrole hvalid hopen' (view_eq_iff.1 hview).2 hwrites
      refine ⟨hanswer, view_eq_iff.2 ⟨?_, halike⟩⟩
      rw [(hopen.of_perform hrole hvalid hwrites).isOpen.workingDirectory,
        (hopen'.of_perform hrole hvalid hwrites).isOpen.workingDirectory]
  · intro owner other action t hopen hdoes hother
    cases owner with
    | none => exact hdoes.elim
    | some role =>
      exact hopen.view_eq hdoes.1 (hopen.of_perform hdoes.1 hdoes.2.1 hdoes.2.2) hother

end BinDelegation.DirectoryStore
