import BinDelegation.Proofs.Program
import BinDelegation.Proofs.Selection
import BinDelegation.Proofs.Store.Names

/-!
# The documents of a directory

What a store in a directory answers depends on the files of role names alone: reading a role on what
stands at the place of its file, and the list of roles on which of these places hold files.

Store operations are programs of file operations that may stop with an error. `Task.on` runs one on
a tree in which every operation goes as the tree performs it, and the lemmas on it follow the ways
in which such programs are put together.

`reading` gives the answer to a read as a function of the node at the place of the file, and
`on_read` proves the program equal to it where no symbolic link stands. The list of roles is sorted
and has no role twice, so it is determined by its members (`eq_of_pairwise_lt`), and that is how two
trees are compared in `on_roles_congr`.
-/

namespace BinDelegation

namespace DirectoryStore

variable {α β : Type} {s : DirectoryStore} {t t' : FileTree} {home : Location} {role : String}

/-! ## Tasks on a file tree -/

/-- What a task comes to on a file tree, and the tree behind it. -/
def Task.on (task : Task α) (t : FileTree) : Except StoreError α × FileTree :=
  task.run.run FileTree.perform t

/-- A task goes on with what it came to, or stops. -/
theorem on_bind (task : Task α) (f : α → Task β) (t : FileTree) :
    Task.on (task >>= f) t = match task.on t with
      | (.ok a, t') => (f a).on t'
      | (.error e, t') => (.error e, t') := by
  rw [Task.on, ExceptT.run_bind, Program.run_bind_state, Task.on]
  obtain ⟨answer, t'⟩ := task.run.run FileTree.perform t
  cases answer with
  | ok a => rfl
  | error e => rfl

theorem on_bind_of_ok {task : Task α} {f : α → Task β} {a : α} (h : task.on t = (.ok a, t')) :
    Task.on (task >>= f) t = (f a).on t' := by
  rw [on_bind, h]

theorem on_known (result : Except StoreError α) (t : FileTree) :
    (known result).on t = (result, t) := rfl

/-- A file operation comes to what the tree answers. -/
theorem on_operate (action : FileAction) (t : FileTree) : (operate action).on t
    = ((FileTree.perform action t).1.mapError .file, (FileTree.perform action t).2) := by
  rw [Task.on, operate, ExceptT.run_mk, Program.run_bind_state, Program.run_perform]
  obtain ⟨answer, t'⟩ := FileTree.perform action t
  cases answer with
  | ok result => rfl
  | error e => rfl

/-- A file operation that the tree performs succeeds. -/
theorem on_operate_of_ok {action : FileAction} {result : action.Result}
    (h : FileTree.perform action t = (.ok result, t')) :
    (operate action).on t = (.ok result, t') := by
  rw [on_operate, h]
  rfl

/-- A program that does not fail goes on with what it came to. -/
theorem on_lift (program : Program files α) (t : FileTree) :
    Task.on (ExceptT.lift program) t
      = (.ok (program.run FileTree.perform t).1, (program.run FileTree.perform t).2) := by
  rw [Task.on, ExceptT.run_lift, ← bind_pure_comp, Program.run_bind_state]
  rfl

theorem run_pathExists (path : String) (t : FileTree) :
    (pathExists path).run FileTree.perform t = ((t.kind path).isOk, t) := rfl

/-- The path of a role name is that of its file. -/
theorem pathFor_of_isValid (h : RoleName.isValid role = true) :
    s.pathFor role = .ok (Path.join s.root (fileName role)) := by
  rw [pathFor, requireRole_eq_ok.2 h]
  rfl

/-- There is no path for another text. -/
theorem pathFor_of_not_isValid (h : ¬ RoleName.isValid role = true) :
    s.pathFor role = .error (.invalidRole role) := by
  rw [pathFor, requireRole, if_neg h]
  rfl

/-! ## Reading -/

/-- What reading a role answers, by what stands at the place of its file. -/
def reading (s : DirectoryStore) (role : String) (node? : Option FileNode) :
    Except StoreError ByteArray :=
  if RoleName.isValid role then
    if Path.Fits s.root (fileName role) then
      match node? with
      | none => .error (.notFound role)
      | some (.file content) => .ok content
      | some .directory => .error (.file .isADirectory)
      | some (.link _) => .error (.file .tooManyLinks)
    else .error (.notFound role)
  else .error (.invalidRole role)

/-- Reading a role asks whether anything is there before the file is read. -/
theorem on_read_of_isValid (hvalid : RoleName.isValid role = true) : (s.read role).on t
    = (if (t.kind (Path.join s.root (fileName role))).isOk = true then
        (t.read (Path.join s.root (fileName role))).mapError .file
      else .error (.notFound role), t) := by
  rw [read, pathFor_of_isValid hvalid, on_bind, on_known]
  simp only
  rw [on_bind, on_lift, run_pathExists]
  simp only
  split
  · exact on_operate _ t
  · rfl

/-- Reading another text is refused before the directory is looked at. -/
theorem on_read_of_not_isValid (hvalid : ¬ RoleName.isValid role = true) :
    (s.read role).on t = (.error (.invalidRole role), t) := by
  rw [read, pathFor_of_not_isValid hvalid, on_bind, on_known]

/-- Reading a role depends on the place of its file. -/
theorem on_read (h : t.HasDirectory s.root home)
    (hlink : ∀ path, t.node? (home.entry (fileName role)) ≠ some (.link path)) :
    (s.read role).on t = (s.reading role (t.node? (home.entry (fileName role))), t) := by
  by_cases hvalid : RoleName.isValid role = true
  · have hplace : t.HasPlace s.root home (fileName role) := ⟨h, isName_fileName hvalid, hlink⟩
    rw [on_read_of_isValid hvalid]
    by_cases hfits : Path.Fits s.root (fileName role)
    · cases hnode : t.node? (home.entry (fileName role)) with
      | none =>
        -- Whether anything is there is asked first, so a missing file is never opened.
        have hmissing : ¬ (t.kind (Path.join s.root (fileName role))).isOk = true := by
          rw [hplace.isOk_kind_join]
          rintro ⟨-, node, hsome⟩
          cases hnode.symm.trans hsome
        simp only [reading, if_neg hmissing, if_pos hvalid, if_pos hfits]
      | some node =>
        have hfound := hplace.isOk_kind_join.2 ⟨hfits, node, hnode⟩
        have hfind : t.find .through (Path.join s.root (fileName role))
            = .ok (home.entry (fileName role), node) :=
          hplace.find_join_eq_ok.2 ⟨hfits, rfl, hnode⟩
        rw [if_pos hfound, FileTree.read, hfind]
        cases node with
        | file content => simp only [reading, if_pos hvalid, if_pos hfits]; rfl
        | directory => simp only [reading, if_pos hvalid, if_pos hfits]; rfl
        | link path => exact absurd hnode (hlink path)
    · have hmissing : ¬ (t.kind (Path.join s.root (fileName role))).isOk = true := by
        rw [hplace.isOk_kind_join]
        exact fun h => hfits h.1
      simp only [reading, if_neg hmissing, if_pos hvalid, if_neg hfits]
  · simp only [on_read_of_not_isValid hvalid, reading, if_neg hvalid]

/-! ## Listing -/

/-- The roles of the files among entries of a directory. -/
def rolesAmong (entries : List (Location × FileKind)) : List String :=
  entries.filterMap fun (names, kind) =>
    match names, kind with
    | [name], .file => roleOfFile? name
    | _, _ => none

/-- Listing is a walk down one level, of which the names of roles are kept. -/
theorem on_roles (s : DirectoryStore) (t : FileTree) :
    s.roles.on t = match t.walk s.root (some 1) with
      | .ok entries => (.ok ((rolesAmong entries).mergeSort (· ≤ ·)), t)
      | .error e => (.error (.listing s.root e), t) := by
  have hperform : FileTree.perform (.walk s.root (some 1)) t = (t.walk s.root (some 1), t) := rfl
  rw [roles, Task.on, ExceptT.run_mk, Program.run_bind_state, Program.run_perform, hperform]
  cases t.walk s.root (some 1) with
  | ok entries => rfl
  | error e => rfl

/-- Distinct texts in order ascend strictly. -/
theorem pairwise_lt_mergeSort {texts : List String} (h : texts.Nodup) :
    (texts.mergeSort (· ≤ ·)).Pairwise (· < ·) := by
  have hle := pairwise_mergeSort_key (fun text => text) texts
  have hne : (texts.mergeSort (· ≤ ·)).Nodup := (List.mergeSort_perm texts _).nodup_iff.2 h
  exact hle.imp₂ (fun a b hab hdiffer => Std.lt_of_le_of_ne hab hdiffer) hne

/-- A role is among entries if its file is. -/
theorem mem_rolesAmong {entries : List (Location × FileKind)} :
    role ∈ rolesAmong entries ↔
      RoleName.isValid role = true ∧ ([Path.bytes (fileName role)], .file) ∈ entries := by
  rw [rolesAmong, List.mem_filterMap]
  constructor
  · rintro ⟨⟨names, kind⟩, hmem, hrole⟩
    simp only at hrole
    split at hrole
    · next name =>
      obtain ⟨hvalid, rfl⟩ := roleOfFile?_eq_some.1 hrole
      exact ⟨hvalid, hmem⟩
    · cases hrole
  · rintro ⟨hvalid, hmem⟩
    exact ⟨_, hmem, roleOfFile?_eq_some.2 ⟨hvalid, rfl⟩⟩

/-- No role is found twice, as no entry is. -/
theorem nodup_rolesAmong {entries : List (Location × FileKind)} (h : (entries.map (·.1)).Nodup) :
    (rolesAmong entries).Nodup := by
  refine List.Pairwise.filterMap _ ?_ (List.pairwise_map.1 h)
  rintro ⟨names, kind⟩ ⟨names', kind'⟩ hdiffer role hrole role' hrole' rfl
  have hfile : role ∈ rolesAmong [(names, kind)] :=
    List.mem_filterMap.2 ⟨_, List.mem_cons_self, hrole⟩
  have hfile' : role ∈ rolesAmong [(names', kind')] :=
    List.mem_filterMap.2 ⟨_, List.mem_cons_self, hrole'⟩
  have hnames := (mem_rolesAmong.1 hfile).2
  have hnames' := (mem_rolesAmong.1 hfile').2
  rw [List.mem_singleton, Prod.mk.injEq] at hnames hnames'
  exact hdiffer (hnames.1.symm.trans hnames'.1)

/-- The list of roles is ordered, and has the roles whose files stand in the directory. -/
theorem exists_on_roles (h : t.HasDirectory s.root home) (hroot : s.root ≠ "") :
    ∃ listed, s.roles.on t = (.ok listed, t) ∧ listed.Pairwise (· < ·) ∧
      ∀ role, role ∈ listed ↔ RoleName.isValid role = true ∧
        ∃ content, t.node? (home.entry (fileName role)) = some (.file content) := by
  obtain ⟨entries, hwalk, hnodup, hentries⟩ := h.exists_walk hroot
  refine ⟨_, by rw [on_roles, hwalk], pairwise_lt_mergeSort (nodup_rolesAmong hnodup),
    fun role => ?_⟩
  rw [List.mem_mergeSort, mem_rolesAmong, hentries]
  refine and_congr_right fun _ => ?_
  constructor
  · rintro ⟨node, hnode, hkind⟩
    cases node with
    | file content => exact ⟨content, hnode⟩
    | directory => cases hkind
    | link path => cases hkind
  · rintro ⟨content, hnode⟩
    exact ⟨.file content, hnode, rfl⟩

/-- Two lists of texts that ascend strictly and have the same members are equal. -/
theorem eq_of_pairwise_lt {texts texts' : List String} (h : texts.Pairwise (· < ·))
    (h' : texts'.Pairwise (· < ·)) (hmem : ∀ text, text ∈ texts ↔ text ∈ texts') :
    texts = texts' := by
  have hnodup {texts : List String} (h : texts.Pairwise (· < ·)) : texts.Nodup := by
    refine h.imp fun {a b} hlt => ?_
    rintro rfl
    exact Std.lt_irrefl hlt
  refine ((List.perm_ext_iff_of_nodup (hnodup h) (hnodup h')).2 hmem).eq_of_pairwise ?_ h h'
  exact fun a b _ _ hab hba => absurd (Std.lt_trans hab hba) Std.lt_irrefl

/-- The empty path leads nowhere by itself, so there is nothing to list at it. -/
theorem on_roles_empty (h : s.root = "") (t : FileTree) :
    s.roles.on t = (.error (.listing "" .notFound), t) := by
  have hwalk : t.walk "" (some 1) = .error .notFound := rfl
  rw [on_roles, h, hwalk]

/-- A listed role has a file. -/
theorem exists_file_of_mem_roles (h : t.HasDirectory s.root home) {listed : List String}
    (hroles : (s.roles.on t).1 = .ok listed) (hrole : role ∈ listed) :
    ∃ content, t.node? (home.entry (fileName role)) = some (.file content) := by
  by_cases hempty : s.root = ""
  · rw [on_roles_empty hempty] at hroles
    cases hroles
  · obtain ⟨listed', hlisted, -, hmem⟩ := exists_on_roles h hempty
    rw [hlisted] at hroles
    cases hroles
    exact ((hmem role).1 hrole).2

/-- The list of roles depends on the files of role names alone. -/
theorem on_roles_congr (h : t.HasDirectory s.root home) (h' : t'.HasDirectory s.root home)
    (hfiles : ∀ role, RoleName.isValid role = true →
      t'.node? (home.entry (fileName role)) = t.node? (home.entry (fileName role))) :
    (s.roles.on t').1 = (s.roles.on t).1 := by
  by_cases hempty : s.root = ""
  · rw [on_roles_empty hempty, on_roles_empty hempty]
  -- Both walks succeed, and what they list are the same roles in the same order.
  · obtain ⟨listed, hlisted, hascend, hmem⟩ := exists_on_roles h hempty
    obtain ⟨listed', hlisted', hascend', hmem'⟩ := exists_on_roles h' hempty
    rw [hlisted, hlisted']
    refine congrArg Except.ok (eq_of_pairwise_lt hascend' hascend fun role => ?_)
    rw [hmem, hmem']
    refine and_congr_right fun hvalid => ?_
    rw [hfiles role hvalid]

/-- Reading a role depends on the ways in the tree and on what stands at the place that the path of
the role's file leads to, which is another one than that of the file if a symbolic link stands
there. -/
theorem on_read_congr (hways : t.SameWays t') (hworking : t'.workingDirectory = t.workingDirectory)
    (hsame : ∀ place, t.locate .through (Path.join s.root (fileName role)) = .ok place →
      t'.node? place = t.node? place) : ((s.read role).on t').1 = ((s.read role).on t).1 := by
  by_cases hvalid : RoleName.isValid role = true
  · rw [on_read_of_isValid hvalid, on_read_of_isValid hvalid]
    have hfind (found : Location × FileNode) :
        t'.find .through (Path.join s.root (fileName role)) = .ok found ↔
          t.find .through (Path.join s.root (fileName role)) = .ok found := by
      rw [FileTree.find_eq_ok, FileTree.find_eq_ok, hways.locate_eq_ok hworking]
      exact and_congr_right fun hlocate => by rw [hsame _ hlocate]
    cases hfound : t.find .through (Path.join s.root (fileName role)) with
    | ok found =>
      have hfound' := (hfind found).2 hfound
      simp only [FileTree.kind, FileTree.read, hfound, hfound']
    | error e =>
      -- Nothing is found in either tree, though it may be missed for different reasons.
      cases hfound' : t'.find .through (Path.join s.root (fileName role)) with
      | ok found => cases hfound.symm.trans ((hfind found).1 hfound')
      | error e' =>
        simp only [FileTree.kind, hfound, hfound']
        rfl
  · rw [on_read_of_not_isValid hvalid, on_read_of_not_isValid hvalid]

end DirectoryStore

end BinDelegation
