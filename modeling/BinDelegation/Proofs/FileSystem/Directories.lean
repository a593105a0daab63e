import BinDelegation.Proofs.FileSystem.Attempts
import BinDelegation.Proofs.FileSystem.Sound
import BinDelegation.Proofs.Program

/-!
# Making directories

Directories are made where nothing stands, the ones above first, and however that goes, nothing else
is changed. Where it succeeds the path leads to a directory, be it one that was there before.

`Grown` is what such work leaves: a tree with all that the other one has, and directories besides.
It composes, so it is followed through the operations of a program step by step. A single directory
is made at a place where nothing stood, and the path leads to it then (`follow_put_directory`),
which is shown along the steps of the path as far as they go through what was there before.

Making the directories above is a recursion on the paths upward from a path. It fails, or succeeds
with the last directory being the one that was asked for; what failed on the way may have left some
of the directories above.
-/

namespace BinDelegation

namespace FileTree

variable {t t' u : FileTree} {place found : Location} {steps : List PathStep} {links : Nat}
  {path : String}

/-- A tree has all that another one has, and directories besides. -/
structure Grown (t t' : FileTree) : Prop where
  workingDirectory : t'.workingDirectory = t.workingDirectory
  nodes : ∀ place, t'.node? place = t.node? place ∨
    t.node? place = none ∧ t'.node? place = some .directory

namespace Grown

theorem refl : Grown t t := ⟨rfl, fun _ => .inl rfl⟩

/-- What grows twice has grown. -/
theorem trans (h : Grown t t') (h' : Grown t' u) : Grown t u := by
  refine ⟨h'.workingDirectory.trans h.workingDirectory, fun place => ?_⟩
  rcases h.nodes place with hsame | ⟨hnew, hdirectory⟩
  · rw [← hsame]
    exact h'.nodes place
  · refine .inr ⟨hnew, ?_⟩
    rcases h'.nodes place with hsame' | ⟨hnone, -⟩
    · exact hsame'.trans hdirectory
    · cases hnone.symm.trans hdirectory

/-- A directory where nothing stood is all that is new. -/
theorem put (h : t.node? place = none) : Grown t (t.put place .directory) := by
  have hne : place ≠ [] := by
    rintro rfl
    cases h
  refine ⟨rfl, fun at_ => ?_⟩
  rw [node?_put hne]
  split
  · next hat => exact .inr ⟨hat ▸ h, rfl⟩
  · exact .inl rfl

/-- What stood in the tree stands there still. -/
theorem node? (h : Grown t t') {node : FileNode} (hnode : t.node? place = some node) :
    t'.node? place = some node := by
  rcases h.nodes place with hsame | ⟨hnone, -⟩
  · exact hsame.trans hnode
  · cases hnone.symm.trans hnode

/-- No symbolic link is new. -/
theorem notLink (h : Grown t t') (hlink : ∀ path, t.node? place ≠ some (.link path))
    (path : List UInt8) : t'.node? place ≠ some (.link path) := by
  rcases h.nodes place with hsame | ⟨-, hdirectory⟩
  · rw [hsame]
    exact hlink path
  · rw [hdirectory]
    simp

end Grown

/-! ## New directories -/

/-- A path to a place for a directory leads to the directory once it is there. -/
theorem follow_put_directory (h : t.follow .toDirectory links place steps = .ok found)
    (hnew : t.node? found = none) :
    (t.put found .directory).follow .through links place steps = .ok found := by
  have hne : found ≠ [] := by
    rintro rfl
    cases hnew
  have hfound : (t.put found .directory).node? found = some .directory := by
    rw [node?_put hne, if_pos rfl]
  have hkept {at_ : Location} {node : FileNode} (hnode : t.node? at_ = some node) :
      (t.put found .directory).node? at_ = some node := (Grown.put hnew).node? hnode
  induction links using Nat.strongRecOn generalizing place steps with | _ links ihLinks
  induction steps generalizing place with
  | nil =>
    have harrived : t.follow .toDirectory links place [] = .ok place := follow_arrived rfl
    cases harrived.symm.trans h
    exact follow_arrived rfl
  | cons step rest ih =>
    cases step with
    | stay =>
      rw [follow_stay] at h ⊢
      exact ih h
    | slash =>
      rw [follow_slash] at h ⊢
      exact ih h
    | up =>
      rw [follow_up] at h ⊢
      exact ih h
    | into name =>
      obtain ⟨hlength, ⟨rfl, -, hlast, -⟩ | ⟨hnode, hrest⟩ | ⟨path, left, hnode, rfl, hrest⟩⟩ :=
        follow_into_cases h
      · -- The last name: here the directory is put, and nothing but a slash is behind it.
        rw [follow_directory (by simp) hlength hfound]
        have hrest : rest = [] ∨ rest = [.slash] := by
          simpa [Approach.isLast, List.isEmpty_iff] using hlast
        rcases hrest with rfl | rfl
        · exact follow_arrived rfl
        · rw [follow_slash]
          exact follow_arrived rfl
      · rw [follow_directory (by simp) hlength (hkept hnode)]
        exact ih hrest
      · rw [follow_link (by simp) (by simp [Approach.followsLast]) hlength (hkept hnode)]
        exact ihLinks left (Nat.lt_succ_self left) hrest

/-- A directory is made where there was nothing, and its path leads to it. -/
theorem hasDirectory_of_makeDirectory (h : t.makeDirectory path = .ok t') :
    Grown t t' ∧ ∃ home, t'.HasDirectory path home := by
  obtain ⟨place, hlocate, hmake⟩ := bind_eq_ok.1 h
  split at hmake
  · cases hmake
  · next hnew =>
    cases hmake
    obtain ⟨hzero, hne, hlength, hfollow⟩ := locate_eq_ok.1 hlocate
    have hplace : place ≠ [] := by
      rintro rfl
      cases hnew
    refine ⟨.put hnew, place, ?_, .inr (locate_eq_ok.2 ⟨hzero, hne, hlength, ?_⟩)⟩
    · rw [node?_put hplace, if_pos rfl]
    · exact follow_put_directory hfollow hnew

/-- What is told to be a directory is one. -/
theorem hasDirectory_of_kind (h : t.kind path = .ok .directory) :
    ∃ home, t.HasDirectory path home := by
  obtain ⟨⟨place, node⟩, hfind, hkind⟩ := bind_eq_ok.1 h
  obtain ⟨hlocate, hnode⟩ := find_eq_ok.1 hfind
  cases node with
  | directory => exact ⟨place, hnode, .inr hlocate⟩
  | file content => cases hkind
  | link path => cases hkind

end FileTree

/-! ## Directories and those above them -/

open FileTree (Attempt Grown)

variable {t t' : FileTree} {path : String} {answer : Except FileError Unit}

/-- Asking whether a path leads to a directory changes nothing, and the answer is right if it is
yes. -/
theorem kind_of_pathIsDirectory {isDirectory : Bool}
    (h : Program.Runs Attempt (pathIsDirectory path) t isDirectory t') :
    t' = t ∧ (isDirectory = true → t.kind path = .ok .directory) := by
  obtain ⟨told, t₁, htold, hrest⟩ := Program.runs_bind.1 h
  rw [Program.runs_perform (I := files)] at htold
  cases (FileTree.Reads.kind path).eq_of_attempt htold
  split at hrest
  · obtain ⟨rfl, rfl⟩ := Program.runs_done.1 hrest
    exact ⟨rfl, fun _ => congrArg Prod.fst htold.of_ok⟩
  · obtain ⟨rfl, rfl⟩ := Program.runs_done.1 hrest
    exact ⟨rfl, fun hfalse => by cases hfalse⟩

/-- However it goes to make a directory, nothing but a directory is new; and if it succeeds, the
path leads to one. -/
theorem grown_of_makeOneDirectory (h : Program.Runs Attempt (makeOneDirectory path) t answer t') :
    Grown t t' ∧ (answer = .ok () → ∃ home, t'.HasDirectory path home) := by
  obtain ⟨made, t₁, hmade, hrest⟩ := Program.runs_bind.1 h
  rw [Program.runs_perform (I := files)] at hmade
  rcases hmade.makeDirectory_cases with ⟨rfl, hnew⟩ | ⟨⟨e, rfl⟩, rfl⟩
  · obtain ⟨rfl, rfl⟩ := Program.runs_done.1 hrest
    obtain ⟨hgrown, hhome⟩ := FileTree.hasDirectory_of_makeDirectory hnew
    exact ⟨hgrown, fun _ => hhome⟩
  -- The directory could not be made. It may have been there.
  · obtain ⟨isDirectory, t₂, hasked, hrest⟩ := Program.runs_bind.1 hrest
    obtain ⟨rfl, hkind⟩ := kind_of_pathIsDirectory hasked
    cases isDirectory with
    | true =>
      obtain ⟨rfl, rfl⟩ := Program.runs_done.1 hrest
      exact ⟨.refl, fun _ => FileTree.hasDirectory_of_kind (hkind rfl)⟩
    | false =>
      obtain ⟨rfl, rfl⟩ := Program.runs_done.1 hrest
      exact ⟨.refl, fun hok => by cases hok⟩

/-- However far it goes to make directories from the top down, only directories are new, and the
first of the paths leads to one if all goes well. -/
theorem grown_of_makeDirectoriesAlong {paths : List String}
    (h : Program.Runs Attempt (makeDirectoriesAlong paths) t answer t') :
    Grown t t' ∧ (answer = .ok () → ∀ path, paths.head? = some path → path ≠ "" →
      ∃ home, t'.HasDirectory path home) := by
  induction paths generalizing t t' answer with
  | nil =>
    obtain ⟨rfl, rfl⟩ := Program.runs_done.1 h
    exact ⟨.refl, fun _ path hpath => by cases hpath⟩
  | cons path above ih =>
    rw [makeDirectoriesAlong] at h
    split at h
    · next hempty =>
      obtain ⟨rfl, rfl⟩ := Program.runs_done.1 h
      refine ⟨.refl, fun _ path' hpath hne => ?_⟩
      cases hpath
      exact absurd hempty hne
    · -- It is enough that the last of what was done was to make this directory.
      suffices hlast : Grown t t' ∧ (answer = .ok () → ∃ home, t'.HasDirectory path home) from
        ⟨hlast.1, fun hok path' hpath _ => by cases hpath; exact hlast.2 hok⟩
      obtain ⟨first, t₁, hfirst, hrest⟩ := Program.runs_bind.1 h
      obtain ⟨hgrown, hhome⟩ := grown_of_makeOneDirectory hfirst
      split at hrest
      -- Something above was missing, so the directories above come first, and then this one again.
      · obtain ⟨made, t₂, hmade, hrest⟩ := Program.runs_bind.1 hrest
        obtain ⟨hgrown', -⟩ := ih hmade
        split at hrest
        · obtain ⟨hgrown'', hhome'⟩ := grown_of_makeOneDirectory hrest
          exact ⟨(hgrown.trans hgrown').trans hgrown'', hhome'⟩
        · obtain ⟨rfl, rfl⟩ := Program.runs_done.1 hrest
          exact ⟨hgrown.trans hgrown', fun hok => by cases hok⟩
      · obtain ⟨rfl, rfl⟩ := Program.runs_done.1 hrest
        exact ⟨hgrown, hhome⟩

end BinDelegation
