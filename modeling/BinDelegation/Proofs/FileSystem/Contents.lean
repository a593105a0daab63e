import BinDelegation.Proofs.FileSystem.Directories

/-!
# What files hold

Where a path leads is settled by the directories and symbolic links on its way, and not by what any
file holds. So a file that has been filled is read back under the path by which it was filled,
whatever links there are on the way, and it still is when directories have been made.

`Keeps` relates a tree to another one that has all its directories and links, and a file wherever it
has one, but perhaps with another content. A path to something that is there leads to the same place
in both. That is shown along the steps of the path, with an induction on the number of links that
may still be followed around the one on the steps: a link starts the steps anew with one link less.

Two changes of a tree keep it in this sense: another content for a file (`keeps_put`), and new
directories (`Grown.keeps`).
-/

namespace BinDelegation.FileTree

variable {t t' : FileTree} {links : Nat} {place found : Location} {steps : List PathStep}
  {path : String} {node : FileNode} {content : ByteArray}

/-- What stood in a tree stands in another one, but files may hold something else. -/
structure Keeps (t t' : FileTree) : Prop where
  workingDirectory : t'.workingDirectory = t.workingDirectory
  directory : ∀ place, t.node? place = some .directory → t'.node? place = some .directory
  link : ∀ place path, t.node? place = some (.link path) → t'.node? place = some (.link path)
  file : ∀ place content, t.node? place = some (.file content) →
    ∃ content', t'.node? place = some (.file content')

/-- New directories leave all that was there. -/
theorem Grown.keeps (h : Grown t t') : Keeps t t' where
  workingDirectory := h.workingDirectory
  directory _ hnode := h.node? hnode
  link _ _ hnode := h.node? hnode
  file _ content hnode := ⟨content, h.node? hnode⟩

/-- Another content for a file changes nothing else. -/
theorem keeps_put (h : t.node? place = some (.file content)) (content' : ByteArray) :
    Keeps t (t.put place (.file content')) := by
  have hne : place ≠ [] := by
    rintro rfl
    cases h
  -- Whatever is no file stands elsewhere, and stays.
  have hother {at_ : Location} {node : FileNode} (hnode : t.node? at_ = some node)
      (hfile : ∀ content, node ≠ .file content) :
      (t.put place (.file content')).node? at_ = some node := by
    rw [node?_put hne, if_neg]
    · exact hnode
    · rintro rfl
      exact hfile content (Option.some.inj (hnode.symm.trans h))
  refine ⟨rfl, fun at_ hnode => hother hnode (by simp),
    fun at_ path hnode => hother hnode (by simp), fun at_ old hnode => ?_⟩
  rw [node?_put hne]
  split
  · exact ⟨content', rfl⟩
  · exact ⟨old, hnode⟩

/-- A path to something that is there leads to the same place when files hold something else. -/
theorem Keeps.follow (hkeeps : Keeps t t') (h : t.follow .through links place steps = .ok found)
    (hfound : t.node? found = some node) : t'.follow .through links place steps = .ok found := by
  induction links using Nat.strongRecOn generalizing place steps with | _ links ihLinks
  induction steps generalizing place with
  | nil =>
    have harrived : t.follow .through links place [] = .ok place := follow_arrived rfl
    cases harrived.symm.trans h
    exact follow_arrived rfl
  | cons step rest ih =>
    cases step with
    | stay =>
      rw [follow_stay] at h ⊢
      exact ih h
    | slash =>
      rw [follow_slash] at h ⊢
      exact ih h
    | up =>
      rw [follow_up] at h ⊢
      exact ih h
    | into name =>
      obtain ⟨hlength, ⟨rfl, hdirectory, hlast, hlink⟩ | ⟨hnode, hrest⟩ |
        ⟨path, left, hnode, rfl, hrest⟩⟩ := follow_into_cases h
      · -- The last name is that of a file, and nothing is behind it.
        have hrest : rest = [] := by simpa [Approach.isLast, List.isEmpty_iff] using hlast
        cases node with
        | directory => exact absurd hfound hdirectory
        | link path => exact absurd hfound (hlink rfl path)
        | file content =>
          obtain ⟨content', hfile⟩ := hkeeps.file _ content hfound
          rw [hrest, follow_name (fun _ path => by rw [hfile]; simp), if_pos hlength]
      · rw [follow_directory (by simp) hlength (hkeeps.directory _ hnode)]
        exact ih hrest
      · rw [follow_link (by simp) (by simp [Approach.followsLast]) hlength (hkeeps.link _ _ hnode)]
        exact ihLinks left (Nat.lt_succ_self left) hrest

/-- What is found by a path is found at the same place when files hold something else. -/
theorem Keeps.find (hkeeps : Keeps t t') {node' : FileNode}
    (h : t.find .through path = .ok (place, node)) (hnode : t'.node? place = some node') :
    t'.find .through path = .ok (place, node') := by
  obtain ⟨hlocate, hfound⟩ := find_eq_ok.1 h
  obtain ⟨hzero, hne, hlength, hfollow⟩ := locate_eq_ok.1 hlocate
  refine find_eq_ok.2 ⟨locate_eq_ok.2 ⟨hzero, hne, hlength, ?_⟩, hnode⟩
  rw [hkeeps.workingDirectory]
  exact hkeeps.follow hfollow hfound

/-- What is read is the content of the file that the path leads to. -/
theorem read_eq_ok : t.read path = .ok content ↔
    ∃ place, t.find .through path = .ok (place, .file content) := by
  rw [read, bind_eq_ok]
  constructor
  · rintro ⟨⟨place, node⟩, hfind, hread⟩
    cases node with
    | file content =>
      cases hread
      exact ⟨place, hfind⟩
    | directory => cases hread
    | link path => cases hread
  · rintro ⟨place, hfind⟩
    exact ⟨_, hfind, rfl⟩

/-- A file that has been filled is read back. -/
theorem read_of_write (h : t.write path content = .ok t') : t'.read path = .ok content := by
  obtain ⟨⟨place, node⟩, hfind, hwrite⟩ := bind_eq_ok.1 h
  cases node with
  | file old =>
    cases hwrite
    have hnode := (find_eq_ok.1 hfind).2
    have hne : place ≠ [] := by
      rintro rfl
      cases hnode
    refine read_eq_ok.2 ⟨place, (keeps_put hnode content).find hfind ?_⟩
    rw [node?_put hne, if_pos rfl]
  | directory => cases hwrite
  | link path => cases hwrite

/-- What has been read is read again when directories have been made. -/
theorem Grown.read (h : Grown t t') (hread : t.read path = .ok content) :
    t'.read path = .ok content := by
  obtain ⟨place, hfind⟩ := read_eq_ok.1 hread
  exact read_eq_ok.2 ⟨place, h.keeps.find hfind (h.node? (find_eq_ok.1 hfind).2)⟩

end BinDelegation.FileTree
