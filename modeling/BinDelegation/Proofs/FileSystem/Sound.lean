import BinDelegation.Proofs.FileSystem.Entries

/-!
# Sound file trees

In the tree of a file system every name is the name of a file, everything stands in a directory, and
there is a working directory. A new entry of a directory keeps this.

A `FileTree` is a dictionary from places to nodes, so nothing in the type keeps a file from standing
below another file. `Sound` is that condition. The results about single entries do not need it, as
they ask for the directory itself; those about whole subtrees do, since there a node must be
reachable through the places above it (`Sound.directory_of_append`).

The empty tree is sound, and other trees are built from it by putting new entries in directories.
-/

namespace BinDelegation.FileTree

variable {t : FileTree} {place : Location} {name : FileName} {node : FileNode}

/-- A tree as a file system has it. -/
structure Sound (t : FileTree) : Prop where
  isName : ∀ place name node, t.node? (place ++ [name]) = some node → Path.IsName name
  inDirectory : ∀ place name node, t.node? (place ++ [name]) = some node →
    t.node? place = some .directory
  workingDirectory : t.node? t.workingDirectory = some .directory

/-- The empty tree has its root and nothing else. -/
theorem node?_empty (place : Location) :
    (FileTree.node? {} place) = if place = [] then some .directory else none := rfl

/-- The empty tree is sound. -/
theorem sound_empty : Sound {} where
  isName place name node hnode := by
    rw [node?_empty, if_neg (by simp)] at hnode
    cases hnode
  inDirectory place name node hnode := by
    rw [node?_empty, if_neg (by simp)] at hnode
    cases hnode
  workingDirectory := rfl

/-- Something new is put in a directory. -/
theorem Sound.put (h : t.Sound) (hname : Path.IsName name)
    (hplace : t.node? place = some .directory) (hnew : t.node? (place ++ [name]) = none)
    (node : FileNode) : (t.put (place ++ [name]) node).Sound := by
  have hne : place ++ [name] ≠ [] := by simp
  -- What was a directory before is another place, and still one.
  have hdirectory {at_ : Location} (hat : t.node? at_ = some .directory) :
      (t.put (place ++ [name]) node).node? at_ = some .directory := by
    rw [node?_put hne, if_neg]
    · exact hat
    · rintro rfl
      cases hnew.symm.trans hat
  refine ⟨fun above last found hfound => ?_, fun above last found hfound => ?_,
    hdirectory h.workingDirectory⟩
  · rw [node?_put hne] at hfound
    split at hfound
    · next hsame =>
      obtain ⟨-, hlast⟩ := List.append_inj' hsame rfl
      exact List.singleton_inj.1 hlast ▸ hname
    · exact h.isName _ _ _ hfound
  · rw [node?_put hne] at hfound
    split at hfound
    · next hsame =>
      rw [List.append_inj_left' hsame rfl]
      exact hdirectory hplace
    · exact hdirectory (h.inDirectory _ _ _ hfound)

end BinDelegation.FileTree
