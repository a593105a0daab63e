import BinDelegation.FileSystem.Action
import BinDelegation.Proofs.FileSystem.Entries

/-!
# What stands at a place decides

What an operation on an entry of a directory is answered depends on what stands at that place alone.
So in two trees with the same things at some places, an operation on these places is answered alike,
and they have the same things there afterwards. Every other place stays as it was.

The first part writes each operation out as a function of the node at the place: `create_join`,
`write_join`, `remove_join`, `rename_join`. Errors are included, in the order in which they are
found, since two runs are only alike if they fail alike.

The second part compares two trees. `Alike places` is the invariant, `AnsweredAlike` what one
operation has to show, and there is one lemma for each operation.
-/

namespace BinDelegation.FileTree

variable {t u : FileTree} {root name : String} {home place : Location} {places : List Location}

/-! ## Answers -/

/-- Looking up a name finds what stands at its place. -/
theorem HasPlace.find_join (h : t.HasPlace root home name) (approach : Approach) :
    t.find approach (Path.join root name)
      = if Path.Fits root name then
          match t.node? (home.entry name) with
          | some node => .ok (home.entry name, node)
          | none => .error .notFound
        else .error .nameTooLong := by
  rw [find, h.locate_join]
  split
  · rfl
  · rfl

/-- Creating a file puts an empty one at the place, unless a directory stands there. -/
theorem HasPlace.create_join (h : t.HasPlace root home name) :
    t.create (Path.join root name)
      = if Path.Fits root name then
          match t.node? (home.entry name) with
          | some .directory => .error .isADirectory
          | _ => .ok (t.put (home.entry name) (.file .empty))
        else .error .nameTooLong := by
  rw [create, h.locate_join]
  split
  · rfl
  · rfl

/-- Writing replaces the content of a file that is there. -/
theorem HasPlace.write_join (h : t.HasPlace root home name) (content : ByteArray) :
    t.write (Path.join root name) content
      = if Path.Fits root name then
          match t.node? (home.entry name) with
          | some (.file _) => .ok (t.put (home.entry name) (.file content))
          | some _ => .error .isADirectory
          | none => .error .notFound
        else .error .nameTooLong := by
  rw [write, h.find_join]
  split
  · cases t.node? (home.entry name) with
    | none => rfl
    | some node => cases node <;> rfl
  · rfl

/-- Removing clears the place of anything but a directory. -/
theorem HasPlace.remove_join (h : t.HasPlace root home name) :
    t.remove (Path.join root name)
      = if Path.Fits root name then
          match t.node? (home.entry name) with
          | some .directory => .error .isADirectory
          | some _ => .ok (t.clear (home.entry name))
          | none => .error .notFound
        else .error .nameTooLong := by
  rw [remove, h.find_join]
  split
  · cases t.node? (home.entry name) with
    | none => rfl
    | some node => cases node <;> rfl
  · rfl

/-- Renaming moves what stands at one place to another one, over a file or a symbolic link there. -/
theorem HasPlace.rename_join {target : String} (h : t.HasPlace root home name)
    (htarget : Path.IsName (Path.bytes target)) :
    t.rename (Path.join root name) (Path.join root target)
      = if Path.Fits root name then
          match t.node? (home.entry name) with
          | some node =>
            if Path.Fits root target then
              match node, t.node? (home.entry target) with
              | .directory, _ => .error .invalidArgument
              | _, some .directory => .error .isADirectory
              | node, _ => .ok ((t.clear (home.entry name)).put (home.entry target) node)
            else .error .nameTooLong
          | none => .error .notFound
        else .error .nameTooLong := by
  rw [rename, h.find_join]
  split
  · cases t.node? (home.entry name) with
    | none => rfl
    | some node =>
      simp only
      rw [h.directory.locate_join htarget fun hfollows => by cases hfollows]
      split
      · rfl
      · rfl
  · rfl

/-! ## Two trees that are alike at some places -/

/-- The same things stand at some places of two trees. -/
def Alike (places : List Location) (t u : FileTree) : Prop :=
  ∀ place ∈ places, t.node? place = u.node? place

/-- Putting the same node at the same place keeps two trees alike. -/
theorem Alike.put (h : Alike places t u) (hne : place ≠ []) (node : FileNode) :
    Alike places (t.put place node) (u.put place node) := by
  intro at_ hat
  rw [node?_put hne, node?_put hne, h at_ hat]

/-- Clearing the same place keeps two trees alike. -/
theorem Alike.clear (h : Alike places t u) (hne : place ≠ []) :
    Alike places (t.clear place) (u.clear place) := by
  intro at_ hat
  rw [node?_clear hne, node?_clear hne, h at_ hat]

/-- An operation is answered alike in two trees and leaves them alike. -/
def AnsweredAlike (places : List Location) (t u : FileTree)
    (result result' : Except FileError FileTree) : Prop :=
  (t.after result).1 = (u.after result').1 ∧ Alike places (t.after result).2 (u.after result').2

theorem Alike.error (h : Alike places t u) (e : FileError) :
    AnsweredAlike places t u (.error e) (.error e) := ⟨rfl, h⟩

theorem Alike.ok {t' u' : FileTree} (h : Alike places t' u') :
    AnsweredAlike places t u (.ok t') (.ok u') := ⟨rfl, h⟩

section

variable (h : Alike places t u) (ht : t.HasPlace root home name) (hu : u.HasPlace root home name)
  (hname : home.entry name ∈ places)

include h ht hu hname

/-- Creating a file is answered alike. -/
theorem Alike.create :
    AnsweredAlike places t u (t.create (Path.join root name)) (u.create (Path.join root name)) := by
  rw [ht.create_join, hu.create_join, h _ hname]
  split
  · split
    · exact h.error _
    · exact (h.put (home.entry_ne_nil name) _).ok
  · exact h.error _

/-- Writing a file is answered alike. -/
theorem Alike.write (content : ByteArray) :
    AnsweredAlike places t u (t.write (Path.join root name) content)
      (u.write (Path.join root name) content) := by
  rw [ht.write_join, hu.write_join, h _ hname]
  split
  · split
    · exact (h.put (home.entry_ne_nil name) _).ok
    · exact h.error _
    · exact h.error _
  · exact h.error _

/-- Removing a file is answered alike. -/
theorem Alike.remove :
    AnsweredAlike places t u (t.remove (Path.join root name)) (u.remove (Path.join root name)) := by
  rw [ht.remove_join, hu.remove_join, h _ hname]
  split
  · split
    · exact h.error _
    · exact (h.clear (home.entry_ne_nil name)).ok
    · exact h.error _
  · exact h.error _

/-- Renaming a file is answered alike, if both of its places are among those at which the trees
agree. -/
theorem Alike.rename {target : String} (htarget : Path.IsName (Path.bytes target))
    (hplace : home.entry target ∈ places) :
    AnsweredAlike places t u (t.rename (Path.join root name) (Path.join root target))
      (u.rename (Path.join root name) (Path.join root target)) := by
  -- Both answers are the same function of the two nodes, and these are the same in both trees.
  rw [ht.rename_join htarget, hu.rename_join htarget, h _ hname, h _ hplace]
  split
  · split
    · split
      · split
        · exact h.error _
        · exact h.error _
        · exact ((h.clear (home.entry_ne_nil name)).put (home.entry_ne_nil target) _).ok
      · exact h.error _
    · exact h.error _
  · exact h.error _

end

end BinDelegation.FileTree
