import BinDelegation.FileSystem.Tree
import BinDelegation.Proofs.Text.ByteOrder
import BinDelegation.Proofs.Text.Pieces
import Mathlib.Data.List.Basic
import Mathlib.Data.List.TakeWhile

/-!
# Names in paths

A name is split at its last point into a stem and an extension. Joined to the path of a directory, a
name puts one step behind the steps of that path, whether the path ends in a slash, in a name, or is
empty and so stands for the working directory.

`IsName` is what a name must satisfy to be one step of a path: it is not empty, neither `.` nor
`..`, and holds neither a slash nor a zero byte. Role names and the draft names made of them are
names in this sense.

The steps of a path are split as `walked ++ ending`, because a slash at the end of a directory's
path disappears when a name is joined to it: `steps_join` puts the step into the name behind
`walked`, and `start_join` says that both paths start at the same place.
-/

namespace BinDelegation

namespace Path

/-! ## Names -/

/-- A name that a path leads into by one step. -/
structure IsName (name : FileName) : Prop where
  ne_nil : name ≠ []
  ne_point : name ≠ [point]
  ne_points : name ≠ [point, point]
  slash_notMem : slash ∉ name
  zero_notMem : 0 ∉ name

theorem isName_iff {name : FileName} : IsName name ↔ name ≠ [] ∧ name ≠ [point] ∧
    name ≠ [point, point] ∧ slash ∉ name ∧ 0 ∉ name :=
  ⟨fun h => ⟨h.ne_nil, h.ne_point, h.ne_points, h.slash_notMem, h.zero_notMem⟩,
    fun ⟨hnil, hpoint, hpoints, hslash, hzero⟩ => ⟨hnil, hpoint, hpoints, hslash, hzero⟩⟩

instance (name : FileName) : Decidable (IsName name) := decidable_of_iff _ isName_iff.symm

/-- A name is one step, into what it names. -/
theorem IsName.step? {name : FileName} (h : IsName name) : step? name = some (.into name) := by
  rw [Path.step?, if_neg h.ne_nil, if_neg h.ne_point, if_neg h.ne_points]

theorem bytes_append (s t : String) : bytes (s ++ t) = bytes s ++ bytes t := by
  simp only [bytes, String.toUTF8, String.toByteArray_append, ByteArray.data_append,
    Array.toList_append]

theorem bytes_inj {s t : String} (h : bytes s = bytes t) : s = t := utf8_inj h

theorem bytes_eq_nil {s : String} : bytes s = [] ↔ s = "" :=
  ⟨fun h => bytes_inj (t := "") h, fun h => h ▸ rfl⟩

theorem bytes_eq_flatMap (s : String) : bytes s = s.toList.flatMap String.utf8EncodeChar :=
  utf8_eq_flatMap s

/-- The text of bytes, if they are one. -/
theorem fromUTF8?_eq_some {name : FileName} {s : String} :
    String.fromUTF8? ⟨name.toArray⟩ = some s ↔ name = bytes s := by
  constructor
  · intro h
    rw [String.fromUTF8?] at h
    split at h
    · cases h
      rfl
    · cases h
  · rintro rfl
    rw [String.fromUTF8?]
    split
    · rfl
    · next hinvalid => exact absurd s.isValidUTF8 hinvalid

/-! ## Extensions -/

/-- A name is split at its last point, unless there is nothing before it. -/
theorem stemAndExtension?_append {extension : FileName} (h : point ∉ extension)
    (stem : FileName) : stemAndExtension? (stem ++ point :: extension)
      = if stem = [] then none else some (stem, extension) := by
  have hextension : ((stem ++ point :: extension).reverse.takeWhile (· ≠ point)).reverse
      = extension := by
    have hreverse : (stem ++ point :: extension).reverse
        = extension.reverse ++ point :: stem.reverse := by simp
    have hpass : ∀ b ∈ extension.reverse, decide (b ≠ point) = true := by
      intro b hb
      exact decide_eq_true fun heq => h (heq ▸ List.mem_reverse.1 hb)
    rw [hreverse, List.takeWhile_append_of_pos hpass, List.takeWhile_cons_of_neg (by simp),
      List.append_nil, List.reverse_reverse]
  have hstem : (stem ++ point :: extension).length - extension.length - 1 = stem.length := by
    rw [List.length_append, List.length_cons]
    omega
  have hshort : extension.length < (stem ++ point :: extension).length := by
    rw [List.length_append, List.length_cons]
    omega
  simp only [stemAndExtension?, hextension, hstem, List.take_left, hshort, true_and, ite_not]

/-- A name without a point has no extension. -/
theorem stemAndExtension?_of_notMem {name : FileName} (h : point ∉ name) :
    stemAndExtension? name = none := by
  have hextension : (name.reverse.takeWhile (· ≠ point)).reverse = name := by
    rw [List.takeWhile_eq_self_iff.2, List.reverse_reverse]
    intro b hb
    exact decide_eq_true fun heq => h (heq ▸ List.mem_reverse.1 hb)
  simp only [stemAndExtension?, hextension, Nat.lt_irrefl, false_and, if_false]

/-- The stem and the extension of a file name are what stands before and behind its last point. -/
theorem stemAndExtension?_eq_some {name stem extension : FileName} :
    stemAndExtension? name = some (stem, extension) ↔
      stem ≠ [] ∧ point ∉ extension ∧ name = stem ++ point :: extension := by
  constructor
  · intro h
    by_cases hpoint : point ∈ name
    · obtain ⟨front, back, hreverse, hfront⟩ :=
        List.eq_append_cons_of_mem (List.mem_reverse.2 hpoint)
      have hname : name = back.reverse ++ point :: front.reverse := by
        rw [← List.reverse_reverse name, hreverse]
        simp
      have hlast : point ∉ front.reverse := fun hmem => hfront (List.mem_reverse.1 hmem)
      rw [hname, stemAndExtension?_append hlast] at h
      split at h
      · cases h
      · next hstem =>
        cases h
        exact ⟨hstem, hlast, hname⟩
    · rw [stemAndExtension?_of_notMem hpoint] at h
      cases h
  · rintro ⟨hstem, hpoint, rfl⟩
    rw [stemAndExtension?_append hpoint, if_neg hstem]

/-! ## Joined paths -/

/-- A text that ends with a slash has it behind another text. -/
theorem exists_of_endsWith_slash {s : String} (h : s.endsWith "/" = true) : ∃ r, s = r ++ "/" := by
  rw [String.endsWith_eq_endsWith_toSlice, String.Slice.endsWith_string_iff] at h
  obtain ⟨r, hr⟩ := h
  refine ⟨String.ofList r, String.toList_inj.1 ?_⟩
  rw [String.toList_append, String.toList_ofList, hr, String.copy_toSlice]

/-- What stands before the name in a path that is joined to that of a directory. -/
def front (root : String) : String :=
  if root = "" || root.endsWith "/" then root else root ++ "/"

/-- A joined path is the name behind the front of the directory. -/
theorem join_eq (root name : String) : join root name = front root ++ name := by
  rw [join, front]
  split <;> rfl

theorem bytes_join (root name : String) :
    bytes (join root name) = bytes (front root) ++ bytes name := by
  rw [join_eq, bytes_append]

/-- The front of a directory adds no byte but a slash. -/
theorem mem_bytes_front {root : String} {b : UInt8} (h : b ∈ bytes (front root)) :
    b ∈ bytes root ∨ b = slash := by
  rw [front] at h
  split at h
  · exact .inl h
  · rw [bytes_append, List.mem_append] at h
    exact h.imp_right List.mem_singleton.1

/-- The steps of a path but for a slash at its end. -/
def walked (path : List UInt8) : List PathStep := (pieces slash path).filterMap step?

/-- The slash at the end of a path. -/
def ending (path : List UInt8) : List PathStep :=
  if path.getLast? = some slash then [.slash] else []

theorem steps_eq (path : List UInt8) : steps path = walked path ++ ending path := rfl

/-- A path ends with a slash or does not. -/
theorem ending_eq (path : List UInt8) : ending path = [] ∨ ending path = [.slash] := by
  rw [ending]
  split
  · exact .inr rfl
  · exact .inl rfl

variable {root name : String}

/-- Before the name there is a slash and, before that, what has the steps of the directory. -/
theorem exists_front (h : root ≠ "") :
    ∃ before, bytes (front root) = before ++ [slash] ∧ walked (bytes root) = walked before := by
  rw [front]
  split
  · next hslash =>
    have hslash : root.endsWith "/" = true := by simpa [h] using hslash
    obtain ⟨r, rfl⟩ := exists_of_endsWith_slash hslash
    refine ⟨bytes r, bytes_append r "/", ?_⟩
    -- Behind the slash there is one more piece, which is empty and so no step.
    rw [bytes_append, walked, show bytes "/" = [slash] from rfl, pieces_append,
      List.filterMap_append, walked]
    exact List.append_nil _
  · exact ⟨bytes root, bytes_append root "/", rfl⟩

/-- The steps of a joined path: those of the directory and one into the name. -/
theorem steps_join (h : IsName (bytes name)) :
    steps (bytes (join root name)) = walked (bytes root) ++ [.into (bytes name)] := by
  have hlast (front : List UInt8) : ending (front ++ bytes name) = [] := by
    refine if_neg fun hslash => h.slash_notMem ?_
    rw [List.getLast?_append_of_ne_nil _ h.ne_nil] at hslash
    exact List.mem_of_mem_getLast? hslash
  have hname : (pieces slash (bytes name)).filterMap step? = [.into (bytes name)] := by
    rw [pieces_of_not_mem h.slash_notMem, List.filterMap_cons_some h.step?, List.filterMap_nil]
  rw [steps_eq, bytes_join, hlast, List.append_nil]
  by_cases hroot : root = ""
  · subst hroot
    exact hname
  · obtain ⟨before, hfront, hwalked⟩ := exists_front hroot
    rw [hfront, List.append_assoc, List.singleton_append, walked, pieces_append,
      List.filterMap_append, hname, hwalked, walked]

/-- A joined path starts where the path of the directory does. -/
theorem start_join (h : IsName (bytes name)) (directory : Location) :
    FileTree.start (bytes (join root name)) directory = FileTree.start (bytes root) directory := by
  have habsolute : isAbsolute (bytes (join root name)) = isAbsolute (bytes root) := by
    rw [bytes_join, isAbsolute, isAbsolute]
    -- The first byte decides. Joined to the empty path it is that of the name, which is no slash.
    by_cases hroot : root = ""
    · subst hroot
      refine decide_eq_decide.2 (iff_of_false (fun hslash => ?_) (fun hslash => by cases hslash))
      exact h.slash_notMem (List.mem_of_mem_head? hslash)
    · have hne : bytes root ≠ [] := fun hnil => hroot (bytes_eq_nil.1 hnil)
      rw [front]
      split
      · rw [List.head?_append_of_ne_nil _ hne]
      · rw [bytes_append, List.append_assoc, List.head?_append_of_ne_nil _ hne]
  rw [FileTree.start, FileTree.start, habsolute]

end Path

end BinDelegation
