import BinDelegation.Proofs.FileSystem.Entries
import BinDelegation.Proofs.Partition.Names
import BinDelegation.Store.Directory

/-!
# The names of a store's files

The name of the file of a role tells the role, and drafts have names that no role has. Role names
are written with few characters, each of them one byte, so all these names are single steps of a
path.

That a draft is never taken for a document has two reasons, both needed: the extension of its name
is not that of a file of a role (`fileName_ne_draftName`), and listing keeps only names whose stem
is a role name and whose extension is that of documents (`roleOfFile?_eq_some`).

Lengths are counted in bytes, as file systems do. The name of a draft is ten bytes longer than its
role and that of a file five, so where there is room for a draft there is room for the file
(`fits_fileName`), and a name of 245 bytes is the longest role that can be stored.
-/

namespace BinDelegation

/-- Only role names are let through. -/
theorem requireRole_eq_ok {role : String} :
    requireRole role = .ok () ↔ RoleName.isValid role = true := by
  rw [requireRole]
  cases RoleName.isValid role with
  | false => exact iff_of_false (fun h => by cases h) Bool.false_ne_true
  | true => exact iff_of_true rfl rfl

/-! ## Role names as names of files -/

namespace RoleName

/-- A character of role names is one byte, and not that of a slash. -/
theorem toNat_of_allows {c : Char} (h : allows c = true) :
    c.toNat ≤ 122 ∧ c.toNat ≠ 47 ∧ c.toNat ≠ 0 := by
  simp only [allows, Bool.or_eq_true, Bool.and_eq_true, decide_eq_true_eq, beq_iff_eq] at h
  rcases h with ((((h | h) | h) | rfl) | rfl) | rfl
  · have hlow : 97 ≤ c.toNat := h.1
    have hhigh : c.toNat ≤ 122 := h.2
    omega
  · have hlow : 65 ≤ c.toNat := h.1
    have hhigh : c.toNat ≤ 90 := h.2
    omega
  · have hlow : 48 ≤ c.toNat := h.1
    have hhigh : c.toNat ≤ 57 := h.2
    omega
  all_goals decide

/-- A character of role names is one byte. -/
theorem utf8EncodeChar_of_allows {c : Char} (h : allows c = true) :
    String.utf8EncodeChar c = [c.val.toUInt8] := by
  have hval : c.val.toNat ≤ 122 := (toNat_of_allows h).1
  refine String.utf8EncodeChar_eq_singleton ?_
  rw [Char.utf8Size_eq_one_iff, UInt32.le_iff_toNat_le]
  exact Nat.le_trans hval (by decide)

/-- Text of the characters of role names has as many bytes as characters. -/
theorem length_bytes_of_allows {s : String} (h : ∀ c ∈ s.toList, allows c = true) :
    (Path.bytes s).length = s.toList.length := by
  rw [Path.bytes_eq_flatMap, List.flatMap_congr fun c hc => utf8EncodeChar_of_allows (h c hc),
    ← List.map_eq_flatMap, List.length_map]

/-- Text of the characters of role names, of more than two bytes, is the name of a file. -/
theorem isName_of_allows {s : String} (hlength : 2 < (Path.bytes s).length)
    (h : ∀ c ∈ s.toList, allows c = true) : Path.IsName (Path.bytes s) := by
  have hbyte : ∀ b ∈ Path.bytes s, b.toNat ≠ 47 ∧ b.toNat ≠ 0 := by
    intro b hb
    rw [Path.bytes_eq_flatMap, List.mem_flatMap] at hb
    obtain ⟨c, hc, hb⟩ := hb
    obtain ⟨hle, hslash, hzero⟩ := toNat_of_allows (h c hc)
    have hval : c.val.toNat ≤ 122 := hle
    rw [utf8EncodeChar_of_allows (h c hc), List.mem_singleton] at hb
    have hnat : b.toNat = c.toNat := by
      rw [hb, UInt32.toNat_toUInt8, Nat.mod_eq_of_lt (by omega)]
      rfl
    rw [hnat]
    exact ⟨hslash, hzero⟩
  -- The three byte strings that are no names are shorter.
  have hshort (short : FileName) (hle : short.length ≤ 2) : Path.bytes s ≠ short :=
    fun heq => absurd (heq ▸ hlength) (Nat.not_lt.2 hle)
  exact ⟨hshort [] (by decide), hshort [Path.point] (by decide),
    hshort [Path.point, Path.point] (by decide), fun hslash => (hbyte _ hslash).1 rfl,
    fun hzero => (hbyte _ hzero).2 rfl⟩

end RoleName

/-! ## Files and drafts -/

namespace DirectoryStore

variable {root role role' : String} {name : FileName}

theorem length_fileName (role : String) :
    (Path.bytes (fileName role)).length = (Path.bytes role).length + 5 := by
  rw [fileName, Path.bytes_append, List.length_append]
  rfl

theorem length_draftName (role : String) :
    (Path.bytes (draftName role)).length = (Path.bytes role).length + 10 := by
  rw [draftName, Path.bytes_append, Path.bytes_append, List.length_append, List.length_append]
  exact congrArg (· + 9) (Nat.add_comm 1 _)

/-- The name of the file of a role is the name of a file. -/
theorem isName_fileName (h : RoleName.isValid role = true) :
    Path.IsName (Path.bytes (fileName role)) := by
  have hextension : ∀ c ∈ ".json".toList, RoleName.allows c = true := List.all_eq_true.1 rfl
  refine RoleName.isName_of_allows ?_ fun c hc => ?_
  · rw [length_fileName]
    omega
  · rw [fileName, String.toList_append, List.mem_append] at hc
    exact hc.elim ((RoleName.isValid_iff.1 h).2.2 c) (hextension c)

/-- The name of the draft of a role is the name of a file. -/
theorem isName_draftName (h : RoleName.isValid role = true) :
    Path.IsName (Path.bytes (draftName role)) := by
  have hpoint : ∀ c ∈ ".".toList, RoleName.allows c = true := List.all_eq_true.1 rfl
  have hextension : ∀ c ∈ ".json.tmp".toList, RoleName.allows c = true := List.all_eq_true.1 rfl
  refine RoleName.isName_of_allows ?_ fun c hc => ?_
  · rw [length_draftName]
    omega
  · rw [draftName, String.toList_append, String.toList_append, List.mem_append,
      List.mem_append] at hc
    rcases hc with (hc | hc) | hc
    · exact hpoint c hc
    · exact (RoleName.isValid_iff.1 h).2.2 c hc
    · exact hextension c hc

/-- The name of a file tells the role. -/
theorem fileName_inj (h : fileName role = fileName role') : role = role' := by
  have hlist := congrArg String.toList h
  rw [fileName, fileName, String.toList_append, String.toList_append] at hlist
  exact String.toList_inj.1 (List.append_cancel_right hlist)

/-- No file of a role has the name of a draft, as their names end differently. -/
theorem fileName_ne_draftName : fileName role ≠ draftName role' := by
  intro heq
  have hlast := congrArg (·.toList.getLast?) heq
  simp only [fileName, draftName, String.toList_append] at hlast
  rw [List.getLast?_append_of_ne_nil _ (by decide), List.getLast?_append_of_ne_nil _ (by decide)]
    at hlast
  exact absurd hlast (by decide)

/-- Where there is room for the draft, there is room for the file. -/
theorem fits_fileName (h : Path.Fits root (draftName role)) : Path.Fits root (fileName role) := by
  have hlength : (Path.bytes (fileName role)).length ≤ (Path.bytes (draftName role)).length := by
    rw [length_fileName, length_draftName]
    omega
  obtain ⟨hname, hpath⟩ := h
  refine ⟨Nat.le_trans hlength hname, Nat.le_trans ?_ hpath⟩
  rw [Path.bytes_join, Path.bytes_join, List.length_append, List.length_append]
  exact Nat.add_le_add_left hlength _

/-- There is room for the draft of a role up to a length of its name, in a directory whose path is
not too long. -/
theorem fits_draftName_iff : Path.Fits root (draftName role) ↔ (Path.bytes role).length ≤ 245 ∧
    (Path.bytes (Path.join root (draftName role))).length ≤ FileTree.maxPathLength := by
  rw [Path.Fits, length_draftName, FileTree.maxNameLength]
  exact and_congr_left fun _ => by omega

/-- The files of roles are those of their names. -/
theorem roleOfFile?_eq_some : roleOfFile? name = some role ↔
    RoleName.isValid role = true ∧ name = Path.bytes (fileName role) := by
  have hbytes : Path.bytes (fileName role)
      = Path.bytes role ++ Path.point :: Path.bytes "json" := Path.bytes_append role ".json"
  rw [roleOfFile?, Option.bind_eq_bind, Option.bind_eq_some_iff]
  constructor
  · rintro ⟨⟨stem, extension⟩, hsplit, hrole⟩
    obtain ⟨found, hread, hrole⟩ := Option.bind_eq_some_iff.1 hrole
    obtain ⟨-, -, hname⟩ := Path.stemAndExtension?_eq_some.1 hsplit
    split at hrole
    · next hboth =>
      cases hrole
      obtain ⟨rfl, hvalid⟩ := hboth
      exact ⟨hvalid, by rw [hbytes, hname, Path.fromUTF8?_eq_some.1 hread]⟩
    · cases hrole
  · rintro ⟨hvalid, rfl⟩
    have hne : Path.bytes role ≠ [] := by
      intro hnil
      exact (RoleName.isValid_iff.1 hvalid).1 (congrArg String.toList (Path.bytes_eq_nil.1 hnil))
    refine ⟨(Path.bytes role, Path.bytes "json"),
      Path.stemAndExtension?_eq_some.2 ⟨hne, by decide, hbytes⟩, ?_⟩
    exact Option.bind_eq_some_iff.2
      ⟨role, Path.fromUTF8?_eq_some.2 rfl, if_pos ⟨rfl, hvalid⟩⟩

end DirectoryStore

end BinDelegation
