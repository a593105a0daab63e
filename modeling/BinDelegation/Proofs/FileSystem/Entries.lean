import BinDelegation.Proofs.Checks
import BinDelegation.Proofs.Dict.Lookup
import BinDelegation.Proofs.FileSystem.Paths
import BinDelegation.Proofs.FileSystem.Ways

/-!
# The entries of a directory

A tree keeps one node for each place, so putting and clearing a place are known once it is said what
they leave there. That is the first part here.

`HasDirectory t root home` says that a path leads to a directory, through as many links as a look-up
follows. By the ways of `Ways` it still does in every tree that keeps its directories and links,
hence in every tree that an operation on a file leaves (`HasDirectory.congr`).

`HasPlace` adds a name under which no symbolic link stands. Every operation on the path of such a
name is one on the place of that name, unless the name or the path is too long: `locate_join` says
so, and the lemmas after it read off when an operation succeeds and which tree it leaves.
Directories that may hold links are reached from there by way of `unlinked`, the same tree without
the links at some places.
-/

namespace BinDelegation

/-- The place of a name in a directory. -/
def Location.entry (home : Location) (name : String) : Location := home ++ [Path.bytes name]

/-- Whether a name and its path in a directory are short enough. -/
def Path.Fits (root name : String) : Prop :=
  (Path.bytes name).length ≤ FileTree.maxNameLength ∧
    (Path.bytes (Path.join root name)).length ≤ FileTree.maxPathLength

instance {root name : String} : Decidable (Path.Fits root name) :=
  inferInstanceAs (Decidable (_ ∧ _))

/-- A name stands below its directory, so never at the root. -/
theorem Location.entry_ne_nil (home : Location) (name : String) : home.entry name ≠ [] :=
  List.append_ne_nil_of_right_ne_nil home (List.cons_ne_nil _ _)

/-- Two names of a directory have two places. -/
theorem Location.entry_inj {home : Location} {name name' : String}
    (h : home.entry name = home.entry name') : name = name' :=
  Path.bytes_inj (List.singleton_inj.1 (List.append_cancel_left h))

namespace FileTree

variable {t t' : FileTree} {approach : Approach} {root name : String} {home place : Location}
  {node : FileNode}

/-! ## Places -/

/-- Away from the root a node is the one that the tree has for the place. -/
theorem node?_of_ne_nil (h : place ≠ []) : t.node? place = t.nodes.get? place := if_neg h

/-- Putting something at a place changes what stands there and nothing else. -/
theorem node?_put (h : place ≠ []) (node : FileNode) (at_ : Location) :
    (t.put place node).node? at_ = if at_ = place then some node else t.node? at_ := by
  rw [node?, put, Dict.get?_insert, node?]
  by_cases hnil : at_ = []
  · rw [if_pos hnil, if_pos hnil, if_neg (hnil ▸ Ne.symm h)]
  · rw [if_neg hnil, if_neg hnil]

/-- Clearing a place leaves nothing there and changes nothing else. -/
theorem node?_clear (h : place ≠ []) (at_ : Location) :
    (t.clear place).node? at_ = if at_ = place then none else t.node? at_ := by
  rw [node?, clear, Dict.get?_erase, node?]
  by_cases hnil : at_ = []
  · rw [if_pos hnil, if_pos hnil, if_neg (hnil ▸ Ne.symm h)]
  · rw [if_neg hnil, if_neg hnil]

/-- What stands below a place is found by the names that lead there. -/
theorem mem_below {names : Location} :
    (names, node) ∈ t.below place ↔ names ≠ [] ∧ t.node? (place ++ names) = some node := by
  rw [below, List.mem_filterMap]
  constructor
  · rintro ⟨⟨at_, found⟩, hmem, hsome⟩
    simp only at hsome
    split at hsome
    · next hbelow =>
      obtain ⟨rest, rfl⟩ := List.isPrefixOf_iff_prefix.1 hbelow.1
      rw [List.drop_left] at hsome
      cases hsome
      have hne : names ≠ [] := fun hnil => hbelow.2 (hnil ▸ List.append_nil place)
      refine ⟨hne, ?_⟩
      rw [node?_of_ne_nil (List.append_ne_nil_of_right_ne_nil place hne)]
      exact Dict.mem_entries.1 hmem
    · cases hsome
  · rintro ⟨hne, hnode⟩
    rw [node?_of_ne_nil (List.append_ne_nil_of_right_ne_nil place hne)] at hnode
    refine ⟨(place ++ names, node), Dict.mem_entries.2 hnode, ?_⟩
    -- The root itself is not among the nodes of the dictionary, so the names have to be some.
    have hbelow : place.isPrefixOf (place ++ names) ∧ place ++ names ≠ place :=
      ⟨List.isPrefixOf_iff_prefix.2 ⟨names, rfl⟩, fun h => hne (List.append_right_eq_self.1 h)⟩
    simp only [hbelow, and_self, not_false_eq_true, if_true, List.drop_left, ne_eq]

/-- No two entries below a place have the same names. -/
theorem nodup_below : ((t.below place).map (·.1)).Nodup := by
  have hentry {at_ : Location} {node : FileNode} {found : Location × FileNode}
      (h : (if place.isPrefixOf at_ ∧ at_ ≠ place then some (at_.drop place.length, node) else none)
        = some found) : at_ = place ++ found.1 := by
    split at h
    · next hbelow =>
      obtain ⟨rest, rfl⟩ := List.isPrefixOf_iff_prefix.1 hbelow.1
      cases h
      rw [List.drop_left]
    · cases h
  -- The names are the place without the part that all entries share.
  refine List.pairwise_map.2 (List.Pairwise.filterMap _ ?_
    (List.pairwise_map.1 t.nodes.ascending.nodup_keys))
  rintro ⟨at_, node⟩ ⟨at', node'⟩ hdiffer found hfound found' hfound' hsame
  exact hdiffer ((hentry hfound).trans (hsame ▸ (hentry hfound').symm))

/-! ## Directories -/

/-- A path leads to a directory. The empty path stands for the working directory. -/
structure HasDirectory (t : FileTree) (root : String) (home : Location) : Prop where
  node : t.node? home = some .directory
  located : root = "" ∧ home = t.workingDirectory ∨ t.locate .through root = .ok home

/-- A path leads to a place if it is one that may be followed at all and its steps lead there. -/
theorem locate_eq_ok {path : String} : t.locate approach path = .ok place ↔
    0 ∉ Path.bytes path ∧ path ≠ "" ∧ (Path.bytes path).length ≤ maxPathLength ∧
      t.follow approach maxLinks (start (Path.bytes path) t.workingDirectory)
        (Path.steps (Path.bytes path)) = .ok place := by
  rw [locate]
  by_cases hzero : 0 ∈ Path.bytes path
  · simp [hzero]
  · by_cases hempty : path = ""
    · subst hempty
      simp [Path.bytes]
    · by_cases hlength : maxPathLength < (Path.bytes path).length
      · simp [hzero, hlength, Path.bytes_eq_nil, hempty, Nat.not_le.2 hlength]
      · simp [hzero, hlength, Path.bytes_eq_nil, hempty, Nat.not_lt.1 hlength]

/-- Something is found at a place if the path leads there and the place is not free. -/
theorem find_eq_ok {path : String} {found : Location × FileNode} :
    t.find approach path = .ok found ↔
      t.locate approach path = .ok found.1 ∧ t.node? found.1 = some found.2 := by
  obtain ⟨place, node⟩ := found
  rw [find, bind_eq_ok]
  constructor
  · rintro ⟨place', hlocate, hfound⟩
    split at hfound
    · next hnode =>
      cases hfound
      exact ⟨hlocate, hnode⟩
    · cases hfound
  · rintro ⟨hlocate, hnode⟩
    refine ⟨place, hlocate, ?_⟩
    simp only [hnode]
    rfl

/-- A directory is found by its path, and something is found if a symbolic link is not followed. -/
theorem HasDirectory.exists_find (h : t.HasDirectory root home) (hroot : root ≠ "")
    (happroach : approach.followsLast = false) :
    t.find .through root = .ok (home, .directory) ∧ ∃ found, t.find approach root = .ok found := by
  have hlocate : t.locate .through root = .ok home :=
    h.located.resolve_left fun hnil => hroot hnil.1
  obtain ⟨hzero, hne, hlength, hfollow⟩ := locate_eq_ok.1 hlocate
  obtain ⟨used, hused, hleads⟩ := exists_leads_of_follow hfollow h.node
  obtain ⟨goal, node, hgoal, hnode⟩ := hleads.exists_follow hused h.node happroach
  exact ⟨find_eq_ok.2 ⟨hlocate, h.node⟩, (goal, node),
    find_eq_ok.2 ⟨locate_eq_ok.2 ⟨hzero, hne, hlength, hgoal⟩, hnode⟩⟩

/-- A walk down one level shows each entry of a directory once. -/
theorem HasDirectory.exists_walk (h : t.HasDirectory root home) (hroot : root ≠ "") :
    ∃ entries, t.walk root (some 1) = .ok entries ∧ (entries.map (·.1)).Nodup ∧
      ∀ name kind, ([name], kind) ∈ entries ↔
        ∃ node, t.node? (home ++ [name]) = some node ∧ node.kind = kind := by
  have hnofollow : Approach.upTo.followsLast = false := rfl
  obtain ⟨hthrough, ⟨place, node⟩, hupTo⟩ := h.exists_find hroot hnofollow
  -- The walk has the directory itself in front, with no names.
  have hwalk : t.walk root (some 1) = .ok (([], node.kind) ::
      ((t.below home).map fun found => (found.1, found.2.kind)).filter (·.1.length ≤ 1)) := by
    rw [walk, hupTo, hthrough]
    rfl
  refine ⟨_, hwalk, ?_, fun name kind => ?_⟩
  · rw [List.map_cons, List.nodup_cons]
    constructor
    · intro hmem
      obtain ⟨⟨names, kind⟩, hentry, hnil⟩ := List.mem_map.1 hmem
      obtain ⟨⟨names', node'⟩, hbelow, hsame⟩ := List.mem_map.1 (List.mem_filter.1 hentry).1
      exact (mem_below.1 hbelow).1 ((congrArg (·.1) hsame).trans hnil)
    · refine (List.filter_sublist.map _).nodup ?_
      rw [List.map_map]
      exact nodup_below
  · rw [List.mem_cons, List.mem_filter, List.mem_map]
    constructor
    · rintro (hself | ⟨⟨⟨names, node⟩, hmem, hentry⟩, -⟩)
      · cases hself
      · obtain ⟨rfl, hkind⟩ := Prod.mk.inj hentry
        exact ⟨node, (mem_below.1 hmem).2, hkind⟩
    · rintro ⟨node, hnode, rfl⟩
      exact .inr ⟨⟨([name], node), mem_below.2 ⟨List.cons_ne_nil _ _, hnode⟩, rfl⟩, rfl⟩

/-- The way to a directory, without a slash at the end. -/
theorem HasDirectory.exists_leads (h : t.HasDirectory root home) : 0 ∉ Path.bytes root ∧
    ∃ used ≤ maxLinks, t.Leads used (start (Path.bytes root) t.workingDirectory)
      (Path.walked (Path.bytes root)) home := by
  rcases h.located with ⟨rfl, rfl⟩ | hlocate
  · exact ⟨List.not_mem_nil, 0, Nat.zero_le _, .arrived⟩
  · obtain ⟨hzero, -, -, hfollow⟩ := locate_eq_ok.1 hlocate
    obtain ⟨links, hlinks, hleads⟩ := exists_leads_of_follow hfollow h.node
    rw [Path.steps_eq] at hleads
    obtain ⟨mid, used, more, hwalked, hending, rfl⟩ := hleads.exists_of_append
    have hmid : mid = home := by
      rcases Path.ending_eq (Path.bytes root) with hnone | hslash
      · rw [hnone] at hending
        cases hending
        rfl
      · rw [hslash] at hending
        cases hending with | slash hnone
        cases hnone
        rfl
    exact ⟨hzero, used, Nat.le_trans (Nat.le_add_right used more) hlinks, hmid ▸ hwalked⟩

/-- There is nothing at a place, or a file. -/
def Yields (t : FileTree) (place : Location) : Prop :=
  ∀ node, t.node? place = some node → ∃ content, node = .file content

/-- What is neither a directory nor a symbolic link is a file, if there is anything. -/
theorem yields_of_ne (hdirectory : t.node? place ≠ some .directory)
    (hlink : ∀ path, t.node? place ≠ some (.link path)) : t.Yields place := by
  intro node hnode
  cases node with
  | file content => exact ⟨content, rfl⟩
  | directory => exact absurd hnode hdirectory
  | link path => exact absurd hnode (hlink path)

theorem yields_of_none (h : t.node? place = none) : t.Yields place := fun node hnode => by
  cases h.symm.trans hnode

/-- There is no symbolic link where there is a file or nothing. -/
theorem Yields.notLink (h : t.Yields place) (path : List UInt8) :
    t.node? place ≠ some (.link path) := by
  intro hnode
  obtain ⟨content, hfile⟩ := h _ hnode
  cases hfile

/-- Where a file has been put, there is a file. -/
theorem yields_put (h : place ≠ []) (content : ByteArray) :
    (t.put place (.file content)).Yields place := by
  intro node hnode
  rw [node?_put h, if_pos rfl] at hnode
  exact ⟨content, (Option.some.inj hnode).symm⟩

theorem yields_clear (h : place ≠ []) : (t.clear place).Yields place :=
  yields_of_none (by rw [node?_clear h, if_pos rfl])

/-- A tree without a symbolic link at a place. -/
def unlink (t : FileTree) (place : Location) : FileTree :=
  match t.node? place with
  | some (.link _) => t.clear place
  | _ => t

/-- A tree without symbolic links at some places. -/
def unlinked (t : FileTree) (places : List Location) : FileTree := places.foldl unlink t

/-- No symbolic link is left at the place. -/
theorem unlink_notLink (t : FileTree) (place : Location) (path : List UInt8) :
    (t.unlink place).node? place ≠ some (.link path) := by
  rw [unlink]
  split
  · next hlink =>
    have hne : place ≠ [] := by
      rintro rfl
      cases hlink
    rw [node?_clear hne, if_pos rfl]
    exact fun h => by cases h
  · next hother => exact hother path

/-- Only a symbolic link is missing where it stood. -/
theorem node?_unlink (t : FileTree) (gone place : Location) :
    (t.unlink gone).node? place = t.node? place ∨
      (∃ path, t.node? place = some (.link path)) ∧ (t.unlink gone).node? place = none := by
  rw [unlink]
  split
  · next path hlink =>
    have hne : gone ≠ [] := by
      rintro rfl
      cases hlink
    rw [node?_clear hne]
    by_cases hplace : place = gone
    · exact .inr ⟨⟨path, hplace ▸ hlink⟩, if_pos hplace⟩
    · exact .inl (if_neg hplace)
  · exact .inl rfl

section

variable {places : List Location}

/-- The working directory is no entry, and stays. -/
theorem workingDirectory_unlinked : (t.unlinked places).workingDirectory = t.workingDirectory := by
  induction places generalizing t with
  | nil => rfl
  | cons first rest ih =>
    have hfirst : (t.unlink first).workingDirectory = t.workingDirectory := by
      rw [unlink]
      split
      · rfl
      · rfl
    exact ih.trans hfirst

/-- Only symbolic links are missing. -/
theorem node?_unlinked (t : FileTree) (places : List Location) (place : Location) :
    (t.unlinked places).node? place = t.node? place ∨
      (∃ path, t.node? place = some (.link path)) ∧ (t.unlinked places).node? place = none := by
  induction places generalizing t with
  | nil => exact .inl rfl
  | cons first rest ih =>
    rcases t.node?_unlink first place with hfirst | ⟨hlink, hfirst⟩
    · rw [← hfirst]
      exact ih (t.unlink first)
    · rcases ih (t.unlink first) with hrest | ⟨-, hrest⟩
      · exact .inr ⟨hlink, hrest.trans hfirst⟩
      · exact .inr ⟨hlink, hrest⟩

/-- No symbolic link is left at any of the places. -/
theorem unlinked_notLink (hplace : place ∈ places) (path : List UInt8) :
    (t.unlinked places).node? place ≠ some (.link path) := by
  induction places generalizing t with
  | nil => cases hplace
  | cons first rest ih =>
    rcases List.mem_cons.1 hplace with rfl | hplace
    -- Later steps only take away, so what the first one took does not come back.
    · rcases (t.unlink place).node?_unlinked rest place with hrest | ⟨-, hrest⟩
      · exact fun hnode => t.unlink_notLink place path (hrest.symm.trans hnode)
      · exact fun hnode => by cases hrest.symm.trans hnode
    · exact ih hplace

end

/-- A directory is led to in every tree that differs in files alone. -/
theorem HasDirectory.congr (h : t.HasDirectory root home)
    (hworking : t'.workingDirectory = t.workingDirectory)
    (hnodes : ∀ at_, t'.node? at_ = t.node? at_ ∨ t.Yields at_) : t'.HasDirectory root home := by
  have hkept {at_ : Location} {node : FileNode} (hway : ∀ content, node ≠ .file content)
      (hnode : t.node? at_ = some node) : t'.node? at_ = some node := by
    rcases hnodes at_ with hsame | hyields
    · exact hsame.trans hnode
    · obtain ⟨content, hfile⟩ := hyields node hnode
      exact absurd hfile (hway content)
  have hdirectory (at_ : Location) (hnode : t.node? at_ = some .directory) :
      t'.node? at_ = some .directory := hkept (by simp) hnode
  have hlink (at_ : Location) (path : List UInt8) (hnode : t.node? at_ = some (.link path)) :
      t'.node? at_ = some (.link path) := hkept (by simp) hnode
  -- The same way leads there: it meets directories and symbolic links alone, and these are kept.
  refine ⟨hdirectory home h.node, ?_⟩
  rcases h.located with ⟨hempty, hhome⟩ | hlocate
  · exact .inl ⟨hempty, hhome.trans hworking.symm⟩
  · obtain ⟨hzero, hne, hlength, hfollow⟩ := locate_eq_ok.1 hlocate
    obtain ⟨used, hused, hleads⟩ := exists_leads_of_follow hfollow h.node
    refine .inr (locate_eq_ok.2 ⟨hzero, hne, hlength, ?_⟩)
    rw [hworking]
    exact (hleads.congr hdirectory hlink).follow_through hused

/-! ## Trees with the same ways -/

/-- A name at which there is a file or nothing is the last one of a way, and it does not matter
which of the two there is. -/
theorem advance_of_yields {name : FileName} {rest : List PathStep}
    {stage : Stage} (hslash : ¬ (approach = .toFile ∧ rest = [.slash]))
    (hlength : name.length ≤ maxNameLength)
    (hyields : t.Yields (place ++ [name])) :
    t.advance approach place (.into name :: rest) = .ok stage ↔
      approach.isLast rest = true ∧ stage = .arrived (place ++ [name]) := by
  have hstep : ∃ e, t.advance approach place (.into name :: rest)
      = if approach.isLast rest then .ok (.arrived (place ++ [name])) else .error e := by
    rw [advance, if_neg hslash, if_neg (Nat.not_lt.2 hlength)]
    cases hnode : t.node? (place ++ [name]) with
    | none => exact ⟨.notFound, by simp only [hnode]⟩
    | some node =>
      obtain ⟨content, rfl⟩ := hyields node hnode
      exact ⟨.notADirectory, by simp only [hnode]⟩
  obtain ⟨e, hstep⟩ := hstep
  rw [hstep]
  split
  · next hlast =>
    rw [Except.ok.injEq, eq_comm]
    exact (and_iff_right hlast).symm
  · next hlast => exact iff_of_false (fun h => by cases h) fun h => hlast h.1

/-- Two trees in which the same directories and symbolic links stand at the same places. Where they
differ, each of them has a file or nothing. -/
def SameWays (t t' : FileTree) : Prop :=
  ∀ at_, t'.node? at_ = t.node? at_ ∨ t.Yields at_ ∧ t'.Yields at_

namespace SameWays

variable {links : Nat} {steps : List PathStep} {stage : Stage} {found : Location}

theorem symm (h : t.SameWays t') : t'.SameWays t := fun at_ => (h at_).imp Eq.symm And.symm

/-- A stage of a way is the same in both trees. -/
theorem advance (h : t.SameWays t') (hstage : t.advance approach place steps = .ok stage) :
    t'.advance approach place steps = .ok stage := by
  induction steps generalizing place with
  | nil => exact hstage
  | cons step rest ih =>
    cases step with
    | stay => exact ih hstage
    | slash => exact ih hstage
    | up => exact ih hstage
    | into name =>
      by_cases hslash : approach = .toFile ∧ rest = [.slash]
      · rw [FileTree.advance, if_pos hslash] at hstage
        cases hstage
      by_cases hlength : name.length ≤ maxNameLength
      -- Where the trees differ the way ends, in both of them at that name.
      · rcases h (place ++ [name]) with hsame | ⟨hyields, hyields'⟩
        · rw [FileTree.advance, if_neg hslash, if_neg (Nat.not_lt.2 hlength)] at hstage ⊢
          simp only [hsame] at hstage ⊢
          cases hnode : t.node? (place ++ [name]) with
          | none => simpa only [hnode] using hstage
          | some node =>
            cases node with
            | directory =>
              simp only [hnode] at hstage ⊢
              exact ih hstage
            | file content => simpa only [hnode] using hstage
            | link path => simpa only [hnode] using hstage
        · exact (advance_of_yields hslash hlength hyields').2
            ((advance_of_yields hslash hlength hyields).1 hstage)
      · rw [FileTree.advance, if_neg hslash, if_pos (Nat.not_le.1 hlength)] at hstage
        cases hstage

/-- A way is the same in both trees, link by link. -/
theorem follow (h : t.SameWays t')
    (hfollow : t.follow approach links place steps = .ok found) :
    t'.follow approach links place steps = .ok found := by
  induction links generalizing place steps with
  | zero =>
    rw [FileTree.follow] at hfollow ⊢
    obtain ⟨stage, hstage, hrest⟩ := bind_eq_ok.1 hfollow
    rw [h.advance hstage]
    cases stage with
    | arrived place => exact hrest
    | atLink directory path rest => cases hrest
  | succ links ih =>
    rw [FileTree.follow] at hfollow ⊢
    obtain ⟨stage, hstage, hrest⟩ := bind_eq_ok.1 hfollow
    rw [h.advance hstage]
    cases stage with
    | arrived place => exact hrest
    | atLink directory path rest => exact ih hrest

/-- A path leads to the same place. -/
theorem locate_eq_ok (h : t.SameWays t') (hworking : t'.workingDirectory = t.workingDirectory)
    {path : String} :
    t'.locate approach path = .ok place ↔ t.locate approach path = .ok place := by
  have hone {t t' : FileTree} (h : t.SameWays t')
      (hworking : t'.workingDirectory = t.workingDirectory)
      (hlocate : t.locate approach path = .ok place) : t'.locate approach path = .ok place := by
    obtain ⟨hzero, hne, hlength, hfollow⟩ := FileTree.locate_eq_ok.1 hlocate
    exact FileTree.locate_eq_ok.2 ⟨hzero, hne, hlength, h.follow (hworking ▸ hfollow)⟩
  exact ⟨hone h.symm hworking.symm, hone h hworking⟩

end SameWays

/-- A path leads to one directory. -/
theorem HasDirectory.unique {home' : Location} (h : t.HasDirectory root home)
    (h' : t.HasDirectory root home') : home = home' := by
  rcases h.located with ⟨hempty, rfl⟩ | hlocate
  · rcases h'.located with ⟨-, rfl⟩ | hlocate'
    · rfl
    · exact absurd hempty (locate_eq_ok.1 hlocate').2.1
  · rcases h'.located with ⟨hempty, -⟩ | hlocate'
    · exact absurd hempty (locate_eq_ok.1 hlocate).2.1
    · exact Except.ok.inj (hlocate.symm.trans hlocate')

/-! ## Entries -/

/-- A name in a directory that a path leads to, where no symbolic link stands. -/
structure HasPlace (t : FileTree) (root : String) (home : Location) (name : String) : Prop where
  directory : t.HasDirectory root home
  isName : Path.IsName (Path.bytes name)
  notLink : ∀ path, t.node? (home.entry name) ≠ some (.link path)

/-- Where the path of a name in a directory leads, if a symbolic link there is not followed. -/
theorem HasDirectory.locate_join (h : t.HasDirectory root home)
    (hname : Path.IsName (Path.bytes name)) (hlink : approach.followsLast = true →
      ∀ path, t.node? (home.entry name) ≠ some (.link path)) :
    t.locate approach (Path.join root name)
      = if Path.Fits root name then .ok (home.entry name) else .error .nameTooLong := by
  obtain ⟨hzero, used, hused, hleads⟩ := h.exists_leads
  have hfollow : t.follow approach maxLinks
      (start (Path.bytes (Path.join root name)) t.workingDirectory)
      (Path.steps (Path.bytes (Path.join root name)))
      = if (Path.bytes name).length ≤ maxNameLength then .ok (home.entry name)
        else .error .nameTooLong := by
    rw [Path.start_join hname, Path.steps_join hname]
    exact hleads.follow_name hused hlink
  have hjoinZero : 0 ∉ Path.bytes (Path.join root name) := by
    rw [Path.bytes_join, List.mem_append, not_or]
    exact ⟨fun hfront => (Path.mem_bytes_front hfront).elim hzero (by decide), hname.zero_notMem⟩
  have hjoinNil : Path.bytes (Path.join root name) ≠ [] := by
    rw [Path.bytes_join]
    exact List.append_ne_nil_of_right_ne_nil _ hname.ne_nil
  -- A path that is too long is refused before its first step, a name only when it is reached.
  rw [locate, hfollow]
  by_cases hlength : maxPathLength < (Path.bytes (Path.join root name)).length
  · simp [hjoinZero, hjoinNil, hlength, Path.Fits, Nat.not_le.2 hlength]
  · by_cases hfits : (Path.bytes name).length ≤ maxNameLength
    · simp [hjoinZero, hjoinNil, hlength, hfits, Path.Fits, Nat.not_lt.1 hlength]
    · simp [hjoinZero, hjoinNil, hlength, hfits, Path.Fits]

/-- The path of a name leads to its place, if both are short enough. -/
theorem HasPlace.locate_join (h : t.HasPlace root home name) :
    t.locate approach (Path.join root name)
      = if Path.Fits root name then .ok (home.entry name) else .error .nameTooLong :=
  h.directory.locate_join h.isName fun _ => h.notLink

/-- The path of a name leads to its place and nowhere else. -/
theorem HasPlace.locate_join_eq_ok (h : t.HasPlace root home name) :
    t.locate approach (Path.join root name) = .ok place ↔
      Path.Fits root name ∧ place = home.entry name := by
  rw [h.locate_join]
  split
  · next hfits => simp [hfits, eq_comm]
  · next hfits => simp [hfits]

/-- What is found by the path of a name in a directory. -/
theorem HasPlace.find_join_eq_ok (h : t.HasPlace root home name) :
    t.find approach (Path.join root name) = .ok (place, node) ↔
      Path.Fits root name ∧ place = home.entry name ∧
        t.node? (home.entry name) = some node := by
  rw [find_eq_ok, h.locate_join_eq_ok, and_assoc]
  refine and_congr_right fun _ => and_congr_right fun hplace => ?_
  rw [hplace]

/-! ## Operations on an entry -/

/-- Something is there if a file or a directory of the name stands in the directory. -/
theorem HasPlace.isOk_kind_join (h : t.HasPlace root home name) :
    (t.kind (Path.join root name)).isOk = true ↔
      Path.Fits root name ∧ ∃ node, t.node? (home.entry name) = some node := by
  rw [kind]
  cases hfind : t.find .through (Path.join root name) with
  | error e =>
    refine iff_of_false (fun hok => by cases hok) ?_
    rintro ⟨hfits, node, hnode⟩
    cases hfind.symm.trans (h.find_join_eq_ok.2 ⟨hfits, rfl, hnode⟩)
  | ok found =>
    obtain ⟨place, node⟩ := found
    obtain ⟨hfits, -, hnode⟩ := h.find_join_eq_ok.1 hfind
    exact iff_of_true rfl ⟨hfits, node, hnode⟩

/-- A file is made, or emptied, unless there is a directory of the name. -/
theorem HasPlace.create_eq_ok (h : t.HasPlace root home name) :
    t.create (Path.join root name) = .ok t' ↔ Path.Fits root name ∧
      t.node? (home.entry name) ≠ some .directory ∧
      t' = t.put (home.entry name) (.file .empty) := by
  rw [create, bind_eq_ok]
  constructor
  · rintro ⟨place, hlocate, hcreate⟩
    obtain ⟨hfits, rfl⟩ := h.locate_join_eq_ok.1 hlocate
    split at hcreate
    · cases hcreate
    · next hnode =>
      cases hcreate
      exact ⟨hfits, hnode, rfl⟩
  · rintro ⟨hfits, hnode, rfl⟩
    refine ⟨_, h.locate_join_eq_ok.2 ⟨hfits, rfl⟩, ?_⟩
    split
    · next hdirectory => exact absurd hdirectory hnode
    · rfl

/-- No file is made where there is no room for its name. -/
theorem HasPlace.create_of_not_fits (h : t.HasPlace root home name)
    (hfits : ¬ Path.Fits root name) :
    t.create (Path.join root name) = .error .nameTooLong := by
  rw [create, h.locate_join, if_neg hfits]
  rfl

/-- A file is filled. -/
theorem HasPlace.write_eq_ok (h : t.HasPlace root home name) {content : ByteArray} :
    t.write (Path.join root name) content = .ok t' ↔ Path.Fits root name ∧
      (∃ old, t.node? (home.entry name) = some (.file old)) ∧
      t' = t.put (home.entry name) (.file content) := by
  rw [write, bind_eq_ok]
  constructor
  · rintro ⟨⟨place, node⟩, hfind, hwrite⟩
    obtain ⟨hfits, rfl, hnode⟩ := h.find_join_eq_ok.1 hfind
    cases node with
    | file old =>
      cases hwrite
      exact ⟨hfits, ⟨old, hnode⟩, rfl⟩
    | directory => cases hwrite
    | link path => cases hwrite
  · rintro ⟨hfits, ⟨old, hnode⟩, rfl⟩
    exact ⟨_, h.find_join_eq_ok.2 ⟨hfits, rfl, hnode⟩, rfl⟩

/-- A file is removed. -/
theorem HasPlace.remove_eq_ok (h : t.HasPlace root home name) :
    t.remove (Path.join root name) = .ok t' ↔ Path.Fits root name ∧
      (∃ content, t.node? (home.entry name) = some (.file content)) ∧
      t' = t.clear (home.entry name) := by
  rw [remove, bind_eq_ok]
  constructor
  · rintro ⟨⟨place, node⟩, hfind, hremove⟩
    obtain ⟨hfits, rfl, hnode⟩ := h.find_join_eq_ok.1 hfind
    cases node with
    | file content =>
      cases hremove
      exact ⟨hfits, ⟨content, hnode⟩, rfl⟩
    | directory => cases hremove
    | link path => exact absurd hnode (h.notLink path)
  · rintro ⟨hfits, ⟨content, hnode⟩, rfl⟩
    exact ⟨_, h.find_join_eq_ok.2 ⟨hfits, rfl, hnode⟩, rfl⟩

/-- A file takes the place of another one, of a symbolic link, or of none. -/
theorem HasPlace.rename_eq_ok {target : String} (h : t.HasPlace root home name)
    (htarget : Path.IsName (Path.bytes target)) :
    t.rename (Path.join root name) (Path.join root target) = .ok t' ↔ Path.Fits root name ∧
      Path.Fits root target ∧ t.node? (home.entry target) ≠ some .directory ∧
      ∃ content, t.node? (home.entry name) = some (.file content) ∧
        t' = (t.clear (home.entry name)).put (home.entry target) (.file content) := by
  -- A symbolic link at the target is not followed.
  have hlocated {goal : Location} : t.locate .upTo (Path.join root target) = .ok goal ↔
      Path.Fits root target ∧ goal = home.entry target := by
    rw [h.directory.locate_join htarget fun hfollows => by cases hfollows]
    split
    · next hfits => simp [hfits, eq_comm]
    · next hfits => simp [hfits]
  rw [rename, bind_eq_ok]
  constructor
  · rintro ⟨⟨place, node⟩, hfind, hrename⟩
    obtain ⟨hfits, rfl, hnode⟩ := h.find_join_eq_ok.1 hfind
    obtain ⟨goal, hlocate, hrename⟩ := bind_eq_ok.1 hrename
    obtain ⟨hfitsTarget, rfl⟩ := hlocated.1 hlocate
    cases node with
    | file content =>
      split at hrename
      · next hother => cases hother
      · cases hrename
      · next hgoal =>
        cases hrename
        exact ⟨hfits, hfitsTarget, hgoal, content, hnode, rfl⟩
    | directory => cases hrename
    | link path => exact absurd hnode (h.notLink path)
  · rintro ⟨hfits, hfitsTarget, hgoal, content, hnode, rfl⟩
    refine ⟨_, h.find_join_eq_ok.2 ⟨hfits, rfl, hnode⟩, ?_⟩
    refine bind_eq_ok.2 ⟨_, hlocated.2 ⟨hfitsTarget, rfl⟩, ?_⟩
    split
    · next hother => cases hother
    · next hdirectory _ => exact absurd hdirectory hgoal
    · rfl

end FileTree

end BinDelegation
