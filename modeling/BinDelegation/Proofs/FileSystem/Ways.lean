import BinDelegation.FileSystem.Tree
import Mathlib.Data.List.Basic

/-!
# Ways in a file tree

`FileTree.Leads` says that steps lead from one place to another through directories and symbolic
links alone, and how many links there are on the way. A path that is followed to a directory goes
such a way, and only what stands on the way decides where it leads. So the way is the same in a tree
with the same directories and links, and it can be gone on from its end by further steps.

Following a path is a recursion on the links that may still be followed, and within it one on the
steps; every link puts its own steps before those that are left. The relation has neither bound, so
an induction on it needs no count: its constructors are the cases of one step. The bound comes back
as the number of links used, in `exists_leads_of_follow` and `Leads.follow_append`.

`follow_into_cases` is the inversion lemma of the recursion. It says everything that one name can
do, and the proofs about whole ways only use it.
-/

namespace BinDelegation.FileTree

variable {t t' : FileTree} {approach : Approach} {links used more : Nat}
  {place place' mid found directory : Location} {steps rest base : List PathStep} {name : FileName}
  {path : List UInt8}

/-! ## Following -/

/-- What is followed depends on the next stage alone. -/
theorem follow_congr (h : t.advance approach place steps = t.advance approach place' rest) :
    t.follow approach links place steps = t.follow approach links place' rest := by
  rw [follow, follow, h]

/-- A way that arrives at once ends there. -/
theorem follow_arrived (h : t.advance approach place steps = .ok (.arrived found)) :
    t.follow approach links place steps = .ok found := by
  rw [follow, h]
  rfl

/-- A symbolic link puts its own steps before those that are left, for one link fewer. -/
theorem follow_atLink (h : t.advance approach place steps = .ok (.atLink directory path rest)) :
    t.follow approach (links + 1) place steps
      = t.follow approach links (start path directory) (Path.steps path ++ rest) := by
  rw [follow, h]
  rfl

/-- A stage that fails ends the way. -/
theorem follow_of_error {e : FileError} (h : t.advance approach place steps = .error e) :
    t.follow approach links place steps = .error e := by
  rw [follow, h]
  rfl

theorem follow_stay : t.follow approach links place (.stay :: rest)
    = t.follow approach links place rest := follow_congr rfl

theorem follow_slash : t.follow approach links place (.slash :: rest)
    = t.follow approach links place rest := follow_congr rfl

theorem follow_up : t.follow approach links place (.up :: rest)
    = t.follow approach links place.dropLast rest := follow_congr rfl

/-- A directory on the way is gone through. -/
theorem follow_directory (hslash : ¬ (approach = .toFile ∧ rest = [.slash]))
    (hlength : name.length ≤ maxNameLength) (hnode : t.node? (place ++ [name]) = some .directory) :
    t.follow approach links place (.into name :: rest)
      = t.follow approach links (place ++ [name]) rest := by
  refine follow_congr ?_
  rw [advance, if_neg hslash, if_neg (Nat.not_lt.2 hlength)]
  simp only [hnode]

/-- A symbolic link on the way is followed. -/
theorem follow_link (hslash : ¬ (approach = .toFile ∧ rest = [.slash]))
    (hlast : (approach.isLast rest && !approach.followsLast) = false)
    (hlength : name.length ≤ maxNameLength)
    (hnode : t.node? (place ++ [name]) = some (.link path)) :
    t.follow approach (links + 1) place (.into name :: rest)
      = t.follow approach links (start path place) (Path.steps path ++ rest) := by
  refine follow_atLink ?_
  rw [advance, if_neg hslash, if_neg (Nat.not_lt.2 hlength)]
  simp only [hnode, hlast, Bool.false_eq_true, if_false]

/-- Where one name leads that is not that of a symbolic link which is followed. -/
theorem follow_name (hlink : approach.followsLast = true →
      ∀ path, t.node? (place ++ [name]) ≠ some (.link path)) :
    t.follow approach links place [.into name]
      = if name.length ≤ maxNameLength then .ok (place ++ [name]) else .error .nameTooLong := by
  have hlast : approach.isLast [] = true := rfl
  have hslash : ¬ (approach = .toFile ∧ ([] : List PathStep) = [.slash]) := fun h => by cases h.2
  split
  · next hlength =>
    refine follow_arrived ?_
    rw [advance, if_neg hslash, if_neg (Nat.not_lt.2 hlength)]
    cases hnode : t.node? (place ++ [name]) with
    | none => simp only [hnode, hlast, if_true]
    | some node =>
      cases node with
      | file content => simp only [hnode, hlast, if_true]
      | directory => simp only [hnode, advance]
      | link path =>
        have hstays : approach.followsLast = false :=
          Bool.eq_false_iff.2 fun hfollows => hlink hfollows path hnode
        simp only [hnode, hlast, hstays, Bool.not_false, Bool.and_self, if_true]
  · next hlength =>
    refine follow_of_error ?_
    rw [advance, if_neg hslash, if_pos (Nat.not_le.1 hlength)]

/-- Where a name leads on the way of a path: the path ends there, at no directory and at no symbolic
link that is followed, or goes on from a directory or from a symbolic link. -/
theorem follow_into_cases (h : t.follow approach links place (.into name :: rest) = .ok found) :
    name.length ≤ maxNameLength ∧
      (found = place ++ [name] ∧ t.node? found ≠ some .directory ∧ approach.isLast rest = true ∧
        (approach.followsLast = true → ∀ path, t.node? found ≠ some (.link path)) ∨
      t.node? (place ++ [name]) = some .directory ∧
        t.follow approach links (place ++ [name]) rest = .ok found ∨
      ∃ path left, t.node? (place ++ [name]) = some (.link path) ∧ links = left + 1 ∧
        t.follow approach left (start path place) (Path.steps path ++ rest) = .ok found) := by
  by_cases hslash : approach = .toFile ∧ rest = [.slash]
  · rw [follow_of_error (by rw [advance, if_pos hslash])] at h
    cases h
  by_cases hlength : name.length ≤ maxNameLength
  · refine ⟨hlength, ?_⟩
    -- A name that is not gone through is the last one.
    have hended {e : FileError} (hnode : t.node? (place ++ [name]) ≠ some .directory)
        (hlink : approach.followsLast = true →
          ∀ path, t.node? (place ++ [name]) ≠ some (.link path))
        (hstage : t.advance approach place (.into name :: rest)
          = if approach.isLast rest then .ok (.arrived (place ++ [name])) else .error e) :
        found = place ++ [name] ∧ t.node? found ≠ some .directory ∧ approach.isLast rest = true ∧
          (approach.followsLast = true → ∀ path, t.node? found ≠ some (.link path)) := by
      split at hstage
      · next hlast =>
        cases (follow_arrived hstage).symm.trans h
        exact ⟨rfl, hnode, hlast, hlink⟩
      · cases (follow_of_error hstage).symm.trans h
    cases hnode : t.node? (place ++ [name]) with
    | none =>
      refine .inl (hended (e := .notFound) (by simp [hnode]) (by simp [hnode]) ?_)
      rw [advance, if_neg hslash, if_neg (Nat.not_lt.2 hlength)]
      simp only [hnode]
    | some node =>
      cases node with
      | file content =>
        refine .inl (hended (e := .notADirectory) (by simp [hnode]) (by simp [hnode]) ?_)
        rw [advance, if_neg hslash, if_neg (Nat.not_lt.2 hlength)]
        simp only [hnode]
      | directory =>
        rw [follow_directory hslash hlength hnode] at h
        exact .inr (.inl ⟨rfl, h⟩)
      | link path =>
        cases hlast : approach.isLast rest && !approach.followsLast with
        | true =>
          rw [Bool.and_eq_true, Bool.not_eq_true'] at hlast
          refine .inl (hended (e := .notFound) (by simp [hnode]) (by simp [hlast.2]) ?_)
          rw [advance, if_neg hslash, if_neg (Nat.not_lt.2 hlength)]
          simp only [hnode, hlast, Bool.not_false, Bool.and_self, if_true]
        | false =>
          cases links with
          | zero =>
            rw [follow, advance, if_neg hslash, if_neg (Nat.not_lt.2 hlength)] at h
            simp only [hnode, hlast, Bool.false_eq_true, if_false] at h
            cases h
          | succ left =>
            rw [follow_link hslash hlast hlength hnode] at h
            exact .inr (.inr ⟨path, left, rfl, rfl, h⟩)
  · rw [follow_of_error (by rw [advance, if_neg hslash, if_pos (Nat.not_le.1 hlength)])] at h
    cases h

/-! ## Ways -/

/-- Steps lead from a place to another one through directories and a number of symbolic links. -/
inductive Leads (t : FileTree) : (links : Nat) → Location → List PathStep → Location → Prop where
  | arrived {place : Location} : Leads t 0 place [] place
  | stay {links : Nat} {place found : Location} {rest : List PathStep}
      (hrest : Leads t links place rest found) : Leads t links place (.stay :: rest) found
  | slash {links : Nat} {place found : Location} {rest : List PathStep}
      (hrest : Leads t links place rest found) : Leads t links place (.slash :: rest) found
  | up {links : Nat} {place found : Location} {rest : List PathStep}
      (hrest : Leads t links place.dropLast rest found) : Leads t links place (.up :: rest) found
  | directory {links : Nat} {place found : Location} {name : FileName} {rest : List PathStep}
      (hlength : name.length ≤ maxNameLength) (hnode : t.node? (place ++ [name]) = some .directory)
      (hrest : Leads t links (place ++ [name]) rest found) :
      Leads t links place (.into name :: rest) found
  | link {links : Nat} {place found : Location} {name : FileName} {rest : List PathStep}
      {path : List UInt8} (hlength : name.length ≤ maxNameLength)
      (hnode : t.node? (place ++ [name]) = some (.link path))
      (hrest : Leads t links (start path place) (Path.steps path ++ rest) found) :
      Leads t (links + 1) place (.into name :: rest) found

/-- A path that is followed to a directory goes a way. -/
theorem exists_leads_of_follow (h : t.follow .through links place steps = .ok found)
    (hfound : t.node? found = some .directory) :
    ∃ used ≤ links, t.Leads used place steps found := by
  -- The links decrease where one is followed, and the steps where none is; a link puts new steps
  -- there, so the outer induction is on the links.
  induction links using Nat.strongRecOn generalizing place steps with | _ links ihLinks
  induction steps generalizing place with
  | nil =>
    have harrived : t.follow .through links place [] = .ok place := follow_arrived rfl
    cases harrived.symm.trans h
    exact ⟨0, Nat.zero_le links, .arrived⟩
  | cons step rest ih =>
    cases step with
    | stay =>
      rw [follow_stay] at h
      obtain ⟨used, hused, hleads⟩ := ih h
      exact ⟨used, hused, hleads.stay⟩
    | slash =>
      rw [follow_slash] at h
      obtain ⟨used, hused, hleads⟩ := ih h
      exact ⟨used, hused, hleads.slash⟩
    | up =>
      rw [follow_up] at h
      obtain ⟨used, hused, hleads⟩ := ih h
      exact ⟨used, hused, hleads.up⟩
    | into name =>
      obtain ⟨hlength, ⟨-, hnode, -⟩ | ⟨hnode, hrest⟩ | ⟨path, left, hnode, rfl, hrest⟩⟩ :=
        follow_into_cases h
      · exact absurd hfound hnode
      · obtain ⟨used, hused, hleads⟩ := ih hrest
        exact ⟨used, hused, hleads.directory hlength hnode⟩
      · obtain ⟨used, hused, hleads⟩ := ihLinks left (Nat.lt_succ_self left) hrest
        exact ⟨used + 1, Nat.succ_le_succ hused, hleads.link hlength hnode⟩

/-- What is behind a way is followed from its end, with the links that are left. -/
theorem Leads.follow_append (h : t.Leads used place base mid)
    (hslash : ∀ front, ¬ (approach = .toFile ∧ front ++ rest = [.slash]))
    (hlast : ∀ front, (approach.isLast (front ++ rest) && !approach.followsLast) = false) :
    t.follow approach (used + more) place (base ++ rest) = t.follow approach more mid rest := by
  induction h with
  | arrived => rw [Nat.zero_add, List.nil_append]
  | stay _ ih => rw [List.cons_append, follow_stay, ih]
  | slash _ ih => rw [List.cons_append, follow_slash, ih]
  | up _ ih => rw [List.cons_append, follow_up, ih]
  | directory hlength hnode _ ih =>
    rw [List.cons_append, follow_directory (hslash _) hlength hnode, ih]
  | link hlength hnode _ ih =>
    rw [List.cons_append, Nat.add_right_comm, follow_link (hslash _) (hlast _) hlength hnode,
      ← List.append_assoc, ih]

/-- A way is followed to its end. -/
theorem Leads.follow_through (h : t.Leads used place steps found) (hused : used ≤ links) :
    t.follow .through links place steps = .ok found := by
  obtain ⟨more, rfl⟩ := Nat.exists_eq_add_of_le hused
  rw [← List.append_nil steps, h.follow_append (by simp) (by simp [Approach.followsLast])]
  exact follow_arrived rfl

/-- A name behind a way is looked up in the directory at its end. -/
theorem Leads.follow_name (h : t.Leads used place base mid) (hused : used ≤ links)
    (hlink : approach.followsLast = true →
      ∀ path, t.node? (mid ++ [name]) ≠ some (.link path)) :
    t.follow approach links place (base ++ [.into name])
      = if name.length ≤ maxNameLength then .ok (mid ++ [name]) else .error .nameTooLong := by
  obtain ⟨more, rfl⟩ := Nat.exists_eq_add_of_le hused
  have hname (front : List PathStep) : front ++ [.into name] ≠ [.slash] := by
    intro hslash
    have hlast := congrArg List.getLast? hslash
    rw [List.getLast?_concat] at hlast
    cases hlast
  have hlast (front : List PathStep) : approach.isLast (front ++ [.into name]) = false := by
    simp [Approach.isLast, hname front]
  rw [h.follow_append (fun front hslash => hname front hslash.2)
    (fun front => by rw [hlast, Bool.false_and]), FileTree.follow_name hlink]

/-- A way along steps and further steps is a way along the steps and one along the further ones. -/
theorem Leads.exists_of_append (h : t.Leads links place (base ++ rest) found) :
    ∃ mid used more, t.Leads used place base mid ∧ t.Leads more mid rest found ∧
      links = used + more := by
  induction links using Nat.strongRecOn generalizing place base with | _ links ihLinks
  induction base generalizing place with
  | nil => exact ⟨place, 0, links, .arrived, h, (Nat.zero_add links).symm⟩
  | cons step base ih =>
    rw [List.cons_append] at h
    cases h with
    | stay hway =>
      obtain ⟨mid, used, more, hbase, hrest, hlinks⟩ := ih hway
      exact ⟨mid, used, more, hbase.stay, hrest, hlinks⟩
    | slash hway =>
      obtain ⟨mid, used, more, hbase, hrest, hlinks⟩ := ih hway
      exact ⟨mid, used, more, hbase.slash, hrest, hlinks⟩
    | up hway =>
      obtain ⟨mid, used, more, hbase, hrest, hlinks⟩ := ih hway
      exact ⟨mid, used, more, hbase.up, hrest, hlinks⟩
    | directory hlength hnode hway =>
      obtain ⟨mid, used, more, hbase, hrest, hlinks⟩ := ih hway
      exact ⟨mid, used, more, hbase.directory hlength hnode, hrest, hlinks⟩
    | link hlength hnode hway =>
      rw [← List.append_assoc] at hway
      obtain ⟨mid, used, more, hbase, hrest, rfl⟩ := ihLinks _ (Nat.lt_succ_self _) hway
      exact ⟨mid, used + 1, more, hbase.link hlength hnode, hrest, Nat.add_right_comm used more 1⟩

/-- A way is the same in a tree with the same directories and symbolic links on it. -/
theorem Leads.congr (h : t.Leads links place steps found)
    (hdirectory : ∀ place, t.node? place = some .directory → t'.node? place = some .directory)
    (hlink : ∀ place path, t.node? place = some (.link path) → t'.node? place = some (.link path)) :
    t'.Leads links place steps found := by
  induction h with
  | arrived => exact .arrived
  | stay _ ih => exact ih.stay
  | slash _ ih => exact ih.slash
  | up _ ih => exact ih.up
  | directory hlength hnode _ ih => exact ih.directory hlength (hdirectory _ hnode)
  | link hlength hnode _ ih => exact ih.link hlength (hlink _ _ hnode)

/-- Where a way ends at a directory, something is found at its end even if a symbolic link there
is not followed. -/
theorem Leads.exists_follow (h : t.Leads used place steps found) (hused : used ≤ links)
    (hfound : t.node? found = some .directory) (happroach : approach.followsLast = false) :
    ∃ goal node, t.follow approach links place steps = .ok goal ∧ t.node? goal = some node := by
  obtain ⟨more, rfl⟩ := Nat.exists_eq_add_of_le hused
  clear hused
  have hfile : approach ≠ .toFile := by
    rintro rfl
    cases happroach
  induction h with
  | arrived => exact ⟨_, _, follow_arrived rfl, hfound⟩
  | stay _ ih => rw [follow_stay]; exact ih hfound
  | slash _ ih => rw [follow_slash]; exact ih hfound
  | up _ ih => rw [follow_up]; exact ih hfound
  | directory hlength hnode _ ih =>
    rw [follow_directory (fun h => hfile h.1) hlength hnode]
    exact ih hfound
  | @link links place found name rest path hlength hnode _ ih =>
    cases hlast : approach.isLast rest with
    | true =>
      -- A link as the last name is what is found, and not where it leads.
      refine ⟨place ++ [name], .link path, follow_arrived ?_, hnode⟩
      rw [advance, if_neg fun h => hfile h.1, if_neg (Nat.not_lt.2 hlength)]
      simp only [hnode, hlast, happroach, Bool.not_false, Bool.and_self, if_true]
    | false =>
      rw [Nat.add_right_comm, follow_link (fun h => hfile h.1) (by rw [hlast, Bool.false_and])
        hlength hnode]
      exact ih hfound

end BinDelegation.FileTree
