import BinDelegation.Proofs.Delegation.Outline

/-!
# The role that a client finds

A client knows only the lists of prefix texts in the parent document and takes the first role that
has the hash prefix of a path. That is the role of the bin into which the path is filed by
arithmetic, and no other role has the prefix.

Two ways to a bin are compared. The client scans the roles for a text; filing divides the number of
the prefix by the size of a bin. They meet in the text of a number: the list of a bin has the texts
of the numbers from its first to its last, and one bin serves each number, the one at the quotient
(`filter_roles_digits`). So a scan finds the role at the quotient and no other, and it finds
something for the texts of numbers below the size of the space alone, which are the texts of
lower-case digits of one width.

Everything is stated for the outline of a graph that is reached from a build, and so holds in every
graph of a run.
-/

namespace BinDelegation.Graph

variable {g : Graph} {settings : Settings} {key : KeyRecord}

/-! ## Prefixes -/

section

variable {keyId parentExpires binExpires : String}
  (hg : g.outline = (fresh settings key keyId parentExpires binExpires).outline)

include hg

/-- One role of the parent has the text of a prefix: the entry of the bin that serves the prefix. -/
theorem filter_roles_digits {n : Nat} (hn : n < 16 ^ settings.partition.width) :
    g.parent.body.delegations.roles.filter
        (·.pathHashPrefixes.contains (settings.partition.digits n))
      = [roleSpec keyId (settings.partition.binAt (n / settings.partition.binSize.toNat))] := by
  refine filter_eq_singleton (getElem?_roles hg (settings.partition.div_binSize_lt hn)) ?_
  intro j role hrole
  obtain ⟨hj, rfl⟩ := eq_of_getElem?_roles hg hrole
  rw [List.contains_iff_mem, eq_comm (a := j)]
  exact settings.partition.digits_mem_hashPrefixes hj hn

/-- A text that some role has is the text of a prefix. -/
theorem exists_digits_of_roleForPrefix? {s : String} {role : RoleSpec}
    (h : g.parent.body.delegations.roleForPrefix? s = some role) :
    ∃ n < 16 ^ settings.partition.width, s = settings.partition.digits n := by
  obtain ⟨i, hi⟩ := List.mem_iff_getElem?.1 (List.mem_of_find?_eq_some h)
  obtain ⟨hlt, rfl⟩ := eq_of_getElem?_roles hg hi
  have hmem := List.find?_some h
  rw [List.contains_iff_mem] at hmem
  exact settings.partition.exists_of_mem_hashPrefixes hlt hmem

/-- For the text of a number, the role is found that stands at the quotient. -/
theorem roleForPrefix?_digits {n : Nat} (hn : n < 16 ^ settings.partition.width) :
    g.parent.body.delegations.roleForPrefix? (settings.partition.digits n)
      = some (roleSpec keyId (settings.partition.binAt (n / settings.partition.binSize.toNat))) :=
  find?_eq_some_of_filter (filter_roles_digits hg hn)

/-- A role is found for the texts of prefixes, and for no other text. -/
theorem isSome_roleForPrefix?_iff {s : String} :
    (g.parent.body.delegations.roleForPrefix? s).isSome = true ↔
      s.toList.length = settings.partition.width ∧
        ∀ c ∈ s.toList, Hex.isLowerDigit c = true := by
  rw [← Partition.exists_digits_iff, Option.isSome_iff_exists]
  constructor
  · rintro ⟨role, hrole⟩
    exact exists_digits_of_roleForPrefix? hg hrole
  · rintro ⟨n, hn, rfl⟩
    exact ⟨_, roleForPrefix?_digits hg hn⟩

/-- The role that is found stands where the bin stands that serves the number of the text. -/
theorem serves_of_roleForPrefix? {s : String} {role : RoleSpec}
    (h : g.parent.body.delegations.roleForPrefix? s = some role) :
    ∃ (n i : Nat) (bin : Bin), Hex.value? s.toList = some n ∧
      settings.partition.bins[i]? = some bin ∧
      g.parent.body.delegations.roles[i]? = some role ∧ role.name = bin.name ∧
      ∀ j other, settings.partition.bins[j]? = some other →
        (other.low.toNat ≤ n ∧ n ≤ other.high.toNat ↔ j = i) := by
  obtain ⟨n, hn, rfl⟩ := exists_digits_of_roleForPrefix? hg h
  rw [roleForPrefix?_digits hg hn, Option.some.injEq] at h
  subst h
  have hi := settings.partition.div_binSize_lt hn
  refine ⟨n, _, _, ?_, settings.partition.getElem?_bins hi, getElem?_roles hg hi, rfl, ?_⟩
  · rw [Partition.toList_digits, Hex.value?_fixed hn]
  · intro j other hother
    obtain ⟨hj, rfl⟩ := settings.partition.getElem?_bins_eq_some hother
    rw [settings.partition.mem_binAt_iff hj, eq_comm]

/-! ## Paths -/

/-- The role of a path is the entry of the bin of the path. -/
theorem roleForPath_eq (path : String) :
    ∃ value i, settings.partition.pathPrefix path = .ok value ∧ i < settings.partition.count ∧
      settings.partition.binForPath path = .ok (settings.partition.binAt i).name ∧
      g.roleForPath path = .ok (roleSpec keyId (settings.partition.binAt i)) ∧
      g.parent.body.delegations.roles.filter
          (·.pathHashPrefixes.contains (settings.partition.prefixText value))
        = [roleSpec keyId (settings.partition.binAt i)] := by
  obtain ⟨value, i, hvalue, hlt, hi, rfl, hbin⟩ := settings.partition.exists_binForPath path
  have htext := settings.partition.prefixText_eq hlt
  refine ⟨value, _, hvalue, hi, hbin, ?_, ?_⟩
  · rw [roleForPath, settings_of_outline hg, hvalue]
    simp only [bind, Except.bind, htext, roleForPrefix?_digits hg hlt]
  · rw [htext, filter_roles_digits hg hlt]

/-- A path that is not empty is filed into the bin of its role, unless that is signed. -/
theorem file_eq_of_outline {path : String} {i : Nat} (hpath : path ≠ "")
    (hi : i < settings.partition.count)
    (hbin : settings.partition.binForPath path = .ok (settings.partition.binAt i).name) :
    ∃ d, g.bins[i]? = some d ∧ d.role = (settings.partition.binAt i).name ∧
      ∀ record, g.file path record = if d.state = .signed then .error (.documentSealed d.role)
        else .ok (d.role, g.insertAt i path record) := by
  obtain ⟨d, hd, hrole⟩ := exists_getElem?_bins hg hi
  have hlocate : g.locate path = .ok i := (locate_iff hg).2 ⟨hpath, hi, hbin⟩
  exact ⟨d, hd, hrole, fun record => file_eq_ite record hlocate hd⟩

end

/-! ## Runs -/

variable {σ : Type} {g₀ : Graph} {operations : List (Operation σ)} {events : List (Event σ)}
  {world : σ}

/-- In every graph that is reached from a build, a client finds the role of every path: it has the
name that arithmetic gives, it is the only role with the hash prefix of the path, and its bin is the
one into which the path is filed. A role is found for the texts of lower-case digits of the width of
the partition and for no others, and its bin is the only one that serves their number. -/
theorem roles_of_run (hbuild : build settings key = .ok g₀)
    (hrun : (g₀.run operations world).1 = (events, g)) :
    (∀ path, ∃ role value, g.roleForPath path = .ok role ∧
      settings.partition.binForPath path = .ok role.name ∧
      settings.partition.pathPrefix path = .ok value ∧
      g.parent.body.delegations.roles.filter
        (·.pathHashPrefixes.contains (settings.partition.prefixText value)) = [role] ∧
      (path ≠ "" → ∃ i d, g.bins[i]? = some d ∧ d.role = role.name ∧
        ∀ record, g.file path record = if d.state = .signed then .error (.documentSealed d.role)
          else .ok (d.role, g.insertAt i path record))) ∧
    (∀ path record other name,
      g.file path record ≠ .error (.assignmentInconsistency other name)) ∧
    (∀ s, (g.parent.body.delegations.roleForPrefix? s).isSome = true ↔
      s.toList.length = settings.partition.width ∧
        ∀ c ∈ s.toList, Hex.isLowerDigit c = true) ∧
    ∀ s role, g.parent.body.delegations.roleForPrefix? s = some role →
      ∃ (n i : Nat) (bin : Bin), Hex.value? s.toList = some n ∧
        settings.partition.bins[i]? = some bin ∧
        g.parent.body.delegations.roles[i]? = some role ∧ role.name = bin.name ∧
        ∀ j other, settings.partition.bins[j]? = some other →
          (other.low.toNat ≤ n ∧ n ≤ other.high.toNat ↔ j = i) := by
  obtain ⟨keyId, parentExpires, binExpires, hg⟩ := exists_outline_eq_fresh hbuild hrun
  refine ⟨?_, ?_, fun s => isSome_roleForPrefix?_iff hg, fun s role => serves_of_roleForPrefix? hg⟩
  · intro path
    obtain ⟨value, i, hvalue, hi, hbin, hrole, hfilter⟩ := roleForPath_eq hg path
    refine ⟨_, value, hrole, hbin, hvalue, hfilter, ?_⟩
    intro hpath
    obtain ⟨d, hd, hname, hfile⟩ := file_eq_of_outline hg hpath hi hbin
    exact ⟨i, d, hd, hname, hfile⟩
  · intro path record other name
    -- The empty path is refused before it is hashed; every other path has a bin.
    by_cases hpath : path = ""
    · have hempty : g.file path record
          = .error (.invalidArgument "artifact path must not be empty") := by
        rw [hpath]
        rfl
      rw [hempty]
      exact fun h => by cases h
    · obtain ⟨value, i, -, hi, hbin, -⟩ := roleForPath_eq hg path
      obtain ⟨d, -, -, hfile⟩ := file_eq_of_outline hg hpath hi hbin
      rw [hfile]
      split
      · exact fun h => by cases h
      · exact fun h => by cases h

/-- A role is found for a path of the small delegation, and for texts of a single digit. -/
theorem roles_of_sample : ∃ g₀ events g, build Sample.settings Sample.key = .ok g₀ ∧
    (g₀.run Sample.operations 0).1 = (events, g) ∧ g.isFullySigned = true ∧
    (∃ role, g.roleForPath "b" = .ok role ∧
      Sample.settings.partition.binForPath "b" = .ok role.name) ∧
    (∀ s, (g.parent.body.delegations.roleForPrefix? s).isSome = true ↔
      s.toList.length = 1 ∧ ∀ c ∈ s.toList, Hex.isLowerDigit c = true) := by
  obtain ⟨g₀, events, g, hbuild, hrun, -, hsigned, -⟩ := Sample.exists_run
  obtain ⟨hpaths, -, hfound, -⟩ := roles_of_run hbuild hrun
  obtain ⟨role, value, hrole, hbin, -⟩ := hpaths "b"
  have hwidth : Sample.settings.partition.width = 1 := by decide +kernel
  rw [hwidth] at hfound
  exact ⟨g₀, events, g, hbuild, hrun, hsigned, ⟨role, hrole, hbin⟩, hfound⟩

end BinDelegation.Graph
