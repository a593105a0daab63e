import BinDelegation.Delegation.Graph
import BinDelegation.Proofs.Partition.Names
import Mathlib.Data.List.Basic

/-!
# The index of the bins

A bin of a graph is found under its name by the index, which tells the position of its document.
`Graph.Indexed` says that index and documents agree: there is a position for a name exactly if the
document there has this name for its role. Then a name leads to one document at most, no position
leads behind the last document, and looking a name up is looking for a document of that role
(`Indexed.bin?_eq_some`).

The index of a new graph is entered name by name (`getElem?_indexOf`). A name that came twice would
keep its last position only, so it is the distinctness of the names of bins, a fact about how ranges
of prefixes are written, on which the agreement rests.

Filing and signing change documents in place and touch neither their order nor their roles, so they
keep the agreement (`Indexed.congr`).
-/

namespace BinDelegation.Graph

variable {g g' : Graph} {name : String} {i : Nat} {d : Document BinBody}

/-- The index has a position for a name exactly if the document there has this name for its role. -/
def Indexed (g : Graph) : Prop :=
  ∀ (name : String) (i : Nat), g.index[name]? = some i ↔ ∃ d, g.bins[i]? = some d ∧ d.role = name

/-- The index stays right as long as the bins keep their order and their roles. -/
theorem Indexed.congr (h : g.Indexed) (hindex : g'.index = g.index)
    (hroles : g'.bins.map (·.role) = g.bins.map (·.role)) : g'.Indexed := by
  have hsome (g : Graph) (name : String) (i : Nat) :
      (∃ d, g.bins[i]? = some d ∧ d.role = name) ↔ (g.bins.map (·.role))[i]? = some name := by
    rw [List.getElem?_map, Option.map_eq_some_iff]
  intro name i
  rw [hindex, hsome, hroles, ← hsome]
  exact h name i

/-- What is found under a name is the document of that role. -/
theorem Indexed.bin?_eq_some (h : g.Indexed) :
    g.bin? name = some d ↔ ∃ i : Nat, g.bins[i]? = some d ∧ d.role = name := by
  refine Iff.trans Option.bind_eq_some_iff ?_
  constructor
  · rintro ⟨i, hi, hd⟩
    obtain ⟨d', hd', hrole⟩ := (h name i).1 hi
    cases hd.symm.trans hd'
    exact ⟨i, hd, hrole⟩
  · rintro ⟨i, hd, hrole⟩
    exact ⟨i, (h name i).2 ⟨d, hd, hrole⟩, hd⟩

/-- There is a document under the role of each document, and under no other text. -/
theorem Indexed.isSome_bin? (h : g.Indexed) :
    (g.bin? name).isSome = true ↔ name ∈ g.bins.map (·.role) := by
  rw [Option.isSome_iff_exists, List.mem_map]
  constructor
  · rintro ⟨d, hd⟩
    obtain ⟨i, hi, hrole⟩ := h.bin?_eq_some.1 hd
    exact ⟨d, List.mem_of_getElem? hi, hrole⟩
  · rintro ⟨d, hd, hrole⟩
    obtain ⟨i, hi⟩ := List.mem_iff_getElem?.1 hd
    exact ⟨d, h.bin?_eq_some.2 ⟨i, hi, hrole⟩⟩

/-- A state is told for the parent and for whatever a document is found for. -/
theorem isSome_stateOf? : (g.stateOf? name).isSome = true ↔
    name = g.parent.role ∨ (g.bin? name).isSome = true := by
  rw [stateOf?]
  split
  · next hrole => exact iff_of_true rfl (.inl hrole)
  · next hrole => rw [Option.isSome_map, or_iff_right hrole]

/-- Signatures are told for whatever a state is told for. -/
theorem isSome_signaturesOf? : (g.signaturesOf? name).isSome = true ↔
    name = g.parent.role ∨ (g.bin? name).isSome = true := by
  rw [← isSome_stateOf?, stateOf?, signaturesOf?]
  split
  · rfl
  · rw [Option.isSome_map, Option.isSome_map]

/-- A name is entered with the position of its bin, if no two bins have the same name. -/
theorem getElem?_indexOf {bins : List Bin} (hnames : (bins.map (·.name)).Nodup) :
    (indexOf bins)[name]? = some i ↔ ∃ b, bins[i]? = some b ∧ b.name = name := by
  have hfst : (bins.zipIdx.map fun entry => (entry.1.name, entry.2)).map Prod.fst
      = bins.map (·.name) := by
    rw [List.map_map, show (Prod.fst ∘ fun entry : Bin × Nat => (entry.1.name, entry.2))
      = Bin.name ∘ Prod.fst from rfl, ← List.map_map, List.zipIdx_map_fst]
  have hdistinct : (bins.zipIdx.map fun entry => (entry.1.name, entry.2)).Pairwise
      fun a b => ¬compare a.1 b.1 = .eq := by
    rw [← hfst, List.Nodup, List.pairwise_map] at hnames
    exact hnames.imp fun hne heq => hne (Std.compare_eq_iff_eq.1 heq)
  -- An entry is found with the position that it was made with, since no later one takes its place.
  have hfound {b : Bin} {position : Nat} (hb : bins[position]? = some b) :
      (indexOf bins)[b.name]? = some position :=
    Std.TreeMap.getElem?_ofList_of_mem Std.ReflCmp.compare_self hdistinct
      (List.mem_map.2 ⟨(b, position), List.mk_mem_zipIdx_iff_getElem?.2 hb, rfl⟩)
  constructor
  · intro h
    by_cases hmem : name ∈ bins.map (·.name)
    · obtain ⟨b, hb, rfl⟩ := List.mem_map.1 hmem
      obtain ⟨position, hposition⟩ := List.mem_iff_getElem?.1 hb
      cases (hfound hposition).symm.trans h
      exact ⟨b, hposition, rfl⟩
    · have hnone : (indexOf bins)[name]? = none := by
        refine Std.TreeMap.getElem?_ofList_of_contains_eq_false ?_
        rw [hfst]
        simpa using hmem
      cases hnone.symm.trans h
  · rintro ⟨b, hb, rfl⟩
    exact hfound hb

end BinDelegation.Graph
