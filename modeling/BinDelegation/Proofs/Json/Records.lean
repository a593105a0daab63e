import BinDelegation.Json.Record
import BinDelegation.Proofs.Json.Denotation

/-!
# Taking spelled values apart

What the decoders of scalars and records make of a form that spells a value: the scalar itself, and
the members of an object under the names of a record's fields.

A record decoder gets its fields by name, and refuses an object that has a name twice or lacks one.
The lemmas follow it: the keys of the object are understood (`exists_named`), each name is found
once (`exists_member?`), all names are found (`exists_fields?`), and then the fields spell the
values in the order in which the record lists them (`exists_record?_eq`).

The last of these holds for every `build`, so the decoder of a document, whose `build` decodes the
records inside it, is taken apart one record at a time. `exists_build_of_record?` goes the other
way, from what was understood to what it was built from.
-/

namespace BinDelegation.Json.Form

variable {form : Form}

/-! ## Scalars -/

theorem text?_of_denotes {s : String} (h : Denotes form (.string s)) : form.text? = some s := by
  cases h with
  | string hparts => exact hparts

theorem flag?_of_denotes {b : Bool} (h : Denotes form (.bool b)) : form.flag? = some b := by
  cases h
  rfl

/-- A form of a natural number is understood as the number. -/
theorem natural?_of_denotes {n : UInt64} (h : Denotes form (.natural n)) :
    form.natural? = some n.toNat := by
  cases h with
  | integer hnumeral =>
    simp only [natural?, hnumeral, WireInteger.ofUInt64]
    rw [if_neg (by omega), Int.toNat_natCast]

theorem uint64?_of_denotes {n : UInt64} (h : Denotes form (.natural n)) :
    form.uint64? = some n := by
  rw [uint64?, natural?_of_denotes h, Option.map_some, UInt64.ofNat_toNat]

/-- A form of a 32-bit number is understood as the number, which the range check lets through. -/
theorem uint32?_of_denotes {n : UInt32} (h : Denotes form (.natural n.toUInt64)) :
    form.uint32? = some n := by
  simp only [uint32?, natural?_of_denotes h, UInt32.toNat_toUInt64]
  rw [if_pos n.toNat_lt, UInt32.ofNat_toNat]

/-! ## Records -/

section

variable {forms : List (List StringPart × Form)} {members : List (String × Json)}
  {named : List (String × Form)}

/-- The keys of an object are understood, and its forms spell the values in their order. -/
theorem exists_named (h : DenotesMembers forms members) :
    ∃ named : List (String × Form),
      (forms.mapM fun m => do return (← textOf? m.1, m.2)) = some named ∧
        List.Forall₂ (fun m member => m.1 = member.1 ∧ Denotes m.2 member.2) named members := by
  induction members generalizing forms with
  | nil =>
    cases h
    exact ⟨[], rfl, .nil⟩
  | cons member rest ih =>
    cases h with
    | @cons parts key form value forms _ hkey hvalue hrest =>
      obtain ⟨named, hnamed, hall⟩ := ih hrest
      refine ⟨(key, form) :: named, ?_, .cons ⟨rfl, hvalue⟩ hall⟩
      rw [List.mapM_cons, hnamed, hkey]
      rfl

/-- A name that no member has is found nowhere. -/
theorem filter_named_eq_nil {name : String}
    (h : List.Forall₂ (fun m member => m.1 = member.1 ∧ Denotes m.2 member.2) named members)
    (hname : name ∉ members.map (·.1)) : named.filter (·.1 = name) = [] := by
  induction h with
  | nil => rfl
  | cons head _ ih =>
    rw [List.map_cons, List.mem_cons, not_or] at hname
    rw [List.filter_cons_of_neg (by simpa [head.1] using Ne.symm hname.1), ih hname.2]

/-- Of members with distinct keys, the one of a name is found. -/
theorem exists_member? (name : String)
    (h : List.Forall₂ (fun m member => m.1 = member.1 ∧ Denotes m.2 member.2) named members)
    (hkeys : (members.map (·.1)).Nodup) :
    ∃ found, member? named name = some found ∧ Option.Rel Denotes found (members.lookup name) := by
  have hfilter : ∃ found, (named.filter (·.1 = name)).map (·.2) = Option.toList found ∧
      Option.Rel Denotes found (members.lookup name) := by
    induction h with
    | nil => exact ⟨none, rfl, .none⟩
    | @cons m member named members head tail ih =>
      obtain ⟨key, value⟩ := member
      rw [List.map_cons, List.nodup_cons] at hkeys
      rw [lookup_cons_ite]
      -- The keys are distinct, so behind the member of the name there is no other one.
      by_cases hname : name = key
      · subst hname
        rw [if_pos rfl, List.filter_cons_of_pos (by simp [head.1]),
          filter_named_eq_nil tail hkeys.1]
        exact ⟨some m.2, rfl, .some head.2⟩
      · rw [if_neg hname, List.filter_cons_of_neg (by simpa [head.1] using Ne.symm hname)]
        exact ih hkeys.2
  obtain ⟨found, hfound, hrel⟩ := hfilter
  refine ⟨found, ?_, hrel⟩
  rw [member?]
  split
  · next hnone =>
    rw [hnone] at hfound
    cases found with
    | none => rfl
    | some field => cases hfound
  · next m hone =>
    rw [hone] at hfound
    cases found with
    | none => cases hfound
    | some field =>
      cases hfound
      rfl
  · next hnone hone =>
    -- Two members of one name would be two fields.
    cases found with
    | none => exact absurd (List.map_eq_nil_iff.1 hfound) hnone
    | some field =>
      obtain ⟨m, hm, -⟩ := List.map_eq_singleton_iff.1 hfound
      exact absurd hm (hone m)

/-- Each field of a record is found as the member of its name. -/
theorem exists_fields? (names : List String) (h : Denotes form (.object members))
    (hkeys : (members.map (·.1)).Nodup) :
    ∃ found, form.fields? names = some found ∧
      List.Forall₂ (fun name field => Option.Rel Denotes field (members.lookup name))
        names found := by
  cases h with
  | @object forms _ hmembers =>
    obtain ⟨named, hnamed, hall⟩ := exists_named hmembers
    have hfound : ∃ found, names.mapM (member? named) = some found ∧
        List.Forall₂ (fun name field => Option.Rel Denotes field (members.lookup name)) names found
        := by
      induction names with
      | nil => exact ⟨[], rfl, .nil⟩
      | cons name names ih =>
        obtain ⟨field, hfield, hrel⟩ := exists_member? name hall hkeys
        obtain ⟨found, hfound, hrels⟩ := ih
        exact ⟨field :: found, by simp [hfield, hfound], .cons hrel hrels⟩
    obtain ⟨found, hfound, hrels⟩ := hfound
    exact ⟨found, by rw [fields?, hnamed]; exact hfound, hrels⟩

/-- Fields that are all found, by whatever look-up, spell the values of the members. -/
theorem exists_eq_map_some {find : String → Option Json} {found : List (Option Form)}
    (h : List.Forall₂ (fun name field => Option.Rel Denotes field (find name))
      (members.map (·.1)) found)
    (hfind : ∀ member ∈ members, find member.1 = some member.2) :
    ∃ fields, List.Forall₂ Denotes fields (members.map (·.2)) ∧ found = fields.map some := by
  induction members generalizing found with
  | nil =>
    cases h
    exact ⟨[], .nil, rfl⟩
  | cons member rest ih =>
    obtain ⟨hmember, hrest⟩ := List.forall_mem_cons.1 hfind
    rw [List.map_cons] at h
    cases h with
    | cons hrel hrels =>
      obtain ⟨fields, hfields, rfl⟩ := ih hrels hrest
      rw [hmember] at hrel
      cases hrel with
      | @some field _ hfield => exact ⟨field :: fields, .cons hfield hfields, rfl⟩

/-- A record whose fields are the members of an object is built from their forms, in order. -/
theorem exists_record?_eq (room : Nat) (h : Denotes form (.object members))
    (hkeys : (members.map (·.1)).Nodup) :
    ∃ fields, List.Forall₂ Denotes fields (members.map (·.2)) ∧
      ∀ {α : Type} (build : Nat → List Form → Option α),
        record? (members.map (·.1)) build (room + 1) form = build room fields := by
  obtain ⟨found, hfound, hrels⟩ := exists_fields? (members.map (·.1)) h hkeys
  obtain ⟨fields, hfields, rfl⟩ := exists_eq_map_some hrels
    fun member hmember => lookup_of_nodup_keys hkeys hmember
  refine ⟨fields, hfields, fun build => ?_⟩
  have hrequired : (fields.map some).mapM id = some fields := by
    clear hfound hrels hfields
    induction fields with
    | nil => rfl
    | cons field fields ih => simp [ih]
  rw [record?, hfound]
  simp only [Option.bind_eq_bind, Option.bind_some, hrequired]

/-- What a record is built from when it is understood. -/
theorem exists_build_of_record? {α : Type} {names : List String}
    {build : Nat → List Form → Option α} {room : Nat} {a : α}
    (h : record? names build room form = some a) :
    ∃ inner fields, room = inner + 1 ∧ build inner fields = some a := by
  cases room with
  | zero => cases h
  | succ inner =>
    obtain ⟨found, -, h⟩ := Option.bind_eq_some_iff.1 h
    obtain ⟨fields, -, h⟩ := Option.bind_eq_some_iff.1 h
    exact ⟨inner, fields, rfl, h⟩

end

end BinDelegation.Json.Form
