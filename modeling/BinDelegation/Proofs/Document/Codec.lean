import BinDelegation.Document.Body
import BinDelegation.Proofs.Checks
import BinDelegation.Proofs.Json.Records

/-!
# Decoding what was encoded

A codec is a decoder and an encoder that agree: the decoder takes any form that spells an encoded
value for that value, if the value is no deeper than there is room for and `null` is none of its
custom metadata. Conversely no value that the decoder gives is deeper than the room or has such
metadata. A container has a codec if its parts have one, and so every wire type has one.

The relation `Denotes` between forms and values leaves open how a text is spelled: the order of
members, members of no meaning, escapes in strings. So a codec says more than that a written value
is read back; it says this of every text that spells the value.

There is one lemma for each container: a list, a dictionary, and a record whose required fields are
its members. Each takes the codecs of the parts and gives the four facts of the whole. Optional
custom metadata of target records does not fit the last one, and has a codec of its own.
-/

namespace BinDelegation

open Json

/-! ## Codecs -/

/-- A decoder and an encoder that agree, with the custom metadata in each value. -/
structure Codec {α : Type} (decode : Form.Decoder α) (json : α → Json) (customs : α → List Json) :
    Prop where
  /-- The members of every object have distinct names. -/
  distinct : ∀ a, (json a).Distinct
  /-- Doubles stand in custom metadata only. -/
  reals : ∀ a, (json a).firstReal? = none ↔ ∀ custom ∈ customs a, custom.firstReal? = none
  /-- A decoded value is not deeper than the room, and `null` is no custom metadata of it. -/
  fits : ∀ {room form a}, decode room form = some a → (json a).depth ≤ room ∧ null ∉ customs a
  /-- A form that spells an encoded value is decoded. -/
  reads : ∀ {room form a}, Denotes form (json a) → (json a).depth ≤ room → null ∉ customs a →
    decode room form = some a

section

variable {α : Type} {decode : Form.Decoder α} {json : α → Json} {customs : α → List Json}
  {names : List String} {build : Nat → List Form → Option α} {members : α → List (String × Json)}

/-- An array is as deep as there is room for if its items are one less deep. -/
theorem depth_array_le_iff {items : List Json} {room : Nat} :
    (array items).depth ≤ room + 1 ↔ ∀ item ∈ items, item.depth ≤ room := by
  rw [depth, Nat.add_le_add_iff_right, itemsDepth_le_iff]

/-- An object is as deep as there is room for if its members are one less deep. -/
theorem depth_object_le_iff {parts : List (String × Json)} {room : Nat} :
    (object parts).depth ≤ room + 1 ↔ ∀ member ∈ parts, member.2.depth ≤ room := by
  rw [depth, Nat.add_le_add_iff_right, membersDepth_le_iff]

/-- A container needs room. -/
theorem exists_room {parts : List (String × Json)} {room : Nat}
    (h : (object parts).depth ≤ room) :
    ∃ inner, room = inner + 1 ∧ ∀ member ∈ parts, member.2.depth ≤ inner := by
  cases room with
  | zero => rw [depth] at h; omega
  | succ inner => exact ⟨inner, rfl, depth_object_le_iff.1 h⟩

/-- The codec of a text. -/
theorem textCodec : Codec (fun _ form => form.text?) Json.string fun _ => [] where
  distinct := .string
  reals s := by simp [firstReal?]
  fits _ := ⟨Nat.zero_le _, List.not_mem_nil⟩
  reads h _ _ := Form.text?_of_denotes h

/-- The codec of a list. -/
theorem Codec.list (h : Codec decode json customs) :
    Codec (Form.list? decode) (fun items => array (items.map json)) (·.flatMap customs) where
  distinct items := .array (List.forall_mem_map.2 fun a _ => h.distinct a)
  reals items := by
    rw [firstReal?_array_eq_none_iff, List.forall_mem_map, List.forall_mem_flatMap]
    simp only [h.reals]
  fits {room form items} hitems := by
    match room, form, hitems with
    | room + 1, .array forms, hitems =>
      have hall : ∀ a ∈ items, (json a).depth ≤ room ∧ null ∉ customs a := by
        intro a ha
        obtain ⟨form, -, hform⟩ := exists_of_forall₂ (mapM_eq_some.1 hitems) a ha
        exact h.fits hform
      refine ⟨depth_array_le_iff.2 (List.forall_mem_map.2 fun a ha => (hall a ha).1), ?_⟩
      intro hnull
      obtain ⟨a, ha, hnull⟩ := List.mem_flatMap.1 hnull
      exact (hall a ha).2 hnull
  reads {room form items} hform hdepth hnull := by
    cases hform with
    | @array forms _ hitems =>
      cases room with
      | zero => rw [depth] at hdepth; omega
      | succ room =>
        rw [denotesItems_iff, List.forall₂_map_right_iff] at hitems
        rw [depth_array_le_iff, List.forall_mem_map] at hdepth
        refine mapM_eq_some.2 (forall₂_imp_of_mem hitems fun a ha form hform => ?_)
        exact h.reads hform (hdepth a ha) fun hcustom => hnull (List.mem_flatMap.2 ⟨a, ha, hcustom⟩)

/-- The codec of a dictionary. -/
theorem Codec.dict (h : Codec decode json customs) :
    Codec (Form.dict? decode) (ofDict json) (fun d => d.entries.flatMap (customs ·.2)) where
  distinct d := by
    refine .object ?_ (List.forall_mem_map.2 fun entry _ => h.distinct entry.2)
    rw [List.map_map]
    exact d.ascending.nodup_keys
  reals d := by
    rw [ofDict, firstReal?_object_eq_none_iff, List.forall_mem_map, List.forall_mem_flatMap]
    simp only [h.reals]
  fits {room form d} hd := by
    match room, form, hd with
    | room + 1, .object forms, hd =>
      obtain ⟨entries, hentries, hd⟩ := Option.bind_eq_some_iff.1 hd
      cases hd
      have hall : ∀ entry ∈ (Dict.ofList entries).entries,
          (json entry.2).depth ≤ room ∧ null ∉ customs entry.2 := by
        intro entry hentry
        -- What is left of repeated keys was read, so each entry comes from a member of the text.
        obtain ⟨m, -, hm⟩ :=
          exists_of_forall₂ (mapM_eq_some.1 hentries) entry (Dict.mem_of_mem_ofList hentry)
        obtain ⟨key, -, hm⟩ := Option.bind_eq_some_iff.1 hm
        obtain ⟨value, hvalue, hm⟩ := Option.bind_eq_some_iff.1 hm
        cases hm
        exact h.fits hvalue
      refine ⟨depth_object_le_iff.2 (List.forall_mem_map.2 fun entry hentry =>
        (hall entry hentry).1), ?_⟩
      intro hnull
      obtain ⟨entry, hentry, hnull⟩ := List.mem_flatMap.1 hnull
      exact (hall entry hentry).2 hnull
  reads {room form d} hform hdepth hnull := by
    obtain ⟨inner, rfl, hvalues⟩ := exists_room hdepth
    rw [List.forall_mem_map] at hvalues
    cases hform with
    | @object forms _ hmembers =>
      rw [denotesMembers_iff, List.forall₂_map_right_iff] at hmembers
      have hentries : (forms.mapM fun m => do return (← textOf? m.1, ← decode inner m.2))
          = some d.entries := by
        refine mapM_eq_some.2 (forall₂_imp_of_mem hmembers fun entry hentry m hm => ?_)
        have hvalue := h.reads hm.2 (hvalues entry hentry) fun hcustom =>
          hnull (List.mem_flatMap.2 ⟨entry, hentry, hcustom⟩)
        rw [hm.1, hvalue]
        rfl
      rw [Form.dict?, hentries]
      -- The members were written in the order of the dictionary, so entering them again gives it
      -- back.
      exact congrArg some (Dict.ofList_entries d)

/-- The codec of a record whose required fields are its members. -/
theorem Codec.record (hnames : ∀ a, (members a).map (·.1) = names) (hnodup : names.Nodup)
    (distinct : ∀ a, ∀ member ∈ members a, member.2.Distinct)
    (reals : ∀ a, (∀ member ∈ members a, member.2.firstReal? = none) ↔
      ∀ custom ∈ customs a, custom.firstReal? = none)
    (fits : ∀ {room fields a}, build room fields = some a →
      (∀ member ∈ members a, member.2.depth ≤ room) ∧ null ∉ customs a)
    (reads : ∀ {room fields a},
      List.Forall₂ (fun form member => Denotes form member.2 ∧ member.2.depth ≤ room)
        fields (members a) → null ∉ customs a → build room fields = some a) :
    Codec (Form.record? names build) (fun a => object (members a)) customs where
  distinct a := .object (by rw [hnames]; exact hnodup) (distinct a)
  reals a := by rw [firstReal?_object_eq_none_iff, reals]
  fits {room form a} ha := by
    obtain ⟨inner, fields, rfl, hbuild⟩ := Form.exists_build_of_record? ha
    obtain ⟨hdepth, hnull⟩ := fits hbuild
    exact ⟨depth_object_le_iff.2 hdepth, hnull⟩
  reads {room form a} hform hdepth hnull := by
    obtain ⟨inner, rfl, hparts⟩ := exists_room hdepth
    obtain ⟨fields, hfields, hrecord⟩ :=
      Form.exists_record?_eq inner hform (by rw [hnames]; exact hnodup)
    rw [hnames] at hrecord
    rw [List.forall₂_map_right_iff] at hfields
    refine (hrecord build).trans (reads (forall₂_imp_of_mem hfields ?_) hnull)
    exact fun member hmember form hform => ⟨hform, hparts member hmember⟩

end

end BinDelegation
