import BinDelegation.Document.Body
import BinDelegation.Proofs.Document.Codec

/-!
# The codecs of documents

Every wire type has a codec. Only target records hold custom metadata, so that of a document is what
its dictionary of targets holds.

Most types are records whose members are all required. For these `Codec.record` asks four things:
that no member has a name twice, where doubles may be, what a decoded value fits, and that fields
which spell the members are decoded. The proofs take the fields of a record off one by one, each
with the codec of its type. The codec of a table or a body is made of those of its parts.

A target record may have custom metadata or none, so it is decoded in its own way, and its codec is
shown from what its decoder asks of each field (`TargetRecord.decode_eq_some_iff`).

The last part bounds depths. Nothing but custom metadata makes a document deep, so one without any
is far from where a reader stops.
-/

namespace BinDelegation

open Json

/-! ## Keys and roles -/

/-- The codec of a signature. -/
theorem Signature.codec : Codec (Wire.decode : Form.Decoder Signature) Wire.json fun _ => [] := by
  refine Codec.record (fun _ => rfl) (by decide) ?_ ?_ ?_ ?_
  · simp [Distinct.string]
  · simp [firstReal?]
  · simp [depth]
  · rintro room fields s (_ | ⟨⟨hkeyId, -⟩, _ | ⟨⟨hvalue, -⟩, _ | _⟩⟩) -
    simp [Form.text?_of_denotes hkeyId, Form.text?_of_denotes hvalue]

/-- The record inside a key record. -/
theorem keyvalCodec :
    Codec (Form.record? ["public"] fun _ fields =>
      match fields with
      | [publicKey] => publicKey.text?
      | _ => none) (fun publicKey => object [("public", .string publicKey)]) fun _ => [] := by
  refine Codec.record (fun _ => rfl) (by decide) ?_ ?_ ?_ ?_
  · simp [Distinct.string]
  · simp [firstReal?]
  · simp [depth]
  · rintro room fields publicKey (_ | ⟨⟨hpublic, -⟩, _ | _⟩) -
    exact Form.text?_of_denotes hpublic

/-- The codec of a public key. -/
theorem KeyRecord.codec : Codec (Wire.decode : Form.Decoder KeyRecord) Wire.json fun _ => [] := by
  refine Codec.record (fun _ => rfl) (by decide) ?_ ?_ ?_ ?_
  · simp [Distinct.string, keyvalCodec.distinct]
  · simp [firstReal?, firstRealMember?]
  · intro room fields k h
    split at h
    · obtain ⟨keytype, -, h⟩ := Option.bind_eq_some_iff.1 h
      obtain ⟨scheme, -, h⟩ := Option.bind_eq_some_iff.1 h
      obtain ⟨publicKey, hvalue, h⟩ := Option.bind_eq_some_iff.1 h
      cases h
      simpa [depth] using (keyvalCodec.fits hvalue).1
    · cases h
  · rintro room fields k
      (_ | ⟨⟨hkeytype, -⟩, _ | ⟨⟨hscheme, -⟩, _ | ⟨⟨hkeyval, hdepth⟩, _ | _⟩⟩⟩) -
    refine Option.bind_eq_some_iff.2 ⟨_, Form.text?_of_denotes hkeytype, ?_⟩
    refine Option.bind_eq_some_iff.2 ⟨_, Form.text?_of_denotes hscheme, ?_⟩
    exact Option.bind_eq_some_iff.2
      ⟨_, keyvalCodec.reads hkeyval hdepth List.not_mem_nil, rfl⟩

/-- The codec of a list of texts. -/
theorem textsCodec : Codec textsOf? strings fun _ => [] where
  distinct := textCodec.list.distinct
  reals _ := (textCodec.list.reals _).trans (by simp)
  fits h := ⟨(textCodec.list.fits h).1, List.not_mem_nil⟩
  reads hform hdepth _ := textCodec.list.reads hform hdepth (by simp)

/-- The codec of a role. -/
theorem RoleSpec.codec : Codec (Wire.decode : Form.Decoder RoleSpec) Wire.json fun _ => [] := by
  refine Codec.record (fun _ => rfl) (by decide) ?_ ?_ ?_ ?_
  · simp [Distinct.string, Distinct.bool, Distinct.integer, Json.natural, textsCodec.distinct]
  · simp [firstReal?, Json.natural, (textsCodec.reals _).2]
  · intro room fields r h
    split at h
    · obtain ⟨name, -, h⟩ := Option.bind_eq_some_iff.1 h
      obtain ⟨keyIds, hkeyIds, h⟩ := Option.bind_eq_some_iff.1 h
      obtain ⟨threshold, -, h⟩ := Option.bind_eq_some_iff.1 h
      obtain ⟨terminating, -, h⟩ := Option.bind_eq_some_iff.1 h
      obtain ⟨prefixes, hprefixes, h⟩ := Option.bind_eq_some_iff.1 h
      cases h
      simp [depth, Json.natural, (textsCodec.fits hkeyIds).1, (textsCodec.fits hprefixes).1]
    · cases h
  -- The five fields, each with what it spells and how deep that is.
  · rintro room fields r (_ | ⟨⟨hname, -⟩, _ | ⟨⟨hkeyIds, hkeyIdsDepth⟩, _ | ⟨⟨hthreshold, -⟩,
      _ | ⟨⟨hterminating, -⟩, _ | ⟨⟨hprefixes, hprefixesDepth⟩, _ | _⟩⟩⟩⟩⟩) -
    simp only [Form.text?_of_denotes hname, Form.uint32?_of_denotes hthreshold,
      textsCodec.reads hkeyIds hkeyIdsDepth List.not_mem_nil, Form.flag?_of_denotes hterminating,
      textsCodec.reads hprefixes hprefixesDepth List.not_mem_nil]
    rfl

/-- The codec of a delegation table. -/
theorem DelegationTable.codec :
    Codec (Wire.decode : Form.Decoder DelegationTable) Wire.json fun _ => [] := by
  have hkeys := KeyRecord.codec.dict
  have hroles := RoleSpec.codec.list
  refine Codec.record (fun _ => rfl) (by decide) ?_ ?_ ?_ ?_
  · simp [hkeys.distinct, hroles.distinct]
  · simp [(hkeys.reals _).2, (hroles.reals _).2]
  · intro room fields t h
    split at h
    · obtain ⟨keys, hdict, h⟩ := Option.bind_eq_some_iff.1 h
      obtain ⟨roles, hlist, h⟩ := Option.bind_eq_some_iff.1 h
      cases h
      simp [(hkeys.fits hdict).1, (hroles.fits hlist).1]
    · cases h
  · rintro room fields t
      (_ | ⟨⟨hdict, hdictDepth⟩, _ | ⟨⟨hlist, hlistDepth⟩, _ | _⟩⟩) -
    simp only [hkeys.reads hdict hdictDepth (by simp), hroles.reads hlist hlistDepth (by simp)]
    rfl

/-! ## Target records -/

namespace TargetRecord

variable {room : Nat} {form : Form}

/-- Custom metadata that is read is not deeper than the room, and not `null`. -/
theorem fits_of_customOf? {field : Option Form} {custom : Option Json}
    (h : customOf? room field = some custom) :
    ∀ value ∈ custom, value.depth ≤ room ∧ value ≠ null := by
  rintro value rfl
  rw [customOf?.eq_def] at h
  split at h
  · cases h
  · cases h
  · next form hform =>
    obtain ⟨value, hvalue, heq⟩ := Option.map_eq_some_iff.1 h
    cases heq
    exact ⟨depth_le_of_value? hvalue, fun hnull => hform (eq_null_of_value? (hnull ▸ hvalue))⟩

/-- Sorted custom metadata is read back, if it is not `null`. -/
theorem customOf?_of_rel {field : Option Form} {custom : Option Json}
    (h : Option.Rel Denotes field custom) (hsorted : ∀ value ∈ custom, value.isSorted = true)
    (hfits : ∀ value ∈ custom, value.depth ≤ room ∧ value ≠ null) :
    customOf? room field = some custom := by
  cases h with
  | none => rfl
  | @some form value hform =>
    obtain ⟨hdepth, hnull⟩ := hfits value rfl
    have hsorted := hsorted value rfl
    have hread := value?_of_denotes value hform (distinct_of_isSorted value hsorted) hdepth
    rw [sorted_of_isSorted value hsorted] at hread
    rw [customOf?, hread, Option.map_some]
    rintro rfl
    cases hread
    exact hnull rfl

/-- A record is decoded from its fields. -/
theorem decode_eq_some_iff {r : TargetRecord} :
    decode (room + 1) form = some r ↔ ∃ length hashes custom,
      form.fields? ["length", "hashes", "custom"] = some [some length, some hashes, custom] ∧
        length.uint64? = some r.length ∧
        Form.dict? (fun _ form => form.text?) room hashes = some r.hashes ∧
        customOf? room custom = some r.custom := by
  rw [decode]
  constructor
  · intro h
    split at h
    · next length hashes custom hfields =>
      split at h
      · next hlength hhashes =>
        split at h
        · next hcustom =>
          cases h
          exact ⟨length, hashes, custom, hfields, hlength, hhashes, hcustom⟩
        · cases h
      · cases h
    · cases h
  · rintro ⟨length, hashes, custom, hfields, hlength, hhashes, hcustom⟩
    rw [hfields]
    simp only [hlength, hhashes]
    split
    · next h =>
      rw [hcustom] at h
      cases h
      rfl
    · next h =>
      rw [hcustom] at h
      cases h

/-- The members of a record. -/
def members (r : TargetRecord) : List (String × Json) :=
  [("length", natural r.length), ("hashes", ofDict string r.hashes)]
    ++ r.custom.toList.map (("custom", ·))

/-- A record is written as the object of its members. -/
theorem json_eq_object (r : TargetRecord) : Wire.json r = object r.members := by
  obtain ⟨length, hashes, _ | custom, hsorted⟩ := r <;> rfl

/-- What holds of the length, the hashes and the custom metadata holds of all members. -/
theorem forall_mem_members {r : TargetRecord} {P : Json → Prop} :
    (∀ member ∈ r.members, P member.2) ↔
      P (natural r.length) ∧ P (ofDict string r.hashes) ∧ ∀ custom ∈ r.custom, P custom := by
  simp [members]

/-- No member stands twice. -/
theorem nodup_members (r : TargetRecord) : (r.members.map (·.1)).Nodup := by
  obtain ⟨length, hashes, _ | custom, hsorted⟩ := r <;> simp [members]

/-- The custom metadata is the member of this name, if there is one. -/
theorem lookup_custom_members (r : TargetRecord) : r.members.lookup "custom" = r.custom := by
  obtain ⟨length, hashes, _ | custom, hsorted⟩ := r <;> rfl

/-- The codec of a target record. -/
theorem codec : Codec (Wire.decode : Form.Decoder TargetRecord) Wire.json (·.custom.toList) where
  distinct r := by
    rw [json_eq_object]
    refine .object (nodup_members r) (forall_mem_members.2 ⟨.integer _, ?_, fun custom h => ?_⟩)
    · exact textCodec.dict.distinct r.hashes
    · exact distinct_of_isSorted custom (r.customSorted custom h)
  reals r := by
    have hhashes : (ofDict string r.hashes).firstReal? = none :=
      (textCodec.dict.reals r.hashes).2 (by simp)
    rw [json_eq_object, firstReal?_object_eq_none_iff,
      forall_mem_members (P := (·.firstReal? = none))]
    simp [Json.natural, hhashes]
  fits {room form r} h := by
    match room, h with
    | room + 1, h =>
      obtain ⟨length, hashes, custom, -, -, hhashes, hcustom⟩ := decode_eq_some_iff.1 h
      have hfits := fits_of_customOf? hcustom
      constructor
      · rw [json_eq_object, depth_object_le_iff]
        exact forall_mem_members.2 ⟨Nat.zero_le _, (textCodec.dict.fits hhashes).1,
          fun custom h => (hfits custom h).1⟩
      · exact fun hnull => (hfits null (Option.mem_toList.1 hnull)).2 rfl
  reads {room form r} hform hdepth hnull := by
    rw [json_eq_object] at hform hdepth
    obtain ⟨inner, rfl, hparts⟩ := exists_room hdepth
    obtain ⟨-, hhashesDepth, hcustomDepth⟩ :=
      forall_mem_members (P := (·.depth ≤ inner)) |>.1 hparts
    obtain ⟨found, hfields, hrels⟩ :=
      Form.exists_fields? ["length", "hashes", "custom"] hform (nodup_members r)
    obtain _ | ⟨hlength, _ | ⟨hhashes, _ | ⟨hcustom, _ | _⟩⟩⟩ := hrels
    obtain hlength | _ := hlength
    obtain hhashes | _ := hhashes
    rw [lookup_custom_members] at hcustom
    -- The metadata is sorted in the record, so it is read as it is kept.
    refine decode_eq_some_iff.2 ⟨_, _, _, hfields, Form.uint64?_of_denotes hlength,
      textCodec.dict.reads hhashes hhashesDepth (by simp), ?_⟩
    refine customOf?_of_rel hcustom r.customSorted fun custom h => ⟨hcustomDepth custom h, ?_⟩
    rintro rfl
    exact hnull (Option.mem_toList.2 h)

end TargetRecord

/-! ## Documents -/

/-- The custom metadata in a dictionary of target records. -/
def customsOf (targets : Dict String TargetRecord) : List Json :=
  targets.entries.flatMap (·.2.custom.toList)

/-- The codec of a dictionary of target records. -/
theorem targetsCodec : Codec targetsOf? (ofDict Wire.json) customsOf := TargetRecord.codec.dict

/-- The codec of the body of the parent document. -/
theorem ParentBody.codec : Codec (Wire.decode : Form.Decoder ParentBody) Wire.json
    (customsOf ·.targets) := by
  refine Codec.record (fun _ => rfl) (by decide) ?_ ?_ ?_ ?_
  · simp [commonMembers, Distinct.string, Distinct.integer, Json.natural, targetsCodec.distinct,
      DelegationTable.codec.distinct]
  · intro b
    rw [← targetsCodec.reals]
    simp [commonMembers, firstReal?, Json.natural, (DelegationTable.codec.reals _).2]
  -- What was decoded gives its depth and its customs back, part by part.
  · intro room fields b h
    split at h
    · obtain ⟨type, -, h⟩ := Option.bind_eq_some_iff.1 h
      obtain ⟨specVersion, -, h⟩ := Option.bind_eq_some_iff.1 h
      obtain ⟨version, -, h⟩ := Option.bind_eq_some_iff.1 h
      obtain ⟨expires, -, h⟩ := Option.bind_eq_some_iff.1 h
      obtain ⟨targets, hdict, h⟩ := Option.bind_eq_some_iff.1 h
      obtain ⟨delegations, htable, h⟩ := Option.bind_eq_some_iff.1 h
      cases h
      refine ⟨?_, (targetsCodec.fits hdict).2⟩
      simp [commonMembers, depth, Json.natural, (targetsCodec.fits hdict).1,
        (DelegationTable.codec.fits htable).1]
    · cases h
  -- There are six fields, each with a form that spells it and a bound on its depth.
  · rintro room fields b (_ | ⟨⟨htype, -⟩, _ | ⟨⟨hspecVersion, -⟩, _ | ⟨⟨hversion, -⟩,
      _ | ⟨⟨hexpires, -⟩, _ | ⟨⟨hdict, hdictDepth⟩, _ | ⟨⟨htable, htableDepth⟩, _ | _⟩⟩⟩⟩⟩⟩) hnull
    simp only [Form.text?_of_denotes htype, Form.text?_of_denotes hspecVersion,
      Form.uint64?_of_denotes hversion, Form.text?_of_denotes hexpires,
      targetsCodec.reads hdict hdictDepth hnull,
      DelegationTable.codec.reads htable htableDepth List.not_mem_nil]
    rfl

/-- The codec of the body of a bin document. -/
theorem BinBody.codec : Codec (Wire.decode : Form.Decoder BinBody) Wire.json
    (customsOf ·.targets) := by
  refine Codec.record (fun _ => rfl) (by decide) ?_ ?_ ?_ ?_
  · simp [commonMembers, Distinct.string, Distinct.integer, Json.natural, targetsCodec.distinct]
  · intro b
    rw [← targetsCodec.reals]
    simp [commonMembers, firstReal?, Json.natural]
  · intro room fields b h
    split at h
    · obtain ⟨type, -, h⟩ := Option.bind_eq_some_iff.1 h
      obtain ⟨specVersion, -, h⟩ := Option.bind_eq_some_iff.1 h
      obtain ⟨version, -, h⟩ := Option.bind_eq_some_iff.1 h
      obtain ⟨expires, -, h⟩ := Option.bind_eq_some_iff.1 h
      obtain ⟨targets, hdict, h⟩ := Option.bind_eq_some_iff.1 h
      cases h
      refine ⟨?_, (targetsCodec.fits hdict).2⟩
      simp [commonMembers, depth, Json.natural, (targetsCodec.fits hdict).1]
    · cases h
  · rintro room fields b (_ | ⟨⟨htype, -⟩, _ | ⟨⟨hspecVersion, -⟩, _ | ⟨⟨hversion, -⟩,
      _ | ⟨⟨hexpires, -⟩, _ | ⟨⟨hdict, hdictDepth⟩, _ | _⟩⟩⟩⟩⟩) hnull
    simp only [Form.text?_of_denotes htype, Form.text?_of_denotes hspecVersion,
      Form.uint64?_of_denotes hversion, Form.text?_of_denotes hexpires,
      targetsCodec.reads hdict hdictDepth hnull]
    rfl

/-- The codec of an envelope. -/
theorem Envelope.codec {β : Type} [Wire β] {customs : β → List Json}
    (h : Codec (Wire.decode : Form.Decoder β) Wire.json customs) :
    Codec (Wire.decode : Form.Decoder (Envelope β)) Wire.json fun e => customs e.signed := by
  have hsignatures := Signature.codec.list
  refine Codec.record (fun _ => rfl) (by decide) ?_ ?_ ?_ ?_
  · simp [h.distinct, hsignatures.distinct]
  · simp [h.reals, (hsignatures.reals _).2]
  · intro room fields e he
    split at he
    · obtain ⟨signed, hsigned, he⟩ := Option.bind_eq_some_iff.1 he
      obtain ⟨signatures, hlist, he⟩ := Option.bind_eq_some_iff.1 he
      cases he
      refine ⟨?_, (h.fits hsigned).2⟩
      simp [(h.fits hsigned).1, (hsignatures.fits hlist).1]
    · cases he
  · rintro room fields e (_ | ⟨⟨hsigned, hsignedDepth⟩, _ | ⟨⟨hlist, hlistDepth⟩, _ | _⟩⟩) hnull
    simp only [h.reads hsigned hsignedDepth hnull, hsignatures.reads hlist hlistDepth (by simp)]
    rfl

/-! ## Depth -/

/-- A public key is an object in an object. -/
theorem KeyRecord.depth_json_le (k : KeyRecord) : (Wire.json k).depth ≤ 2 :=
  depth_object_le_iff.2 (by simp [depth, membersDepth])

/-- A signature is one object. -/
theorem Signature.depth_json_le (s : Signature) : (Wire.json s).depth ≤ 1 :=
  depth_object_le_iff.2 (by simp [depth])

/-- A list of texts is one array. -/
theorem depth_strings_le (texts : List String) : (strings texts).depth ≤ 1 :=
  depth_array_le_iff.2 (by simp [depth])

/-- A role has lists of texts in it. -/
theorem RoleSpec.depth_json_le (r : RoleSpec) : (Wire.json r).depth ≤ 2 :=
  depth_object_le_iff.2 (by simp [depth_strings_le, depth, natural])

/-- A table has roles and keys, in a list and in a dictionary. -/
theorem DelegationTable.depth_json_le (t : DelegationTable) : (Wire.json t).depth ≤ 4 := by
  have hkeys : (ofDict Wire.json t.keys).depth ≤ 3 :=
    depth_object_le_iff.2 (List.forall_mem_map.2 fun entry _ => entry.2.depth_json_le)
  have hroles : (array (t.roles.map Wire.json)).depth ≤ 3 :=
    depth_array_le_iff.2 (List.forall_mem_map.2 fun role _ => role.depth_json_le)
  exact depth_object_le_iff.2 (by simp [hkeys, hroles])

/-- Signatures stand in an array. -/
theorem depth_signatures_le (signatures : List Signature) :
    (array (signatures.map Wire.json)).depth ≤ 2 :=
  depth_array_le_iff.2 (List.forall_mem_map.2 fun signature _ => signature.depth_json_le)

/-- A parent document without targets is not deep. -/
theorem ParentBody.depth_envelope_le {b : ParentBody} (h : b.targets = .empty)
    (signatures : List Signature) :
    (Wire.json (⟨b, signatures⟩ : Envelope ParentBody)).depth ≤ 6 := by
  have htargets : (ofDict Wire.json b.targets).depth ≤ 4 := by
    rw [h]
    exact depth_object_le_iff.2 (by simp [Dict.empty])
  have hbody : (Wire.json b).depth ≤ 5 :=
    depth_object_le_iff.2 (by
      simp [commonMembers, depth, natural, htargets, b.delegations.depth_json_le])
  have hsignatures := Nat.le_trans (depth_signatures_le signatures) (show 2 ≤ 5 by decide)
  exact depth_object_le_iff.2 (by simp [hbody, hsignatures])

/-- A record without custom metadata has nothing deeper than its hashes. -/
theorem TargetRecord.depth_json_le {r : TargetRecord} (h : r.custom = none) :
    (Wire.json r).depth ≤ 2 := by
  have hhashes : (ofDict string r.hashes).depth ≤ 1 :=
    depth_object_le_iff.2 (List.forall_mem_map.2 fun entry _ => Nat.zero_le _)
  rw [show Wire.json r = r.json from rfl, TargetRecord.json, h]
  exact depth_object_le_iff.2 (by simp [depth, natural, hhashes])

/-- A bin document is not deep if there is no custom metadata in it. -/
theorem BinBody.depth_envelope_le {b : BinBody}
    (h : ∀ target ∈ b.targets.entries, target.2.custom = none) (signatures : List Signature) :
    (Wire.json (⟨b, signatures⟩ : Envelope BinBody)).depth ≤ 5 := by
  have htargets : (ofDict Wire.json b.targets).depth ≤ 3 :=
    depth_object_le_iff.2 (List.forall_mem_map.2 fun target htarget =>
      TargetRecord.depth_json_le (h target htarget))
  have hbody : (Wire.json b).depth ≤ 4 :=
    depth_object_le_iff.2 (by simp [commonMembers, depth, natural, htargets])
  have hsignatures := Nat.le_trans (depth_signatures_le signatures) (show 2 ≤ 4 by decide)
  exact depth_object_le_iff.2 (by simp [hbody, hsignatures])

end BinDelegation
