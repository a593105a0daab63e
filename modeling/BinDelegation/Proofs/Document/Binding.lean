import BinDelegation.Document.Body
import BinDelegation.Proofs.Json.Sorting
import BinDelegation.Proofs.Json.Unambiguous

/-!
# Canonical bytes bind their content

A signature or a key id covers canonical bytes. They determine the value that was encoded: for JSON
values up to the order of members, for keys and document bodies entirely, and a body of one kind
never has the bytes of a body of the other.

There are two steps from bytes back to a value. The first is about texts: the canonical text of a
value without doubles is unlike that of any other (`Json.eq_of_write_canonical`), and canonical
bytes are the text of the sorted value. The second is about values: the sorted value of a key, a
record or a body has each of its fields in a member of its own, so it is told from all others
(`sorted_json_injective`, one for each type).

A target record needs care. Its custom metadata may be missing, which is told by the member being
missing, and it is kept sorted in the record, so that nothing of it is lost in sorting. The two
kinds of bodies differ in a member that only the parent has.
-/

namespace BinDelegation

namespace Json

/-- The canonical text is written for the sorted value, and only if there is no double in it. -/
theorem canonicalBytes_eq_ok {j : Json} {bytes : ByteArray} :
    j.canonicalBytes = .ok bytes ↔
      j.sorted.firstReal? = none ∧ bytes = (write .canonical 0 "" j.sorted).toUTF8 := by
  rw [canonicalBytes, canonicalText]
  cases hreal : j.sorted.firstReal? with
  | some x => simp [Except.map]
  | none => simp [Except.map, eq_comm]

/-- Without canonical bytes there is a double, and the first in writing order is named. -/
theorem canonicalBytes_eq_error {j : Json} {e : Error} :
    j.canonicalBytes = .error e ↔ ∃ x, j.sorted.firstReal? = some x ∧ e = realRefused x := by
  rw [canonicalBytes, canonicalText]
  cases j.sorted.firstReal? with
  | some x => simp [Except.map, eq_comm]
  | none => simp [Except.map]

/-- Canonical writing tells every value without doubles from all others, also from those that have
their members in another order. -/
theorem eq_of_write_canonical {a b : Json} (ha : a.firstReal? = none) (hb : b.firstReal? = none)
    (h : write .canonical 0 "" a = write .canonical 0 "" b) : a = b := by
  have hchars := congrArg String.toList h
  rw [toList_write, toList_write, String.toList_empty, List.nil_append, List.nil_append] at hchars
  have hend : Ends [] := fun c hc => by simp at hc
  have hsame : written .canonical 0 a ++ [] = written .canonical 0 b ++ [] := by rw [hchars]
  exact (written_append_inj a ha hb hend hend hsame).1

/-- Values with the same canonical bytes have the same sorted form. -/
theorem sorted_eq_of_canonicalBytes {a b : Json} {bytes : ByteArray}
    (ha : a.canonicalBytes = .ok bytes) (hb : b.canonicalBytes = .ok bytes) :
    a.sorted = b.sorted := by
  obtain ⟨hreal, hbytes⟩ := canonicalBytes_eq_ok.1 ha
  obtain ⟨hreal', hbytes'⟩ := canonicalBytes_eq_ok.1 hb
  exact eq_of_write_canonical hreal hreal' (String.toByteArray_inj.1 (hbytes.symm.trans hbytes'))

end Json

open Json

/-! ## The parts of documents -/

/-- A public key is told from others by its value. -/
theorem KeyRecord.sorted_json_injective :
    Function.Injective fun k : KeyRecord => (Wire.json k).sorted := by
  intro a b h
  have hkeytype := sorted_string_injective (member_of_sorted_eq h "keytype" rfl rfl)
  have hscheme := sorted_string_injective (member_of_sorted_eq h "scheme" rfl rfl)
  have hkeyval := member_of_sorted_eq h "keyval" rfl rfl
  have hpublic := sorted_string_injective (member_of_sorted_eq hkeyval "public" rfl rfl)
  cases a
  cases b
  simp only [KeyRecord.mk.injEq]
  exact ⟨hkeytype, hscheme, hpublic⟩

/-- A target record has a custom member if it has custom metadata, were it `null`. -/
theorem TargetRecord.sorted_json_injective :
    Function.Injective fun r : TargetRecord => (Wire.json r).sorted := by
  intro a b h
  have hlength := natural_injective (member_of_sorted_eq h "length" rfl rfl)
  have hhashes :=
    sorted_ofDict_injective sorted_string_injective (member_of_sorted_eq h "hashes" rfl rfl)
  -- The member of the custom metadata may be missing, so it is looked up and not read.
  have hmembers (r : TargetRecord) :
      ∃ members, r.json = object members ∧ members.lookup "custom" = r.custom :=
    ⟨_, rfl, by cases r.custom <;> rfl⟩
  obtain ⟨members, hobject, hlookup⟩ := hmembers a
  obtain ⟨members', hobject', hlookup'⟩ := hmembers b
  have hcustom : (members.lookup "custom").map sorted = (members'.lookup "custom").map sorted := by
    refine lookup_of_sorted_eq ?_ "custom"
    rw [← hobject, ← hobject']
    exact h
  rw [hlookup, hlookup'] at hcustom
  -- A record keeps its metadata sorted, so nothing of it is lost.
  have hsorted (r : TargetRecord) : r.custom.map sorted = r.custom := by
    cases hr : r.custom with
    | none => rfl
    | some custom => rw [Option.map_some, sorted_of_isSorted custom (r.customSorted custom hr)]
  rw [hsorted, hsorted] at hcustom
  cases a
  cases b
  simp only [TargetRecord.mk.injEq]
  exact ⟨hlength, hhashes, hcustom⟩

/-- A list of texts is told from others by its value. -/
theorem sorted_strings_injective :
    Function.Injective fun texts : List String => (strings texts).sorted :=
  sorted_array_injective sorted_string_injective

/-- A role is told from others by its value. -/
theorem RoleSpec.sorted_json_injective :
    Function.Injective fun r : RoleSpec => (Wire.json r).sorted := by
  intro a b h
  have hname := sorted_string_injective (member_of_sorted_eq h "name" rfl rfl)
  have hkeyIds := sorted_strings_injective (member_of_sorted_eq h "keyids" rfl rfl)
  have hthreshold := natural_injective (member_of_sorted_eq h "threshold" rfl rfl)
  have hterminating := bool.inj (member_of_sorted_eq h "terminating" rfl rfl)
  have hprefixes := sorted_strings_injective (member_of_sorted_eq h "path_hash_prefixes" rfl rfl)
  cases a
  cases b
  simp only [RoleSpec.mk.injEq]
  exact ⟨hname, hkeyIds, UInt32.toUInt64_inj.1 hthreshold, hterminating, hprefixes⟩

/-- A delegation table is told from others by its value. -/
theorem DelegationTable.sorted_json_injective :
    Function.Injective fun t : DelegationTable => (Wire.json t).sorted := by
  intro a b h
  have hkeys := sorted_ofDict_injective KeyRecord.sorted_json_injective
    (member_of_sorted_eq h "keys" rfl rfl)
  have hroles := sorted_array_injective RoleSpec.sorted_json_injective
    (member_of_sorted_eq h "roles" rfl rfl)
  cases a
  cases b
  simp only [DelegationTable.mk.injEq]
  exact ⟨hkeys, hroles⟩

/-! ## Bodies -/

/-- The members that bodies of both kinds have are kept apart, whatever members follow them. -/
theorem common_of_sorted_eq {type type' specVersion specVersion' expires expires' : String}
    {version version' : UInt64} {targets targets' : Dict String TargetRecord}
    (rest rest' : List (String × Json))
    (h : (object (commonMembers type specVersion version expires targets ++ rest)).sorted
      = (object (commonMembers type' specVersion' version' expires' targets' ++ rest')).sorted) :
    type = type' ∧ specVersion = specVersion' ∧ version = version' ∧ expires = expires' ∧
      targets = targets' :=
  ⟨sorted_string_injective (member_of_sorted_eq h "_type" rfl rfl),
    sorted_string_injective (member_of_sorted_eq h "spec_version" rfl rfl),
    natural_injective (member_of_sorted_eq h "version" rfl rfl),
    sorted_string_injective (member_of_sorted_eq h "expires" rfl rfl),
    sorted_ofDict_injective TargetRecord.sorted_json_injective
      (member_of_sorted_eq h "targets" rfl rfl)⟩

/-- A parent body is told from others by its value. -/
theorem ParentBody.sorted_json_injective :
    Function.Injective fun b : ParentBody => (Wire.json b).sorted := by
  intro a b h
  have hcommon := common_of_sorted_eq [_] [_] h
  have hdelegations := DelegationTable.sorted_json_injective
    (member_of_sorted_eq h "delegations" rfl rfl)
  cases a
  cases b
  simp only [ParentBody.mk.injEq]
  obtain ⟨htype, hspecVersion, hversion, hexpires, htargets⟩ := hcommon
  exact ⟨htype, hspecVersion, hversion, hexpires, htargets, hdelegations⟩

/-- A bin body is told from others by its value. -/
theorem BinBody.sorted_json_injective :
    Function.Injective fun b : BinBody => (Wire.json b).sorted := by
  intro a b h
  have hcommon := common_of_sorted_eq [] [] h
  cases a
  cases b
  simp only [BinBody.mk.injEq]
  exact hcommon

/-- Only a parent has a table of delegations. -/
theorem sorted_parent_ne_bin (a : ParentBody) (b : BinBody) :
    (Wire.json a).sorted ≠ (Wire.json b).sorted := by
  intro h
  have hlookup := lookup_of_sorted_eq h "delegations"
  cases hlookup

/-! ## Bytes -/

/-- What sorting keeps apart, canonical bytes keep apart. -/
theorem eq_of_canonicalBytes {α : Type} [Wire α]
    (hjson : Function.Injective fun a : α => (Wire.json a).sorted) {a b : α} {bytes : ByteArray}
    (ha : Wire.canonicalBytes a = .ok bytes) (hb : Wire.canonicalBytes b = .ok bytes) : a = b :=
  hjson (sorted_eq_of_canonicalBytes ha hb)

/-- Canonical bytes bind what they were made from: a JSON value up to the order of its members, and
so itself if they are sorted; a key, a target record and a body entirely. A parent body and a bin
body never have the same bytes. -/
theorem canonicalBytes_bind :
    (∀ (a b : Json) bytes, a.canonicalBytes = .ok bytes → b.canonicalBytes = .ok bytes →
      a.sorted = b.sorted ∧ (a.isSorted = true → b.isSorted = true → a = b)) ∧
    (∀ (a b : KeyRecord) bytes, Wire.canonicalBytes a = .ok bytes →
      Wire.canonicalBytes b = .ok bytes → a = b) ∧
    (∀ (a b : TargetRecord) bytes, Wire.canonicalBytes a = .ok bytes →
      Wire.canonicalBytes b = .ok bytes → a = b) ∧
    (∀ (a b : ParentBody) bytes, Wire.canonicalBytes a = .ok bytes →
      Wire.canonicalBytes b = .ok bytes → a = b) ∧
    (∀ (a b : BinBody) bytes, Wire.canonicalBytes a = .ok bytes →
      Wire.canonicalBytes b = .ok bytes → a = b) ∧
    ∀ (a : ParentBody) (b : BinBody) bytes, Wire.canonicalBytes a = .ok bytes →
      Wire.canonicalBytes b ≠ .ok bytes := by
  refine ⟨?_, fun _ _ _ => eq_of_canonicalBytes KeyRecord.sorted_json_injective,
    fun _ _ _ => eq_of_canonicalBytes TargetRecord.sorted_json_injective,
    fun _ _ _ => eq_of_canonicalBytes ParentBody.sorted_json_injective,
    fun _ _ _ => eq_of_canonicalBytes BinBody.sorted_json_injective, ?_⟩
  · intro a b bytes ha hb
    have hsorted := sorted_eq_of_canonicalBytes ha hb
    refine ⟨hsorted, ?_⟩
    intro ha' hb'
    rwa [sorted_of_isSorted a ha', sorted_of_isSorted b hb'] at hsorted
  · intro a b bytes ha hb
    exact sorted_parent_ne_bin a b (sorted_eq_of_canonicalBytes ha hb)

/-- The order of members does not count, custom metadata that is `null` does, and so does the kind
of a body. -/
theorem canonicalBytes_bind_sample :
    (∃ bytes, (object [("b", null), ("a", string "\"\\\n")]).canonicalBytes = .ok bytes ∧
      (object [("a", string "\"\\\n"), ("b", null)]).canonicalBytes = .ok bytes ∧
      (object [("b", null), ("a", string "\"\\\n")]).sorted
        = (object [("a", string "\"\\\n"), ("b", null)]).sorted) ∧
    (∃ bytes, Wire.canonicalBytes (TargetRecord.ofSha256 1 "00") = .ok bytes ∧
      Wire.canonicalBytes ((TargetRecord.ofSha256 1 "00").withCustom null) ≠ .ok bytes) ∧
    ∃ bytes, Wire.canonicalBytes ({ specVersion := "1.0.0", expires := "" } : ParentBody)
        = .ok bytes ∧
      Wire.canonicalBytes ({ specVersion := "1.0.0", expires := "" } : BinBody) ≠ .ok bytes := by
  obtain ⟨hjson, -, hrecord, -, -, hkinds⟩ := canonicalBytes_bind
  refine ⟨⟨_, rfl, rfl, ?_⟩, ⟨_, rfl, fun h => ?_⟩,
    ⟨_, rfl, hkinds { specVersion := "1.0.0", expires := "" } _ _ rfl⟩⟩
  · exact (hjson _ _ _ rfl rfl).1
  · have heq := hrecord (TargetRecord.ofSha256 1 "00") _ _ rfl h
    cases congrArg TargetRecord.custom heq

end BinDelegation
