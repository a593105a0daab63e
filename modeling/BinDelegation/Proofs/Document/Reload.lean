import BinDelegation.Proofs.Document.Binding
import BinDelegation.Proofs.Document.WireTypes
import BinDelegation.Proofs.Json.Reading

/-!
# Reading what was published

A value is read from the text that it is published as, where it is not too deep, holds no doubles
and has no custom metadata that is `null`. A value that was read from some text, however that was
written, is of this kind but for the doubles; so it is read again from what it is published as.

The published text is the indented one. It has a form that spells the value
(`Codec.exists_formOf?_pretty`), and the codec of the value decodes any such form. What a decoder
gives fits the room that it had (`Codec.fits_of_readBytes?`), so nothing has to be asked of the text
from which a value came.

Two readers are in play: one that decodes a wire type and one that takes any JSON value
(`Json.readBytes?`). The second sees a published document as everybody else does, with its members
sorted.
-/

namespace BinDelegation

open Json

/-! ## Canonical bytes -/

section

variable {α : Type} [Wire α] {customs : α → List Json} {a : α}

/-- Only doubles in custom metadata keep a value from having canonical bytes. -/
theorem Codec.exists_canonicalBytes_iff
    (h : Codec (Wire.decode : Form.Decoder α) Wire.json customs) :
    (∃ message, Wire.canonicalBytes a = .ok message) ↔
      ∀ custom ∈ customs a, custom.firstReal? = none := by
  rw [← h.reals, ← firstReal?_sorted _ (h.distinct a)]
  constructor
  · rintro ⟨message, hmessage⟩
    exact (canonicalBytes_eq_ok.1 hmessage).1
  · exact fun hreal => ⟨_, canonicalBytes_eq_ok.2 ⟨hreal, rfl⟩⟩

/-! ## Published texts -/

/-- Reading the bytes of a text is reading the text. -/
theorem readBytes?_toUTF8 (s : String) : (Wire.readBytes? s.toUTF8 : Option α) = Wire.read? s := by
  rw [Wire.readBytes?, Wire.read?, charsOfBytes_toUTF8]

/-- The text of a value has a form that spells the value. -/
theorem Codec.exists_formOf?_pretty (h : Codec (Wire.decode : Form.Decoder α) Wire.json customs)
    (hreal : ∀ custom ∈ customs a, custom.firstReal? = none) :
    ∃ form, formOf? (charsOfBytes (Wire.pretty a).toUTF8) = some form ∧
      Denotes form (Wire.json a) := by
  rw [charsOfBytes_toUTF8]
  exact exists_formOf?_write ((h.reals a).2 hreal) fun c _ => readsBack_pretty c

/-- A published value is read from its text. -/
theorem Codec.readBytes?_pretty (h : Codec (Wire.decode : Form.Decoder α) Wire.json customs)
    (hreal : ∀ custom ∈ customs a, custom.firstReal? = none)
    (hdepth : (Wire.json a).depth ≤ maxDepth) (hnull : null ∉ customs a) :
    Wire.readBytes? (Wire.pretty a).toUTF8 = some a := by
  obtain ⟨form, hform, hdenotes⟩ := h.exists_formOf?_pretty hreal
  rw [Wire.readBytes?, Wire.ofChars?, hform]
  exact h.reads hdenotes hdepth hnull

/-- The value that the bytes of a text say, whatever it is of. -/
def Json.readBytes? (bytes : ByteArray) : Option Json :=
  (formOf? (charsOfBytes bytes)).bind (Form.value? maxDepth)

/-- Read as JSON, the text of a value says the value, with its members sorted. -/
theorem Codec.readBytes?_pretty_sorted
    (h : Codec (Wire.decode : Form.Decoder α) Wire.json customs)
    (hreal : ∀ custom ∈ customs a, custom.firstReal? = none)
    (hdepth : (Wire.json a).depth ≤ maxDepth) :
    Json.readBytes? (Wire.pretty a).toUTF8 = some (Wire.json a).sorted := by
  obtain ⟨form, hform, hdenotes⟩ := h.exists_formOf?_pretty hreal
  rw [Json.readBytes?, hform, Option.bind_some]
  exact value?_of_denotes _ hdenotes (h.distinct a) hdepth

/-- What is read is no deeper than a reader goes, and has no custom metadata that is `null`. -/
theorem Codec.fits_of_readBytes? (h : Codec (Wire.decode : Form.Decoder α) Wire.json customs)
    {bytes : ByteArray} (hread : Wire.readBytes? bytes = some a) :
    (Wire.json a).depth ≤ maxDepth ∧ null ∉ customs a := by
  rw [Wire.readBytes?, Wire.ofChars?] at hread
  split at hread
  · exact h.fits hread
  · cases hread

/-- The value that a text says is read again from the text that it is published as, and has the
same canonical bytes then. -/
structure Rereads (bytes : ByteArray) (a : α) : Prop where
  value : Wire.readBytes? (Wire.pretty a).toUTF8 = some a
  canonical : ∃ message,
    (Wire.readBytes? bytes : Option α).map Wire.canonicalBytes = some (.ok message) ∧
    (Wire.readBytes? (Wire.pretty a).toUTF8 : Option α).map Wire.canonicalBytes
      = some (.ok message)

/-- A value that was read is read again, if there is no double in it. -/
theorem Codec.rereads (h : Codec (Wire.decode : Form.Decoder α) Wire.json customs)
    {bytes : ByteArray} (hread : Wire.readBytes? bytes = some a)
    (hreal : ∀ custom ∈ customs a, custom.firstReal? = none) : Rereads bytes a := by
  obtain ⟨hdepth, hnull⟩ := h.fits_of_readBytes? hread
  have hagain := h.readBytes?_pretty hreal hdepth hnull
  obtain ⟨message, hmessage⟩ := h.exists_canonicalBytes_iff.2 hreal
  exact ⟨hagain, message, by rw [hread, Option.map_some, hmessage],
    by rw [hagain, Option.map_some, hmessage]⟩

end

section

variable {β : Type} [Wire β] {customs : β → List Json} {bytes : ByteArray} {e : Envelope β}

/-- An envelope is read again, with the same bytes under its signatures. -/
structure RereadsSigned (bytes : ByteArray) (e : Envelope β) : Prop extends Rereads bytes e where
  signedBytes : ∃ message,
    (Wire.readBytes? bytes : Option (Envelope β)).map Envelope.signedBytes = some (.ok message) ∧
    (Wire.readBytes? (Wire.pretty e).toUTF8 : Option (Envelope β)).map Envelope.signedBytes
      = some (.ok message)

/-- An envelope that was read is read again, with the bytes that its signatures are over. -/
theorem Codec.rereadsSigned (h : Codec (Wire.decode : Form.Decoder β) Wire.json customs)
    (hread : Wire.readBytes? bytes = some e)
    (hreal : ∀ custom ∈ customs e.signed, custom.firstReal? = none) : RereadsSigned bytes e := by
  have hrereads := (Envelope.codec h).rereads hread hreal
  obtain ⟨message, hmessage⟩ := h.exists_canonicalBytes_iff.2 hreal
  refine ⟨hrereads, message, ?_, ?_⟩
  · rw [hread, Option.map_some, Envelope.signedBytes, hmessage]
  · rw [hrereads.value, Option.map_some, Envelope.signedBytes, hmessage]

end

/-- Whatever text a value of a wire type was read from, the text that it is published as reads as
the same value, with the same canonical bytes, and for an envelope also with the same bytes under
its signatures. Custom metadata must be free of doubles for this. -/
theorem rereads_wire_types :
    (∀ bytes (r : TargetRecord), Wire.readBytes? bytes = some r →
      (∀ custom ∈ r.custom, custom.firstReal? = none) → Rereads bytes r) ∧
    (∀ bytes (k : KeyRecord), Wire.readBytes? bytes = some k → Rereads bytes k) ∧
    (∀ bytes (s : Signature), Wire.readBytes? bytes = some s → Rereads bytes s) ∧
    (∀ bytes (r : RoleSpec), Wire.readBytes? bytes = some r → Rereads bytes r) ∧
    (∀ bytes (t : DelegationTable), Wire.readBytes? bytes = some t → Rereads bytes t) ∧
    (∀ bytes (b : ParentBody), Wire.readBytes? bytes = some b →
      (∀ custom ∈ customsOf b.targets, custom.firstReal? = none) → Rereads bytes b) ∧
    (∀ bytes (b : BinBody), Wire.readBytes? bytes = some b →
      (∀ custom ∈ customsOf b.targets, custom.firstReal? = none) → Rereads bytes b) ∧
    (∀ bytes (e : Envelope ParentBody), Wire.readBytes? bytes = some e →
      (∀ custom ∈ customsOf e.signed.targets, custom.firstReal? = none) →
      RereadsSigned bytes e) ∧
    ∀ bytes (e : Envelope BinBody), Wire.readBytes? bytes = some e →
      (∀ custom ∈ customsOf e.signed.targets, custom.firstReal? = none) →
      RereadsSigned bytes e := by
  refine ⟨?_, ?_, ?_, ?_, ?_, ?_, ?_, ?_, ?_⟩
  · intro bytes r hread hreal
    exact TargetRecord.codec.rereads hread fun custom h => hreal custom (Option.mem_toList.1 h)
  -- The types without custom metadata have no doubles anywhere.
  · exact fun bytes k hread => KeyRecord.codec.rereads hread (by simp)
  · exact fun bytes s hread => Signature.codec.rereads hread (by simp)
  · exact fun bytes r hread => RoleSpec.codec.rereads hread (by simp)
  · exact fun bytes t hread => DelegationTable.codec.rereads hread (by simp)
  · exact fun bytes b hread hreal => ParentBody.codec.rereads hread hreal
  · exact fun bytes b hread hreal => BinBody.codec.rereads hread hreal
  · exact fun bytes e hread hreal => ParentBody.codec.rereadsSigned hread hreal
  · exact fun bytes e hread hreal => BinBody.codec.rereadsSigned hread hreal

/-- A record with a repeated key in its custom metadata, a signature with a member of no meaning and
an envelope that is written as nested arrays are such values. -/
theorem rereads_wire_types_sample :
    (∃ bytes, ∃ r : TargetRecord, Wire.readBytes? bytes = some r ∧
      (∀ custom ∈ r.custom, custom.firstReal? = none) ∧
      Wire.compact r = "\x7b\"length\":1,\"hashes\":\x7b\x7d,\"custom\":\x7b\"k\":null\x7d\x7d" ∧
      Rereads bytes r) ∧
    (∃ bytes, Wire.readBytes? bytes = some (⟨"a", "b"⟩ : Signature) ∧
      Rereads bytes (⟨"a", "b"⟩ : Signature)) ∧
    ∃ bytes, ∃ e : Envelope BinBody, Wire.readBytes? bytes = some e ∧
      (∀ custom ∈ customsOf e.signed.targets, custom.firstReal? = none) ∧
      e.signatures = [⟨"7a", "de"⟩] ∧ RereadsSigned bytes e := by
  obtain ⟨hrecord, -, hsignature, -, -, -, -, -, henvelope⟩ := rereads_wire_types
  refine ⟨?_, ?_, ?_⟩
  · have hread :
        (Wire.read? "[1, \x7b\x7d, \x7b\"k\": [true, -1], \"k\": null\x7d]" :
          Option TargetRecord).map (fun r => (r.custom.all (·.firstReal?.isNone), Wire.compact r))
        = some (true,
          "\x7b\"length\":1,\"hashes\":\x7b\x7d,\"custom\":\x7b\"k\":null\x7d\x7d") := by
      decide +kernel
    obtain ⟨r, hread, hr⟩ := Option.map_eq_some_iff.1 hread
    obtain ⟨hreal, htext⟩ := Prod.mk.inj hr
    have hreal : ∀ custom ∈ r.custom, custom.firstReal? = none := by
      simpa [Option.all_eq_true] using hreal
    rw [← readBytes?_toUTF8] at hread
    exact ⟨_, r, hread, hreal, htext, hrecord _ _ hread hreal⟩
  · have hread :
        (Wire.read? "\x7b\"sig\": \"\\u0062\", \"x\": [1.5], \"keyid\": \"a\"\x7d" :
          Option Signature) = some ⟨"a", "b"⟩ := by
      decide +kernel
    rw [← readBytes?_toUTF8] at hread
    exact ⟨_, hread, hsignature _ _ hread⟩
  · have hread : (Wire.read?
        "[[\"targets\", \"1\", 1, \"\", \x7b\"a\": [2, \x7b\x7d, null]\x7d], [[\"7a\", \"de\"]]]" :
          Option (Envelope BinBody)).map
        (fun e => ((customsOf e.signed.targets).all (·.firstReal?.isNone), e.signatures))
        = some (true, [⟨"7a", "de"⟩]) := by
      decide +kernel
    obtain ⟨e, hread, he⟩ := Option.map_eq_some_iff.1 hread
    obtain ⟨hreal, hsignatures⟩ := Prod.mk.inj he
    have hreal : ∀ custom ∈ customsOf e.signed.targets, custom.firstReal? = none := by
      simpa [List.all_eq_true] using hreal
    rw [← readBytes?_toUTF8] at hread
    exact ⟨_, e, hread, hreal, hsignatures, henvelope _ _ hread hreal⟩

end BinDelegation
