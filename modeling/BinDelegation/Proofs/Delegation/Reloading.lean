import BinDelegation.Proofs.Delegation.Published

/-!
# Loading what was published

A published document is loaded as it was, unless custom metadata in it is `null` or it is deeper
than a reader goes. A record whose custom metadata is `null` is written with it and read without
any, and then the signature does not cover what was read. The parent has no records, so it is always
loaded.

The codec of a body says when the body is read back from its value; `readBytes?_published_iff` adds
the envelope and the text. It is an equivalence, so it also tells which documents are not loaded as
they were: with `null` among the custom metadata, what is loaded in place of the body is another
body, and as different bodies have different canonical bytes, the signature does not cover it
(`Document.Reloads`).

The result on runs says this of every document of a fully signed graph. A run with one such record
shows that the case happens.
-/

namespace BinDelegation

open Json

namespace Document

variable {β : Type} [Wire β] {customs : β → List Json} {d : Document β}
  {given : ByteArray → Signature → Prop}

/-- A published document is loaded as it was exactly if it has no custom metadata that is `null` and
is not too deep. -/
theorem readBytes?_published_iff (h : Codec (Wire.decode : Form.Decoder β) Wire.json customs)
    (hreal : ∀ custom ∈ customs d.body, custom.firstReal? = none) :
    Wire.readBytes? d.published.json = some d.envelope ↔
      null ∉ customs d.body ∧ (Wire.json d.envelope).depth ≤ maxDepth := by
  constructor
  · intro hread
    obtain ⟨hdepth, hnull⟩ := (Envelope.codec h).fits_of_readBytes? hread
    exact ⟨hnull, hdepth⟩
  · rintro ⟨hnull, hdepth⟩
    exact (Envelope.codec h).readBytes?_pretty hreal hdepth hnull

/-- What loading the text of a signed document gives. -/
structure Reloads (customs : β → List Json) (given : ByteArray → Signature → Prop)
    (d : Document β) (doc : SignedDocument) : Prop where
  role : doc.role = d.role
  /-- The document is loaded as it was in these cases only. -/
  value : Wire.readBytes? doc.json = some d.envelope ↔
    null ∉ customs d.body ∧ (Wire.json d.envelope).depth ≤ maxDepth
  /-- Its signature covers the body as it was, but no body that is loaded in place of one with
  custom metadata that is `null`. -/
  signedBytes : ∃ message signature, given message signature ∧ d.signatures = [signature] ∧
    d.envelope.signedBytes = .ok message ∧
    (null ∈ customs d.body → ∀ loaded : Envelope β, Wire.readBytes? doc.json = some loaded →
      loaded.signedBytes ≠ .ok message)

/-- A signed document reloads as its codec says, and its one signature is over its own canonical
bytes. -/
theorem Faithful.reloads (h : d.Faithful given)
    (hcodec : Codec (Wire.decode : Form.Decoder β) Wire.json customs)
    (hjson : Function.Injective fun b : β => (Wire.json b).sorted) (hstate : d.state = .signed) :
    d.Reloads customs given d.published := by
  obtain ⟨message, signature, hmessage, hsignatures, hgiven⟩ := h.signed hstate
  refine ⟨rfl, ?_, message, signature, hgiven, hsignatures, hmessage, ?_⟩
  · exact readBytes?_published_iff hcodec (hcodec.exists_canonicalBytes_iff.1 ⟨message, hmessage⟩)
  · -- A body that was loaded has no such metadata, so it is another body with other bytes.
    intro hnull loaded hread hloaded
    have hbody : loaded.signed = d.body := eq_of_canonicalBytes hjson hloaded hmessage
    obtain ⟨-, hloadedNull⟩ := (Envelope.codec hcodec).fits_of_readBytes? hread
    rw [hbody] at hloadedNull
    exact hloadedNull hnull

end Document

namespace Graph

variable {σ : Type} {g g₀ : Graph} {events : List (Event σ)} {settings : Settings}
  {key : KeyRecord} {operations : List (Operation σ)} {world : σ}

/-- In every fully signed graph that is reached from a build, the parent document is loaded from its
published text as it was, and a bin document exactly if no custom metadata in it is `null` and it is
not deeper than a reader goes. The signatures then cover what was loaded. -/
theorem reloads_of_run (hbuild : build settings key = .ok g₀)
    (hrun : (g₀.run operations world).1 = (events, g)) (hsigned : g.isFullySigned = true) :
    ∃ docs, g.signedDocuments = .ok docs ∧ docs.length = g.bins.length + 1 ∧
      (∀ doc, docs[0]? = some doc → Wire.readBytes? doc.json = some g.parent.envelope ∧
        g.parent.Reloads (customsOf ·.targets)
          (AnsweredFor (fun parentSigner _ => parentSigner) events 0) doc) ∧
      ∀ i doc, docs[i + 1]? = some doc → ∃ d, g.bins[i]? = some d ∧
        d.Reloads (customsOf ·.targets)
          (AnsweredFor (fun _ binSigner => binSigner) events (i + 1)) doc := by
  have hfaithful := faithfulFor_run hbuild hrun
  obtain ⟨hparent, hbins⟩ := isFullySigned_iff.1 hsigned
  refine ⟨_, signedDocuments_eq_ok.2 ⟨hsigned, rfl⟩, by simp, ?_, ?_⟩
  · intro doc hdoc
    cases hdoc
    have hreloads := hfaithful.parent.reloads ParentBody.codec ParentBody.sorted_json_injective
      hparent
    -- The parent has no targets, and so no custom metadata.
    have hnull : null ∉ customsOf g.parent.body.targets := by
      rw [targets_parent_of_run hbuild hrun]
      simp [customsOf, Dict.empty]
    exact ⟨hreloads.value.2 ⟨hnull, depth_parent_le hbuild hrun⟩, hreloads⟩
  · intro i doc hdoc
    rw [List.getElem?_cons_succ, List.getElem?_map, Option.map_eq_some_iff] at hdoc
    obtain ⟨d, hd, rfl⟩ := hdoc
    exact ⟨d, hd, (hfaithful.bins i d hd).reloads BinBody.codec BinBody.sorted_json_injective
      (hbins d (List.mem_of_getElem? hd))⟩

end Graph

/-! ## A record that is not loaded as it was -/

namespace Sample

/-- Files a record whose custom metadata is `null`, and signs. -/
def nullOperations : List (Operation Nat) :=
  [.file "b" ((TargetRecord.ofSha256 1 "00").withCustom null), .sign signer signer]

/-- Whether there is custom metadata that is `null` in a document. -/
def hasNull (d : Document BinBody) : Bool :=
  (customsOf d.body.targets).any fun custom => custom matches .null

/-- The delegation is built, and signed with the record in it. -/
theorem exists_null_run : ∃ g₀ events g, Graph.build settings key = .ok g₀ ∧
    (g₀.run nullOperations 2).1 = (events, g) ∧ g.isFullySigned = true ∧
    ∃ d ∈ g.bins, null ∈ customsOf d.body.targets := by
  have hrun : (Graph.build settings key).toOption.any (fun g₀ =>
      let g := (g₀.run nullOperations 2).1.2
      g.isFullySigned && g.bins.any hasNull) = true := by decide +kernel
  rw [Option.any_eq_true] at hrun
  obtain ⟨g₀, hbuild, hrun⟩ := hrun
  rw [Bool.and_eq_true, List.any_eq_true] at hrun
  obtain ⟨hsigned, d, hd, hnull⟩ := hrun
  refine ⟨g₀, _, _, toOption_eq_some.1 hbuild, rfl, hsigned, d, hd, ?_⟩
  obtain ⟨custom, hcustom, hnull⟩ := List.any_eq_true.1 hnull
  cases custom with
  | null => exact hcustom
  | _ => cases hnull

end Sample

namespace Graph

/-- A delegation with a record of this kind is published, and its parent is loaded as it was. -/
theorem reloads_of_sample : ∃ g₀ events g docs, build Sample.settings Sample.key = .ok g₀ ∧
    (g₀.run Sample.nullOperations 2).1 = (events, g) ∧ g.isFullySigned = true ∧
    g.signedDocuments = .ok docs ∧ (∃ doc, docs[0]? = some doc ∧
      Wire.readBytes? doc.json = some g.parent.envelope) ∧
    ∀ i doc, docs[i + 1]? = some doc → ∃ d, g.bins[i]? = some d ∧
      d.Reloads (customsOf ·.targets)
        (AnsweredFor (fun _ binSigner => binSigner) events (i + 1)) doc := by
  obtain ⟨g₀, events, g, hbuild, hrun, hsigned, -⟩ := Sample.exists_null_run
  obtain ⟨docs, hdocs, hlength, hparent, hbins⟩ := reloads_of_run hbuild hrun hsigned
  have hdoc : docs[0]? = some docs[0] := List.getElem?_eq_getElem (by omega)
  exact ⟨g₀, events, g, docs, hbuild, hrun, hsigned, hdocs, ⟨_, hdoc, (hparent _ hdoc).1⟩, hbins⟩

/-- Some document of a fully signed graph is not loaded as it was, and what is loaded in its place
has other bytes than those that were signed. -/
theorem exists_not_reloaded : ∃ g₀ events g docs, build Sample.settings Sample.key = .ok g₀ ∧
    (g₀.run Sample.nullOperations 2).1 = (events, g) ∧ g.isFullySigned = true ∧
    g.signedDocuments = .ok docs ∧ ∃ doc ∈ docs, ∃ d ∈ g.bins, doc = d.published ∧
      Wire.readBytes? doc.json ≠ some d.envelope ∧
      ∀ loaded : Envelope BinBody, Wire.readBytes? doc.json = some loaded →
        loaded.signedBytes ≠ d.envelope.signedBytes := by
  obtain ⟨g₀, events, g, hbuild, hrun, hsigned, d, hd, hnull⟩ := Sample.exists_null_run
  have hdocs := signedDocuments_eq_ok.2 ⟨hsigned, rfl⟩
  refine ⟨g₀, events, g, _, hbuild, hrun, hsigned, hdocs, d.published,
    List.mem_cons_of_mem _ (List.mem_map_of_mem hd), d, hd, rfl, ?_⟩
  obtain ⟨i, hi⟩ := List.mem_iff_getElem?.1 hd
  have hreloads := ((faithfulFor_run hbuild hrun).bins i d hi).reloads BinBody.codec
    BinBody.sorted_json_injective ((isFullySigned_iff.1 hsigned).2 d hd)
  obtain ⟨message, -, -, -, hmessage, hloaded⟩ := hreloads.signedBytes
  refine ⟨fun hread => (hreloads.value.1 hread).1 hnull, fun loaded hread => ?_⟩
  rw [hmessage]
  exact hloaded hnull loaded hread

end Graph

end BinDelegation
