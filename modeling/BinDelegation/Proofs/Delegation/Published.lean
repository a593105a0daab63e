import BinDelegation.Proofs.Delegation.Accounts

/-!
# What is published is what was signed

A signed document carries the answer to a call that was made for this very document. Its published
text, read as a JSON value, holds that answer and a body whose canonical bytes are those of the
call, though the text orders its members and escapes its strings in another way.

Which answer belongs to which document is a matter of history. `AnsweredFor` says of a message and a
signature that in some pass of a run the signer of a document was called for the document at a
position and answered so; `FaithfulFor` is the invariant that the signatures of every document are
such answers for its own position. Filing keeps it, because only unsigned documents change, and a
pass of signing adds the answers to the calls that are dealt to each document.

How a text is read is a matter of the writer and the reader. The value that is read has its members
in order, and canonical bytes do not depend on the order in which members stand, so the body that is
read has the bytes that were signed (`Document.readBytes?_published`). A reader goes to a fixed
depth; the parent never gets there.
-/

namespace BinDelegation

open Json

/-! ## Published documents as values -/

/-- The members of a signature stand in order already. -/
theorem Signature.sorted_json (s : Signature) : (Wire.json s).sorted = Wire.json s := by
  have hkeys : "keyid" < "sig" := by decide
  simp only [Wire.json, sorted, sortedMembers, insertEntry, if_pos hkeys]

section

variable {β : Type} [Wire β] {customs : β → List Json}

/-- The members of an envelope, in the order of a value that was read. -/
theorem Envelope.sorted_json (e : Envelope β) :
    (Wire.json e).sorted = object [("signatures", array (e.signatures.map Wire.json)),
      ("signed", (Wire.json e.signed).sorted)] := by
  have hkeys : ¬"signed" < "signatures" ∧ "signed" ≠ "signatures" := by decide
  have hsignatures : sortedItems (e.signatures.map Wire.json) = e.signatures.map Wire.json := by
    rw [sortedItems_eq_map, List.map_map]
    exact List.map_congr_left fun s _ => s.sorted_json
  show (object [("signed", Wire.json e.signed),
    ("signatures", array (e.signatures.map Wire.json))]).sorted = _
  simp only [sorted, sortedMembers, insertEntry, hsignatures, if_neg hkeys.1, if_neg hkeys.2]

/-- The text of a document says its signatures and a body with the canonical bytes of the
document's. -/
theorem Document.readBytes?_published {d : Document β} {message : ByteArray}
    (h : Codec (Wire.decode : Form.Decoder β) Wire.json customs)
    (hmessage : Wire.canonicalBytes d.body = .ok message)
    (hdepth : (Wire.json d.envelope).depth ≤ maxDepth) :
    ∃ signed, Json.readBytes? d.published.json = some (object
        [("signatures", array (d.signatures.map Wire.json)), ("signed", signed)]) ∧
      signed.canonicalBytes = .ok message := by
  have hreal := h.exists_canonicalBytes_iff.1 ⟨message, hmessage⟩
  refine ⟨(Wire.json d.body).sorted, ?_, ?_⟩
  · refine Eq.trans ?_ (congrArg some d.envelope.sorted_json)
    exact (Envelope.codec h).readBytes?_pretty_sorted hreal hdepth
  · rw [← hmessage, Wire.canonicalBytes, canonicalBytes, canonicalText, sorted_sorted]
    rfl

/-- The text that a document is published as says, to a reader that goes deep enough, the signature
that was given for the document and a body with the canonical bytes that it was given for, and no
more. -/
structure Document.PublishesSigned (given : ByteArray → Signature → Prop) (d : Document β)
    (doc : SignedDocument) : Prop where
  role : doc.role = d.role
  value : (Wire.json d.envelope).depth ≤ maxDepth →
    ∃ message signature signed, given message signature ∧
      Json.readBytes? doc.json
        = some (object [("signatures", array [Wire.json signature]), ("signed", signed)]) ∧
      signed.canonicalBytes = .ok message

/-- A signed document is published with the answer that was given for it. -/
theorem Document.Faithful.publishesSigned {given : ByteArray → Signature → Prop} {d : Document β}
    (h : d.Faithful given) (hcodec : Codec (Wire.decode : Form.Decoder β) Wire.json customs)
    (hstate : d.state = .signed) : d.PublishesSigned given d.published where
  role := rfl
  value hdepth := by
    obtain ⟨message, signature, hmessage, hsignatures, hgiven⟩ := h.signed hstate
    obtain ⟨signed, hread, hsigned⟩ := readBytes?_published hcodec hmessage hdepth
    rw [hsignatures] at hread
    exact ⟨message, signature, signed, hgiven, hread, hsigned⟩

end

namespace Graph

variable {σ : Type} {g g' : Graph}

/-! ## The calls behind signatures -/

/-- In some pass of signing, the signer of a document was called with a message for the document at
a position, and answered with a signature under its key. The parent has the position 0. -/
def AnsweredFor (signerOf : Signer σ → Signer σ → Signer σ) (events : List (Event σ))
    (position : Nat) (message : ByteArray) (signature : Signature) : Prop :=
  ∃ event ∈ events, ∃ parentSigner binSigner report own,
    event.operation = .sign parentSigner binSigner ∧ event.answer = .ok (.signed report) ∧
    (dealCalls report.outcomes event.calls)[position]? = some own ∧
    (signerOf parentSigner binSigner).Answered own message signature

variable {events : List (Event σ)} {event : Event σ}

/-- What was answered stays answered when the run goes on. -/
theorem AnsweredFor.append {signerOf : Signer σ → Signer σ → Signer σ} {position : Nat}
    {message : ByteArray} {signature : Signature}
    (h : AnsweredFor signerOf events position message signature) :
    AnsweredFor signerOf (events ++ [event]) position message signature := by
  obtain ⟨earlier, hearlier, hanswered⟩ := h
  exact ⟨earlier, List.mem_append_left _ hearlier, hanswered⟩

/-- Every document is faithful to the answers that were given for it. -/
structure FaithfulFor (events : List (Event σ)) (g : Graph) : Prop where
  parent : g.parent.Faithful (AnsweredFor (fun parentSigner _ => parentSigner) events 0)
  bins : ∀ (i : Nat) (d : Document BinBody), g.bins[i]? = some d →
    d.Faithful (AnsweredFor (fun _ binSigner => binSigner) events (i + 1))

/-- Documents stay faithful when the run goes on and leaves them alone. -/
theorem FaithfulFor.append (h : FaithfulFor events g) : FaithfulFor (events ++ [event]) g where
  parent := h.parent.mono fun _ _ hgiven => hgiven.append
  bins i d hd := (h.bins i d hd).mono fun _ _ hgiven => hgiven.append

/-- Filing changes the body of an unsigned document only. -/
theorem FaithfulFor.file {path bin : String} {record : TargetRecord} (h : FaithfulFor events g)
    (hfile : g.file path record = .ok (bin, g')) : FaithfulFor events g' := by
  obtain ⟨i, -, hstate, -, rfl⟩ := file_eq_ok.1 hfile
  refine ⟨h.parent, ?_⟩
  intro j d' hd'
  rw [getElem?_bins_insertAt] at hd'
  split at hd'
  · next hij =>
    subst hij
    obtain ⟨d, hd, rfl⟩ := Option.map_eq_some_iff.1 hd'
    exact (h.bins i d hd).of_unsigned (hstate d hd) (by simp [withTarget]) rfl
  · exact h.bins j d' hd'

/-- A pass of signing adds the answers that are given for the documents in it. -/
theorem FaithfulFor.signing {parentSigner binSigner : Signer σ} {calls : List Signer.Call}
    {report : SigningReport} (h : FaithfulFor events g)
    (hsigning : g.Signing parentSigner binSigner calls (.ok (report, g'))) :
    FaithfulFor (events ++ [⟨.sign parentSigner binSigner, .ok (.signed report), calls⟩]) g' := by
  have hlast {position : Nat} {own : List Signer.Call}
      (hown : (dealCalls report.outcomes calls)[position]? = some own)
      (signerOf : Signer σ → Signer σ → Signer σ) (message : ByteArray) (signature : Signature)
      (hanswered : (signerOf parentSigner binSigner).Answered own message signature) :
      AnsweredFor signerOf (events ++ [⟨.sign parentSigner binSigner, .ok (.signed report), calls⟩])
        position message signature :=
    ⟨_, List.mem_append_right _ List.mem_cons_self, parentSigner, binSigner, report, own, rfl, rfl,
      hown, hanswered⟩
  cases hsigning with
  | @passed own calls parent bins hkey howns hcalls =>
    rw [howns.dealCalls_cons] at hlast
    -- The parent takes the first of the calls that are dealt out, and each bin the one at its
    -- place.
    constructor
    · exact h.append.parent.signing howns (hlast rfl fun parentSigner _ => parentSigner)
    · intro i d' hd'
      rw [List.getElem?_map, Option.map_eq_some_iff] at hd'
      obtain ⟨result, hresult, rfl⟩ := hd'
      obtain ⟨d, each, hd, heach, hsigning⟩ := hcalls.exists_getElem? hresult
      exact (h.append.bins i d hd).signing hsigning (hlast heach fun _ binSigner => binSigner)

/-- A step keeps documents faithful. -/
theorem FaithfulFor.step (h : FaithfulFor events g) (hstep : g.Step event g') :
    FaithfulFor (events ++ [event]) g' := by
  cases hstep with
  | filed hfile => exact h.append.file hfile
  | filedAll hfile =>
    obtain ⟨-, heach⟩ := fileEach_of_fileAll hfile
    exact fileEach_induction (P := fun _ g' => FaithfulFor _ g') heach h.append
      fun _ _ _ _ _ _ hpast hfile => hpast.file hfile
  | signed hsigning => exact h.signing hsigning
  | refused => exact h.append

variable {settings : Settings} {key : KeyRecord} {g₀ : Graph} {operations : List (Operation σ)}
  {world : σ}

/-- After a run from a build, a signed document carries an answer that was given for it. -/
theorem faithfulFor_run (hbuild : build settings key = .ok g₀)
    (hrun : (g₀.run operations world).1 = (events, g)) : FaithfulFor events g := by
  refine run_induction (P := FaithfulFor) hrun ?_ fun _ _ _ _ hpast hstep => hpast.step hstep
  obtain ⟨keyId, parentExpires, binExpires, -, rfl⟩ := exists_fresh_of_build hbuild
  refine ⟨⟨fun _ => rfl, fun h => absurd h (by simp [fresh])⟩, ?_⟩
  intro i d hd
  rw [fresh, List.getElem?_map, Option.map_eq_some_iff] at hd
  obtain ⟨b, -, rfl⟩ := hd
  exact ⟨fun _ => rfl, fun h => absurd h (by simp)⟩

/-! ## Fully signed graphs -/

/-- In every fully signed graph that is reached from a build, every document is published with the
signature that a signer answered when it was called for this document, and with a body whose
canonical bytes are those of the call. -/
theorem published_of_run (hbuild : build settings key = .ok g₀)
    (hrun : (g₀.run operations world).1 = (events, g)) (hsigned : g.isFullySigned = true) :
    ∃ docs, g.signedDocuments = .ok docs ∧ docs.length = g.bins.length + 1 ∧
      (∀ doc, docs[0]? = some doc →
        g.parent.PublishesSigned (AnsweredFor (fun parentSigner _ => parentSigner) events 0) doc) ∧
      ∀ i doc, docs[i + 1]? = some doc → ∃ d, g.bins[i]? = some d ∧
        d.PublishesSigned (AnsweredFor (fun _ binSigner => binSigner) events (i + 1)) doc := by
  have hfaithful := faithfulFor_run hbuild hrun
  obtain ⟨hparent, hbins⟩ := isFullySigned_iff.1 hsigned
  refine ⟨_, signedDocuments_eq_ok.2 ⟨hsigned, rfl⟩, by simp, ?_, ?_⟩
  · intro doc hdoc
    cases hdoc
    exact hfaithful.parent.publishesSigned ParentBody.codec hparent
  · intro i doc hdoc
    rw [List.getElem?_cons_succ, List.getElem?_map, Option.map_eq_some_iff] at hdoc
    obtain ⟨d, hd, rfl⟩ := hdoc
    exact ⟨d, hd, (hfaithful.bins i d hd).publishesSigned BinBody.codec
      (hbins d (List.mem_of_getElem? hd))⟩

/-- The parent document of a reached graph holds no targets. -/
theorem targets_parent_of_run (hbuild : build settings key = .ok g₀)
    (hrun : (g₀.run operations world).1 = (events, g)) : g.parent.body.targets = .empty := by
  obtain ⟨keyId, parentExpires, binExpires, hg⟩ := exists_outline_eq_fresh hbuild hrun
  rw [parentBody_of_outline hg]
  rfl

/-- It is never too deep to be read. -/
theorem depth_parent_le (hbuild : build settings key = .ok g₀)
    (hrun : (g₀.run operations world).1 = (events, g)) :
    (Wire.json g.parent.envelope).depth ≤ maxDepth :=
  Nat.le_trans (ParentBody.depth_envelope_le (targets_parent_of_run hbuild hrun) _) (by decide)

/-- The parent of the small delegation is published with an answer that was given for it. -/
theorem published_of_sample : ∃ g₀ events g docs, build Sample.settings Sample.key = .ok g₀ ∧
    (g₀.run Sample.operations 0).1 = (events, g) ∧ g.isFullySigned = true ∧
    g.signedDocuments = .ok docs ∧ ∃ doc message signature signed, docs[0]? = some doc ∧
      AnsweredFor (fun parentSigner _ => parentSigner) events 0 message signature ∧
      Json.readBytes? doc.json
        = some (object [("signatures", array [Wire.json signature]), ("signed", signed)]) ∧
      signed.canonicalBytes = .ok message := by
  obtain ⟨g₀, events, g, hbuild, hrun, -, hsigned, -⟩ := Sample.exists_run
  obtain ⟨docs, hdocs, hlength, hparent, -⟩ := published_of_run hbuild hrun hsigned
  have hdoc : docs[0]? = some docs[0] := List.getElem?_eq_getElem (by omega)
  obtain ⟨message, signature, signed, hgiven, hread, hmessage⟩ :=
    (hparent _ hdoc).value (depth_parent_le hbuild hrun)
  exact ⟨g₀, events, g, docs, hbuild, hrun, hsigned, hdocs, _, message, signature, signed, hdoc,
    hgiven, hread, hmessage⟩

end Graph

end BinDelegation
