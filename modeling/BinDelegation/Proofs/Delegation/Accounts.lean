import BinDelegation.Proofs.Delegation.Signatures
import BinDelegation.Proofs.Document.Reload

/-!
# The account of a pass of signing

A pass of signing answers with one outcome for each document. The outcomes tell which calls were
made for which document, and how every document stands afterwards: `Document.Accounted` is the
account of one document, `Graph.Accounted` that of the pass.

A document takes at most one call, and its outcome tells whether it took it (`SignStatus.called`).
So the calls of a pass can be dealt out to the documents by the outcomes alone (`dealCalls`), and
what is dealt to a document are the calls that were made for it (`SigningEach.getElem?`).

The account of a document is read off its signing, one case for each way in which that may go: it
was signed already, its body cannot be encoded, the answer is refused, or it is accepted
(`Document.Signing.accounted`). That only a body with a double cannot be encoded comes from the
codec of the body. The numbers in a report are sums over the documents, by induction on the list.
-/

namespace BinDelegation

/-! ## Errors of a document -/

/-- A value without canonical bytes fails to be encoded. -/
theorem Json.exists_serialization_of_canonicalBytes {j : Json} {e : Error}
    (h : j.canonicalBytes = .error e) : ∃ reason, e = .serialization reason := by
  obtain ⟨x, -, rfl⟩ := canonicalBytes_eq_error.1 h
  exact ⟨_, rfl⟩

/-- An answer that is not accepted is a failure to sign the document. -/
theorem Document.exists_signing_of_acceptAnswer {β : Type} {d : Document β} {keyId : String}
    {answer : Except Error Signature} {e : Error} (h : d.acceptAnswer keyId answer = .error e) :
    ∃ reason, e = .signing d.role reason := by
  cases answer with
  | error given =>
    cases h
    cases given <;> exact ⟨_, rfl⟩
  | ok signature =>
    rw [acceptAnswer] at h
    split at h
    · cases h
    · cases h
      exact ⟨_, rfl⟩

/-! ## Calls by document -/

/-- Whether the signer was called for a document, going by what came of it. -/
def SignStatus.called : SignStatus → Bool
  | .signed => true
  | .alreadySigned => false
  | .failed (.serialization _) => false
  | .failed _ => true

/-- The calls of a pass, dealt out to the documents that they were made for. -/
def dealCalls : List SignOutcome → List Signer.Call → List (List Signer.Call)
  | [], _ => []
  | outcome :: rest, calls =>
    if outcome.status.called then calls.take 1 :: dealCalls rest (calls.drop 1)
    else [] :: dealCalls rest calls

namespace Document

variable {β σ : Type} [Wire β] {signer : Signer σ} {d : Document β}
  {docs : List (Document β)} {result : SignOutcome × Document β}
  {results : List (SignOutcome × Document β)} {own calls : List Signer.Call}
  {outcomes : List SignOutcome}

/-- The calls for the signature of a document are the ones that are dealt to it. -/
theorem Signing.dealCalls_cons (h : d.Signing signer own result) :
    dealCalls (result.1 :: outcomes) (own ++ calls) = own :: dealCalls outcomes calls := by
  cases h with
  | kept hstate => rfl
  | unwritable hstate hmessage =>
    obtain ⟨reason, rfl⟩ := Json.exists_serialization_of_canonicalBytes hmessage
    rfl
  | refused hstate hmessage hanswer =>
    obtain ⟨reason, rfl⟩ := exists_signing_of_acceptAnswer hanswer
    rfl
  | accepted hstate hmessage hanswer hkey => rfl

/-- All calls are dealt out. -/
theorem SigningEach.flatten_dealCalls (h : SigningEach signer docs calls results) :
    (dealCalls (results.map (·.1)) calls).flatten = calls := by
  induction h with
  | nil => rfl
  | cons head tail ih => rw [List.map_cons, head.dealCalls_cons, List.flatten_cons, ih]

/-- There is one result for each document. -/
theorem SigningEach.length_eq (h : SigningEach signer docs calls results) :
    results.length = docs.length := by
  induction h with
  | nil => rfl
  | cons head tail ih => rw [List.length_cons, List.length_cons, ih]

/-- Every document is signed with the calls that are dealt to it. -/
theorem SigningEach.getElem? (h : SigningEach signer docs calls results) {i : Nat}
    (hd : docs[i]? = some d) : ∃ result own, results[i]? = some result ∧
      (dealCalls (results.map (·.1)) calls)[i]? = some own ∧ d.Signing signer own result := by
  induction h generalizing i with
  | nil => cases hd
  | cons head tail ih =>
    rw [List.map_cons, head.dealCalls_cons]
    cases i with
    | zero =>
      cases hd
      exact ⟨_, _, rfl, rfl, head⟩
    | succ i => exact ih hd

/-- Every result is that of the document at its place. -/
theorem SigningEach.exists_getElem? (h : SigningEach signer docs calls results) {i : Nat}
    (hresult : results[i]? = some result) : ∃ d own, docs[i]? = some d ∧
      (dealCalls (results.map (·.1)) calls)[i]? = some own ∧ d.Signing signer own result := by
  have hlt : i < docs.length := by
    obtain ⟨hlt, -⟩ := List.getElem?_eq_some_iff.1 hresult
    rwa [h.length_eq] at hlt
  have hd := List.getElem?_eq_getElem hlt
  obtain ⟨result', own, hresult', hown, hsigning⟩ := h.getElem? hd
  cases hresult.symm.trans hresult'
  exact ⟨_, own, hd, hown, hsigning⟩

/-! ## Accounts of documents -/

/-- What an outcome says of a document before and after it, and of the calls made for it. -/
structure Accounted (signer : Signer σ) (customs : β → List Json) (before after : Document β)
    (outcome : SignOutcome) (calls : List Signer.Call) : Prop where
  role : outcome.role = before.role ∧ after.role = before.role
  body : after.body = before.body
  /-- A signed document is not touched, nor is its signer called for it. -/
  alreadySigned : outcome.status = .alreadySigned ↔ before.state = .signed
  untouched : before.state = .signed → after = before ∧ calls = []
  signed : outcome.status = .signed → after.state = .signed
  failed : ∀ e, outcome.status = .failed e → after.state = .populated ∧ after.signatures = []
  /-- A body with a double has no form to be signed. -/
  serialization : (∃ reason, outcome.status = .failed (.serialization reason)) ↔
    before.state ≠ .signed ∧ ∃ custom ∈ customs before.body, custom.firstReal? ≠ none
  uncalled : (∃ reason, outcome.status = .failed (.serialization reason)) → calls = []
  /-- Any other failure is one of this document's signature. -/
  refused : ∀ e, outcome.status = .failed e →
    (∀ custom ∈ customs before.body, custom.firstReal? = none) →
    ∃ reason, e = .signing before.role reason
  /-- Any other unsigned document costs one call, on its canonical bytes. It is signed if the answer
  is a signature under the key of the signer. -/
  called : before.state ≠ .signed → (∀ custom ∈ customs before.body, custom.firstReal? = none) →
    ∃ message asked, Wire.canonicalBytes before.body = .ok message ∧
      calls = [⟨signer.keyId, message, (signer.sign message asked).1⟩] ∧
      (outcome.status = .signed ↔ ∃ signature, (signer.sign message asked).1 = .ok signature ∧
        signature.keyId = signer.keyId ∧ after.signatures = [signature])

/-- Signing accounts for the document. -/
theorem Signing.accounted {customs : β → List Json}
    (hcodec : Codec (Wire.decode : Json.Form.Decoder β) Wire.json customs)
    (hunsigned : d.state ≠ .signed → d.signatures = []) (h : d.Signing signer own result) :
    d.Accounted signer customs result.2 result.1 own := by
  -- A message that could be encoded has no double in it.
  have hwritable {message : ByteArray} (hmessage : Wire.canonicalBytes d.body = .ok message) :
      ¬∃ custom ∈ customs d.body, custom.firstReal? ≠ none := by
    rintro ⟨custom, hcustom, hreal⟩
    exact hreal (hcodec.exists_canonicalBytes_iff.1 ⟨message, hmessage⟩ custom hcustom)
  -- One case for each way in which a document can come out of a pass.
  cases h with
  | kept hstate =>
    exact {
      role := ⟨rfl, rfl⟩
      body := rfl
      alreadySigned := iff_of_true rfl hstate
      untouched := fun _ => ⟨rfl, rfl⟩
      signed := fun h => by cases h
      failed := fun e h => by cases h
      serialization := iff_of_false (fun ⟨reason, h⟩ => by cases h) fun h => h.1 hstate
      uncalled := fun _ => rfl
      refused := fun e h => by cases h
      called := fun h => absurd hstate h }
  | unwritable hstate hmessage =>
    obtain ⟨reason, rfl⟩ := Json.exists_serialization_of_canonicalBytes hmessage
    have hreal : ¬∀ custom ∈ customs d.body, custom.firstReal? = none := by
      intro hreal
      obtain ⟨message, hmessage'⟩ := hcodec.exists_canonicalBytes_iff.2 hreal
      cases hmessage'.symm.trans hmessage
    exact {
      role := ⟨rfl, rfl⟩
      body := rfl
      alreadySigned := iff_of_false (by simp) hstate
      untouched := fun h => absurd h hstate
      signed := fun h => by cases h
      failed := fun e _ => ⟨rfl, hunsigned hstate⟩
      serialization := iff_of_true ⟨reason, rfl⟩ ⟨hstate, by simpa using hreal⟩
      uncalled := fun _ => rfl
      refused := fun e _ h => absurd h hreal
      called := fun _ h => absurd h hreal }
  | @refused message asked e hstate hmessage hanswer =>
    obtain ⟨reason, rfl⟩ := exists_signing_of_acceptAnswer hanswer
    exact {
      role := ⟨rfl, rfl⟩
      body := rfl
      alreadySigned := iff_of_false (by simp) hstate
      untouched := fun h => absurd h hstate
      signed := fun h => by cases h
      failed := fun e _ => ⟨rfl, hunsigned hstate⟩
      serialization :=
        iff_of_false (fun ⟨reason, h⟩ => by cases h) fun h => hwritable hmessage h.2
      uncalled := fun ⟨reason, h⟩ => by cases h
      refused := fun e h _ => by cases h; exact ⟨reason, rfl⟩
      called := by
        refine fun _ _ => ⟨message, asked, hmessage, rfl, iff_of_false (by simp) ?_⟩
        rintro ⟨signature, hsignature, hkey, -⟩
        rw [acceptAnswer_eq_ok.2 ⟨hsignature, hkey⟩] at hanswer
        cases hanswer }
  | @accepted message asked signature hstate hmessage hanswer hkey =>
    exact {
      role := ⟨rfl, rfl⟩
      body := rfl
      alreadySigned := iff_of_false (by simp) hstate
      untouched := fun h => absurd h hstate
      signed := fun _ => rfl
      failed := fun e h => by cases h
      serialization :=
        iff_of_false (fun ⟨reason, h⟩ => by cases h) fun h => hwritable hmessage h.2
      uncalled := fun ⟨reason, h⟩ => by cases h
      refused := fun e h => by cases h
      called := by
        refine fun _ _ => ⟨message, asked, hmessage, by rw [hanswer], iff_of_true rfl ?_⟩
        exact ⟨signature, hanswer, hkey, by rw [hunsigned hstate, List.nil_append]⟩ }

/-! ## What accounts add up to -/

/-- The outcome names the document. -/
theorem Signing.named (h : d.Signing signer own result) : result.1.role = d.role := by
  cases h <;> rfl

/-- A document counts as signed now if it was not signed before and is afterwards. -/
theorem Signing.signed_eq (h : d.Signing signer own result) :
    (result.1.status == .signed) = (d.state != .signed && result.2.state == .signed) := by
  rw [Bool.eq_iff_iff]
  cases h <;> simp_all

/-- A document ends up signed unless it failed. -/
theorem Signing.signed_iff (h : d.Signing signer own result) :
    (∀ e, result.1.status ≠ .failed e) ↔ result.2.state = .signed := by
  cases h <;> simp_all

/-- The outcomes name the documents, in their order. -/
theorem SigningEach.map_role (h : SigningEach signer docs calls results) :
    (results.map (·.1)).map (·.role) = docs.map (·.role) := by
  induction h with
  | nil => rfl
  | cons head tail ih => rw [List.map_cons, List.map_cons, List.map_cons, head.named, ih]

/-- As many documents count as signed now as were not signed before and are afterwards. -/
theorem SigningEach.countP_signed (h : SigningEach signer docs calls results) :
    (results.map (·.1)).countP (·.status == .signed)
      = ((docs.map (·.state)).zip ((results.map (·.2)).map (·.state))).countP
          fun (before, after) => before != .signed && after == .signed := by
  induction h with
  | nil => rfl
  | cons head tail ih =>
    simp only [List.map_cons, List.zip_cons_cons, List.countP_cons, ih, head.signed_eq]

/-- No document failed exactly if all end up signed. -/
theorem SigningEach.signed_iff (h : SigningEach signer docs calls results) :
    (∀ outcome ∈ results.map (·.1), ∀ e, outcome.status ≠ .failed e) ↔
      ∀ d ∈ results.map (·.2), d.state = .signed := by
  induction h with
  | nil => simp
  | cons head tail ih =>
    rw [List.map_cons, List.map_cons, List.forall_mem_cons, List.forall_mem_cons, ih,
      head.signed_iff]

/-! ## Publishing -/

/-- The body of a document with its signatures. -/
def envelope (d : Document β) : Envelope β := ⟨d.body, d.signatures⟩

/-- The document as it is published once it is signed. -/
def published (d : Document β) : SignedDocument := ⟨d.role, (Wire.pretty d.envelope).toUTF8⟩

/-- A document is published once it is signed. -/
theorem publish_eq_ok {doc : SignedDocument} :
    d.publish = .ok doc ↔ d.state = .signed ∧ d.published = doc := by
  rw [publish]
  split
  · next hstate => simp [hstate, published, envelope]
  · next hstate => simp [hstate]

end Document

/-- A report is complete if no outcome is a failure. -/
theorem SigningReport.isComplete_iff {report : SigningReport} :
    report.isComplete = true ↔ ∀ outcome ∈ report.outcomes, ∀ e, outcome.status ≠ .failed e := by
  rw [isComplete, failed, List.isEmpty_iff, List.filterMap_eq_nil_iff]
  refine forall₂_congr fun outcome _ => ?_
  cases outcome.status <;> simp

namespace Graph

variable {σ : Type} {g g' : Graph} {parentSigner binSigner : Signer σ}

/-- A graph is fully signed if its parent and all its bins are. -/
theorem isFullySigned_iff :
    g.isFullySigned = true ↔ g.parent.state = .signed ∧ ∀ d ∈ g.bins, d.state = .signed := by
  simp [isFullySigned]

/-- The documents of a graph are published once all of them are signed. -/
theorem signedDocuments_eq_ok {docs : List SignedDocument} :
    g.signedDocuments = .ok docs ↔
      g.isFullySigned = true ∧ docs = g.parent.published :: g.bins.map (·.published) := by
  rw [signedDocuments, bind_eq_ok, isFullySigned_iff]
  constructor
  · rintro ⟨parent, hparent, h⟩
    obtain ⟨bins, hbins, h⟩ := bind_eq_ok.1 h
    cases h
    obtain ⟨hstate, rfl⟩ := Document.publish_eq_ok.1 hparent
    simp only [mapM_eq_ok, Document.publish_eq_ok, List.forall₂_and_left] at hbins
    obtain ⟨hstates, hdocs⟩ := hbins
    have hdocs : g.bins.map (·.published) = bins := by
      rwa [← List.forall₂_eq_eq_eq, List.forall₂_map_left_iff]
    exact ⟨⟨hstate, hstates⟩, by rw [hdocs]⟩
  · rintro ⟨⟨hparent, hbins⟩, rfl⟩
    refine ⟨_, Document.publish_eq_ok.2 ⟨hparent, rfl⟩, bind_eq_ok.2 ⟨_, mapM_eq_ok.2 ?_, rfl⟩⟩
    rw [List.forall₂_map_right_iff, List.forall₂_same]
    exact fun d hd => Document.publish_eq_ok.2 ⟨hbins d hd, rfl⟩

/-! ## Accounts of passes -/

/-- How far the documents have come, the parent first. -/
def states (g : Graph) : List DocumentState := g.parent.state :: g.bins.map (·.state)

/-- What a report says of a graph before and after a pass of signing, and of its calls. -/
structure Accounted (parentSigner binSigner : Signer σ) (g g' : Graph) (report : SigningReport)
    (calls : List Signer.Call) : Prop where
  settings : g'.settings = g.settings
  /-- There is one outcome for each document, the parent's first and then those of the bins. -/
  roles : report.outcomes.map (·.role) = g.parent.role :: g.bins.map (·.role)
  length : g'.bins.length = g.bins.length
  /-- Every call was made for a document, in the order of the documents. -/
  dealt : (dealCalls report.outcomes calls).flatten = calls
  parent : ∃ outcome own, report.outcomes[0]? = some outcome ∧
    (dealCalls report.outcomes calls)[0]? = some own ∧
    g.parent.Accounted parentSigner (customsOf ·.targets) g'.parent outcome own
  bins : ∀ i d, g.bins[i]? = some d → ∃ d' outcome own, g'.bins[i]? = some d' ∧
    report.outcomes[i + 1]? = some outcome ∧
    (dealCalls report.outcomes calls)[i + 1]? = some own ∧
    d.Accounted binSigner (customsOf ·.targets) d' outcome own
  newlySigned : report.newlySigned = (g.states.zip g'.states).countP
    fun (before, after) => before != .signed && after == .signed
  complete : report.isComplete = true ↔ g'.isFullySigned = true
  published : (∃ docs, g'.signedDocuments = .ok docs) ↔ g'.isFullySigned = true

/-- A pass of signing accounts for every document. -/
theorem Signing.accounted {calls : List Signer.Call} {report : SigningReport}
    (hparent : g.parent.state ≠ .signed → g.parent.signatures = [])
    (hbins : ∀ d ∈ g.bins, d.state ≠ .signed → d.signatures = [])
    (h : g.Signing parentSigner binSigner calls (.ok (report, g'))) :
    g.Accounted parentSigner binSigner g' report calls := by
  cases h with
  | @passed own calls parent bins hkey howns hcalls =>
    have hown := howns.accounted ParentBody.codec hparent
    exact {
      settings := rfl
      roles := by rw [List.map_cons, howns.named, hcalls.map_role]
      length := by rw [List.length_map, hcalls.length_eq]
      dealt := by rw [howns.dealCalls_cons, List.flatten_cons, hcalls.flatten_dealCalls]
      parent := by
        rw [howns.dealCalls_cons]
        exact ⟨_, _, rfl, rfl, hown⟩
      bins := by
        intro i d hd
        obtain ⟨result, each, hresult, heach, hsigning⟩ := hcalls.getElem? hd
        rw [howns.dealCalls_cons]
        exact ⟨result.2, result.1, each, by rw [List.getElem?_map, hresult]; rfl,
          by rw [List.getElem?_cons_succ, List.getElem?_map, hresult]; rfl, heach,
          hsigning.accounted BinBody.codec (hbins d (List.mem_of_getElem? hd))⟩
      newlySigned := by
        simp only [SigningReport.newlySigned, states, List.countP_cons, List.zip_cons_cons,
          hcalls.countP_signed, howns.signed_eq]
      complete := by
        rw [SigningReport.isComplete_iff, isFullySigned_iff, List.forall_mem_cons,
          howns.signed_iff, hcalls.signed_iff]
      published := by simp only [signedDocuments_eq_ok, exists_and_left, exists_eq, and_true] }

/-- A bin signer under a foreign key is refused before anything is done. -/
theorem perform_sign_of_not_contains (parentSigner : Signer σ) (world : σ)
    (hkey : g.parent.body.delegations.keys.contains binSigner.keyId = false) :
    ∃ reason, g.perform (.sign parentSigner binSigner) world
      = ((⟨.sign parentSigner binSigner, .error (.invalidArgument reason), []⟩, g), world) := by
  -- The key is looked up before anything is asked for.
  obtain ⟨calls, hrecorded, hsigning⟩ := g.sign_recorded parentSigner binSigner world []
  have hsign : ∃ reason, g.sign parentSigner binSigner world
      = (.error (.invalidArgument reason), world) := by
    rw [sign_eq, requireDelegated_of_not_contains hkey]
    exact ⟨_, rfl⟩
  obtain ⟨reason, hsign⟩ := hsign
  rw [hsign] at hsigning
  cases hsigning
  exact ⟨_, by simp only [perform, Update.on_sign, hrecorded, hsign]; rfl⟩

/-- Under a key of the parent the documents are signed. -/
theorem perform_sign_of_contains (parentSigner : Signer σ) (world : σ)
    (hkey : g.parent.body.delegations.keys.contains binSigner.keyId = true) :
    ∃ report calls g' world', g.perform (.sign parentSigner binSigner) world
        = ((⟨.sign parentSigner binSigner, .ok (.signed report), calls⟩, g'), world') ∧
      g.Signing parentSigner binSigner calls (.ok (report, g')) := by
  obtain ⟨calls, hrecorded, hsigning⟩ := g.sign_recorded parentSigner binSigner world []
  obtain ⟨result, world', hsign⟩ : ∃ result world',
      g.sign parentSigner binSigner world = (result, world') := ⟨_, _, rfl⟩
  rw [hsign] at hsigning
  cases hsigning with
  | refused hforeign => rw [hkey] at hforeign; cases hforeign
  | passed hkey howns hcalls =>
    exact ⟨_, _, _, world', by simp only [perform, Update.on_sign, hrecorded, hsign]; rfl,
      .passed hkey howns hcalls⟩

variable {settings : Settings} {key : KeyRecord} {g₀ : Graph} {operations : List (Operation σ)}
  {events : List (Event σ)} {world : σ}

/-- In every graph that is reached from a build, a pass of signing is refused if the key of the bin
signer is not in the parent's table, without a call and with nothing changed. Any other pass answers
with a report that accounts for the parent and for the bins in ascending order. -/
theorem accounts_of_sign (hbuild : build settings key = .ok g₀)
    (hrun : (g₀.run operations world).1 = (events, g)) {event : Event σ} {before after : σ}
    (hpass : g.perform (.sign parentSigner binSigner) before = ((event, g'), after)) :
    ((∃ e, event.answer = .error e) ↔
      g.parent.body.delegations.keys.contains binSigner.keyId = false) ∧
    (g.parent.body.delegations.keys.contains binSigner.keyId = false →
      (∃ reason, event.answer = .error (.invalidArgument reason)) ∧ event.calls = [] ∧ g' = g ∧
        after = before) ∧
    (g.parent.body.delegations.keys.contains binSigner.keyId = true →
      ∃ report, event.answer = .ok (.signed report) ∧
        g.Accounted parentSigner binSigner g' report event.calls) ∧
    g.bins.map (·.role) = settings.partition.bins.map (·.name) ∧
    (settings.partition.bins.map (·.low)).Pairwise (· < ·) := by
  have hfaithful := faithfulIn_run hbuild hrun
  obtain ⟨keyId, parentExpires, binExpires, hg⟩ := exists_outline_eq_fresh hbuild hrun
  have hroles := roles_of_outline hg
  -- A foreign key is refused before any document is touched; with a known one nothing is refused.
  cases hkey : g.parent.body.delegations.keys.contains binSigner.keyId with
  | false =>
    obtain ⟨reason, hrefused⟩ := perform_sign_of_not_contains parentSigner before hkey
    rw [hrefused] at hpass
    cases hpass
    exact ⟨iff_of_true ⟨_, rfl⟩ rfl, fun _ => ⟨⟨reason, rfl⟩, rfl, rfl, rfl⟩,
      fun h => Bool.noConfusion h, hroles, settings.partition.ascending_lows⟩
  | true =>
    obtain ⟨report, calls, g'', world', hpassed, hsigning⟩ :=
      perform_sign_of_contains parentSigner before hkey
    rw [hpassed] at hpass
    cases hpass
    refine ⟨iff_of_false ?_ (by simp), fun h => Bool.noConfusion h, fun _ => ⟨report, rfl, ?_⟩,
      hroles, settings.partition.ascending_lows⟩
    · rintro ⟨e, h⟩
      cases h
    · exact hsigning.accounted hfaithful.parent.unsigned fun d hd => (hfaithful.bins d hd).unsigned

end Graph

/-! ## The first pass of the small delegation -/

/-- The report of a pass of signing. -/
def Event.report? {σ : Type} (event : Event σ) : Option SigningReport :=
  match event.answer with
  | .ok (.signed report) => some report
  | _ => none

/-- An event has a report if it is a pass of signing that was not refused. -/
theorem Event.report?_eq_some {σ : Type} {event : Event σ} {report : SigningReport} :
    event.report? = some report ↔ event.answer = .ok (.signed report) := by
  rw [report?]
  split
  · next given hanswer => rw [hanswer, Option.some.injEq, Except.ok.injEq, Answer.signed.injEq]
  · next hanswer => exact iff_of_false (by simp) (hanswer report)

/-- The first pass of the small delegation, after its first operation. -/
def Sample.firstPass (g₀ : Graph) : Event Nat :=
  ((g₀.run (operations.take 1) 0).1.2.perform (.sign signer signer) 0).1.1

namespace Graph

/-- In the first pass of the small delegation the signature of one bin is refused. -/
theorem accounts_of_sample : ∃ g₀ events g event g' after report,
    build Sample.settings Sample.key = .ok g₀ ∧
    (g₀.run (Sample.operations.take 1) 0).1 = (events, g) ∧
    g.perform (.sign Sample.signer Sample.signer) 0 = ((event, g'), after) ∧
    event.answer = .ok (.signed report) ∧ report.newlySigned = 2 ∧ report.isComplete = false ∧
    g.Accounted Sample.signer Sample.signer g' report event.calls := by
  -- The numbers of the report are found by running the small delegation.
  have hreport : (Graph.build Sample.settings Sample.key).toOption.bind
      (fun g₀ => (Sample.firstPass g₀).report?.map (fun r => (r.newlySigned, r.isComplete)))
        = some (2, false) := by decide +kernel
  obtain ⟨g₀, hbuild, hreport⟩ := Option.bind_eq_some_iff.1 hreport
  obtain ⟨report, hreport, hshape⟩ := Option.map_eq_some_iff.1 hreport
  obtain ⟨hnewly, hcomplete⟩ := Prod.mk.inj hshape
  have hbuild := toOption_eq_some.1 hbuild
  rcases hrun : (g₀.run (Sample.operations.take 1) 0).1 with ⟨events, g⟩
  rcases hpass : g.perform (.sign Sample.signer Sample.signer) 0 with ⟨⟨event, g'⟩, after⟩
  rw [Sample.firstPass, hrun, hpass] at hreport
  have hanswer : event.answer = .ok (.signed report) := Event.report?_eq_some.1 hreport
  obtain ⟨herror, -, haccounted, -⟩ := accounts_of_sign hbuild hrun hpass
  have hkey : g.parent.body.delegations.keys.contains Sample.signer.keyId = true := by
    refine Bool.eq_true_of_not_eq_false fun hkey => ?_
    obtain ⟨e, herror⟩ := herror.2 hkey
    cases hanswer.symm.trans herror
  obtain ⟨report', hanswer', haccounted⟩ := haccounted hkey
  cases hanswer.symm.trans hanswer'
  exact ⟨g₀, events, g, event, g', after, report, hbuild, hrun, hpass, hanswer, hnewly, hcomplete,
    haccounted⟩

end Graph

end BinDelegation
