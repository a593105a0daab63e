import BinDelegation.Proofs.Delegation.Accounts
import BinDelegation.Proofs.Delegation.Contents

/-!
# Runs that agree

What is published depends on what was filed and on nothing else that happened: not on the order of
the targets and their batches, nor on passes of signing that failed. It is assumed that signers,
whenever they answer, answer the same bytes with the same signature. Then two runs of a delegation
that hold the same targets and have every document signed end with the same graph (`eq_of_runs`).

Graphs are compared in two parts. Their outlines agree, because no operation changes an outline and
both runs start from one build. What an outline leaves out are the targets, the states and the
signatures: the targets of each bin agree because both graphs hold the same targets and a bin has
those of its own paths (`Holds.targets_eq`), all states are the same when all documents are signed,
and a signed document has the one signature that the function gives for its canonical bytes
(`Document.Faithful.eq_of_signed`).

Nothing is asked of the states of the signers in the two runs, which may even be of different types.
A signer may fail at any call.
-/

namespace BinDelegation

/-! ## Signers without memory -/

/-- The signer may fail at any call, but what it answers is a function of the message. -/
def Signer.Gives {σ : Type} (signer : Signer σ) (signatureOf : ByteArray → Signature) : Prop :=
  ∀ message world signature, (signer.sign message world).1 = .ok signature →
    signature = signatureOf message

/-- The signature is the one that a function gives for the message. -/
def GivenBy (signatureOf : ByteArray → Signature) (message : ByteArray) (signature : Signature) :
    Prop :=
  signature = signatureOf message

/-- Two signed documents of one role and body are equal if the same function gave the signatures. -/
theorem Document.Faithful.eq_of_signed {β : Type} [Wire β] {d d' : Document β}
    {signatureOf : ByteArray → Signature} (h : d.Faithful (GivenBy signatureOf))
    (h' : d'.Faithful (GivenBy signatureOf)) (hrole : d.role = d'.role) (hbody : d.body = d'.body)
    (hstate : d.state = .signed) (hstate' : d'.state = .signed) : d = d' := by
  obtain ⟨message, _, hmessage, hsignatures, rfl⟩ := h.signed hstate
  obtain ⟨message', _, hmessage', hsignatures', rfl⟩ := h'.signed hstate'
  have heq : message = message' := by
    rw [hbody, hmessage'] at hmessage
    exact (Except.ok.inj hmessage).symm
  have hsame : d.signatures = d'.signatures := by rw [hsignatures, hsignatures', heq]
  obtain ⟨role, body, state, signatures⟩ := d
  obtain ⟨role', body', state', signatures'⟩ := d'
  dsimp only at hrole hbody hstate hstate' hsame
  subst hrole hbody hstate hstate' hsame
  rfl

namespace Graph

variable {g g' : Graph}

/-! ## Equal graphs -/

/-- Graphs of one outline are equal if their documents are. -/
theorem eq_of_outline (houtline : g.outline = g'.outline) (hparent : g.parent = g'.parent)
    (hbins : g.bins = g'.bins) : g = g' := by
  obtain ⟨settings, parent, bins, index⟩ := g
  obtain ⟨settings', parent', bins', index'⟩ := g'
  have hsettings : settings = settings' := congrArg Graph.settings houtline
  have hindex : index = index' := congrArg Graph.index houtline
  subst hsettings hparent hbins hindex
  rfl

/-- A bin document has the same body as another one of the same outline if it has the same
targets. -/
theorem body_eq_of_outlineBin {d d' : Document BinBody} (houtline : outlineBin d = outlineBin d')
    (htargets : d.body.targets = d'.body.targets) : d.body = d'.body := by
  have hbody := congrArg Document.body houtline
  simp only [outlineBin, BinBody.mk.injEq] at hbody
  obtain ⟨htype, hversion, hnumber, hexpires, -⟩ := hbody
  cases hd : d.body
  cases hd' : d'.body
  simp_all

/-- Bins at the same place in graphs that hold the same targets have the same targets. -/
theorem Holds.targets_eq {contents : Dict String TargetRecord} (h : g.Holds contents)
    (h' : g'.Holds contents) (houtline : g.outline = g'.outline) {i : Nat} {d d' : Document BinBody}
    (hd : g.bins[i]? = some d) (hd' : g'.bins[i]? = some d') :
    d.body.targets = d'.body.targets := by
  refine Dict.ext_get? fun path => Option.ext fun record => ?_
  rw [h.targets i d hd, h'.targets i d' hd', locate_of_outline houtline]

/-- Two graphs of one outline that hold the same targets are equal if every document of them has a
signature that the same functions gave. -/
theorem Faithful.eq_of_signed {contents : Dict String TargetRecord}
    {parentSignatureOf binSignatureOf : ByteArray → Signature}
    (h : g.Faithful (GivenBy parentSignatureOf) (GivenBy binSignatureOf))
    (h' : g'.Faithful (GivenBy parentSignatureOf) (GivenBy binSignatureOf))
    (houtline : g.outline = g'.outline) (hholds : g.Holds contents) (hholds' : g'.Holds contents)
    (hsigned : g.isFullySigned = true) (hsigned' : g'.isFullySigned = true) : g = g' := by
  obtain ⟨hparent, hbins⟩ := isFullySigned_iff.1 hsigned
  obtain ⟨hparent', hbins'⟩ := isFullySigned_iff.1 hsigned'
  have houtlines : g.bins.map outlineBin = g'.bins.map outlineBin := congrArg Graph.bins houtline
  have hlength : g.bins.length = g'.bins.length := by
    simpa using congrArg List.length houtlines
  -- The parents have one body by the outline, the bins by the targets that they hold.
  refine eq_of_outline houtline ?_ (List.ext_getElem hlength fun i hi hi' => ?_)
  · exact h.parent.eq_of_signed h'.parent (congrArg (·.parent.role) houtline)
      (congrArg (·.parent.body) houtline) hparent hparent'
  · have hd := List.getElem?_eq_getElem hi
    have hd' := List.getElem?_eq_getElem hi'
    have hbin : outlineBin g.bins[i] = outlineBin g'.bins[i] := by
      have hat := congrArg (·[i]?) houtlines
      simpa [hd, hd'] using hat
    have hbody := body_eq_of_outlineBin hbin (hholds.targets_eq hholds' houtline hd hd')
    have hmem := List.getElem_mem hi
    have hmem' := List.getElem_mem hi'
    exact (h.bins _ hmem).eq_of_signed (h'.bins _ hmem') (congrArg (·.role) hbin) hbody
      (hbins _ hmem) (hbins' _ hmem')

/-! ## Runs -/

variable {σ τ : Type} {settings : Settings} {key : KeyRecord} {g₀ : Graph}
  {operations : List (Operation σ)} {events : List (Event σ)} {world : σ}
  {operations' : List (Operation τ)} {events' : List (Event τ)} {world' : τ}
  {parentSignatureOf binSignatureOf : ByteArray → Signature}

/-- The signers of all passes among some operations give signatures by two functions, one for the
parent and one for the bins. -/
def GiveBy (parentSignatureOf binSignatureOf : ByteArray → Signature)
    (operations : List (Operation σ)) : Prop :=
  ∀ parentSigner binSigner, .sign parentSigner binSigner ∈ operations →
    parentSigner.Gives parentSignatureOf ∧ binSigner.Gives binSignatureOf

/-- An answer in a run is what its signers give. -/
theorem AnsweredIn.givenBy {signerOf : Signer σ → Signer σ → Signer σ}
    {signatureOf : ByteArray → Signature} {message : ByteArray} {signature : Signature}
    (h : AnsweredIn signerOf events message signature)
    (hrun : (g₀.run operations world).1 = (events, g))
    (hgives : ∀ parentSigner binSigner, .sign parentSigner binSigner ∈ operations →
      (signerOf parentSigner binSigner).Gives signatureOf) :
    GivenBy signatureOf message signature := by
  obtain ⟨event, hevent, parentSigner, binSigner, hoperation, -, ⟨asked, hanswer⟩, -⟩ := h
  have hmem : .sign parentSigner binSigner ∈ operations := by
    rw [← operations_of_run hrun, ← hoperation]
    exact List.mem_map_of_mem hevent
  exact hgives parentSigner binSigner hmem message asked signature hanswer

/-- In a run the signatures of documents are what the signers give. -/
theorem faithful_givenBy_run (hbuild : build settings key = .ok g₀)
    (hrun : (g₀.run operations world).1 = (events, g))
    (hsigners : GiveBy parentSignatureOf binSignatureOf operations) :
    g.Faithful (GivenBy parentSignatureOf) (GivenBy binSignatureOf) := by
  have hfaithful := faithfulIn_run hbuild hrun
  constructor
  · refine hfaithful.parent.mono fun message signature hanswered => ?_
    exact hanswered.givenBy hrun fun p b hmem => (hsigners p b hmem).1
  · intro d hd
    refine (hfaithful.bins d hd).mono fun message signature hanswered => ?_
    exact hanswered.1.givenBy hrun fun p b hmem => (hsigners p b hmem).2

/-- Two runs of one delegation that hold the same targets and have every document signed end with
the same graph. -/
theorem eq_of_runs (hbuild : build settings key = .ok g₀)
    (hrun : (g₀.run operations world).1 = (events, g))
    (hrun' : (g₀.run operations' world').1 = (events', g'))
    (hsigners : GiveBy parentSignatureOf binSignatureOf operations)
    (hsigners' : GiveBy parentSignatureOf binSignatureOf operations')
    (hfiled : lastFiled events = lastFiled events')
    (hsigned : g.isFullySigned = true) (hsigned' : g'.isFullySigned = true) : g = g' := by
  have houtline : g.outline = g'.outline := (outline_run hrun).trans (outline_run hrun').symm
  have hholds' : g'.Holds (lastFiled events) := hfiled ▸ holds_run hbuild hrun'
  exact (faithful_givenBy_run hbuild hrun hsigners).eq_of_signed
    (faithful_givenBy_run hbuild hrun' hsigners') houtline (holds_run hbuild hrun) hholds'
    hsigned hsigned'

/-- Two runs of one delegation that hold the same targets and have every document signed publish the
same documents, in the same order and byte by byte, whatever the order of the work and whichever
calls of signers failed. -/
theorem signedDocuments_eq_of_runs (hbuild : build settings key = .ok g₀)
    (hrun : (g₀.run operations world).1 = (events, g))
    (hrun' : (g₀.run operations' world').1 = (events', g'))
    (hsigners : GiveBy parentSignatureOf binSignatureOf operations)
    (hsigners' : GiveBy parentSignatureOf binSignatureOf operations')
    (hfiled : lastFiled events = lastFiled events')
    (hsigned : g.isFullySigned = true) (hsigned' : g'.isFullySigned = true) :
    ∃ docs, g.signedDocuments = .ok docs ∧ g'.signedDocuments = .ok docs := by
  have heq := eq_of_runs hbuild hrun hrun' hsigners hsigners' hfiled hsigned hsigned'
  exact ⟨_, signedDocuments_eq_ok.2 ⟨hsigned, rfl⟩, heq ▸ signedDocuments_eq_ok.2 ⟨hsigned, rfl⟩⟩

end Graph

/-! ## A delegation signed at the first and at the second attempt -/

/-- The targets that the operation is to file. -/
def Operation.targets {σ : Type} : Operation σ → List (String × TargetRecord)
  | .file path record => [(path, record)]
  | .fileAll targets => targets
  | .sign _ _ => []

/-- A run in which nothing was refused filed all targets of its operations. -/
theorem Graph.flatMap_filed_of_run {σ : Type} {g g' : Graph} {operations : List (Operation σ)}
    {events : List (Event σ)} {world : σ} (hrun : (g.run operations world).1 = (events, g'))
    (hanswers : events.all (·.answer.isOk) = true) :
    events.flatMap (·.filed) = operations.flatMap (·.targets) := by
  rw [← operations_of_run hrun, List.flatMap_map]
  refine List.flatMap_congr fun event hevent => ?_
  have hok := List.all_eq_true.1 hanswers event hevent
  obtain ⟨operation, answer, calls⟩ := event
  cases answer with
  | error e => cases hok
  | ok answer => cases operation <;> rfl

namespace Sample

/-- Signs a message with its length. -/
def steadySignature (message : ByteArray) : Signature := ⟨keyId, toString message.size⟩

/-- Counts its calls, and fails at the second. -/
def steadySigner : Signer Nat where
  keyId := keyId
  sign message calls :=
    (if calls = 1 then .error (.signing "" "busy") else .ok (steadySignature message), calls + 1)

/-- The signer fails now and then, and gives one signature for each message. -/
theorem steadySigner_gives : steadySigner.Gives steadySignature := by
  intro message calls signature hanswer
  simp only [steadySigner] at hanswer
  split at hanswer
  · cases hanswer
  · exact (Except.ok.inj hanswer).symm

/-- A record of a path. -/
def first : TargetRecord := .ofSha256 1 "00"

/-- Another record of the same path. -/
def second : TargetRecord := .ofSha256 2 "00"

/-- Has the delegation signed twice, with another record for the path in between. -/
def twoPasses : List (Operation Nat) :=
  [.file "b" first, .sign steadySigner steadySigner, .file "b" second,
    .sign steadySigner steadySigner]

/-- Has the delegation signed once. -/
def onePass : List (Operation Nat) :=
  [.fileAll [("b", second)], .sign steadySigner steadySigner]

/-- Both passes have signers that give by this function. -/
theorem giveBy_twoPasses : Graph.GiveBy steadySignature steadySignature twoPasses := by
  intro parentSigner binSigner hmem
  simp only [twoPasses, List.mem_cons, reduceCtorEq, Operation.sign.injEq, List.not_mem_nil,
    or_false, false_or, or_self] at hmem
  obtain ⟨rfl, rfl⟩ := hmem
  exact ⟨steadySigner_gives, steadySigner_gives⟩

/-- The one pass has signers that give by this function. -/
theorem giveBy_onePass : Graph.GiveBy steadySignature steadySignature onePass := by
  intro parentSigner binSigner hmem
  simp only [onePass, List.mem_cons, reduceCtorEq, Operation.sign.injEq, List.not_mem_nil,
    or_false, false_or] at hmem
  obtain ⟨rfl, rfl⟩ := hmem
  exact ⟨steadySigner_gives, steadySigner_gives⟩

/-- Whether the run refuses nothing and ends with every document signed. -/
def signsAll (g₀ : Graph) (operations : List (Operation Nat)) (calls : Nat) : Bool :=
  (g₀.run operations calls).1.1.all (·.answer.isOk) && (g₀.run operations calls).1.2.isFullySigned

/-- Both runs refuse nothing and end with every document signed. -/
theorem exists_signsAll : ∃ g₀, Graph.build settings key = .ok g₀ ∧
    signsAll g₀ twoPasses 0 = true ∧ signsAll g₀ onePass 2 = true := by
  have hrun : (Graph.build settings key).toOption.any (fun g₀ =>
      signsAll g₀ twoPasses 0 && signsAll g₀ onePass 2) = true := by decide +kernel
  rw [Option.any_eq_true] at hrun
  obtain ⟨g₀, hbuild, hrun⟩ := hrun
  exact ⟨g₀, toOption_eq_some.1 hbuild, Bool.and_eq_true_iff.1 hrun⟩

end Sample

/-- The pass that failed and the record that was replaced leave nothing behind. -/
theorem Graph.signedDocuments_eq_of_sample : ∃ g₀ events g events' g' docs,
    build Sample.settings Sample.key = .ok g₀ ∧
    (g₀.run Sample.twoPasses 0).1 = (events, g) ∧ (g₀.run Sample.onePass 2).1 = (events', g') ∧
    g.signedDocuments = .ok docs ∧ g'.signedDocuments = .ok docs := by
  obtain ⟨g₀, hbuild, htwo, hone⟩ := Sample.exists_signsAll
  obtain ⟨⟨events, g⟩, hrun⟩ : ∃ result, (g₀.run Sample.twoPasses 0).1 = result := ⟨_, rfl⟩
  obtain ⟨⟨events', g'⟩, hrun'⟩ : ∃ result, (g₀.run Sample.onePass 2).1 = result := ⟨_, rfl⟩
  rw [Sample.signsAll, hrun, Bool.and_eq_true] at htwo
  rw [Sample.signsAll, hrun', Bool.and_eq_true] at hone
  have hfiled : lastFiled events = lastFiled events' := by
    rw [lastFiled, lastFiled, flatMap_filed_of_run hrun htwo.1, flatMap_filed_of_run hrun' hone.1]
    rfl
  obtain ⟨docs, hdocs, hdocs'⟩ := signedDocuments_eq_of_runs hbuild hrun hrun'
    Sample.giveBy_twoPasses Sample.giveBy_onePass hfiled htwo.2 hone.2
  exact ⟨g₀, events, g, events', g', docs, hbuild, hrun, hrun', hdocs, hdocs'⟩

end BinDelegation
