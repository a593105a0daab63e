import BinDelegation.Proofs.Delegation.Outline

/-!
# The signatures that documents carry

A document is faithful if it carries no signature until it is signed, and then exactly the one that
was given for the canonical form of the body that it has now. Filing and signing keep documents
faithful, so a run never leaves a signature of an older body behind, nor one under a foreign key.

What counts as given is a parameter. For one pass it is what the signer answers in the calls of the
pass (`Signer.Answered`), for a run what some signer has answered in one of its events
(`AnsweredIn`), and for bins a key of the parent's table is asked for besides. A document stays
faithful when more counts as given (`Faithful.mono`), so along a run the past only grows.

`Faithful.file` holds because the bin of a target is not signed, which filing checks first;
`Faithful.signing` holds because a signature is added where there was none. The parent has one key
and every role lists it, so a signed bin has as many signatures under keys of its role as the
threshold asks for.
-/

namespace BinDelegation

namespace Signer

variable {σ : Type} {signer : Signer σ} {calls calls' : List Call} {message : ByteArray}
  {signature : Signature}

/-- In one of the calls, a signer that was asked for a message answered with a signature under its
own key. -/
def Answered (signer : Signer σ) (calls : List Call) (message : ByteArray)
    (signature : Signature) : Prop :=
  ⟨signer.keyId, message, .ok signature⟩ ∈ calls ∧
    (∃ asked, (signer.sign message asked).1 = .ok signature) ∧ signature.keyId = signer.keyId

/-- An answer in some calls is an answer in more calls. -/
theorem Answered.mono (h : signer.Answered calls message signature) (hcalls : calls ⊆ calls') :
    signer.Answered calls' message signature :=
  ⟨hcalls h.1, h.2⟩

end Signer

namespace Document

variable {β : Type} [Wire β] {d : Document β}

/-- A document has no signature, or is signed and has the one that was given for its body. -/
structure Faithful (given : ByteArray → Signature → Prop) (d : Document β) : Prop where
  unsigned : d.state ≠ .signed → d.signatures = []
  signed : d.state = .signed → ∃ message signature, Wire.canonicalBytes d.body = .ok message ∧
    d.signatures = [signature] ∧ given message signature

variable {given given' : ByteArray → Signature → Prop}

/-- A document stays faithful if more counts as given. -/
theorem Faithful.mono (h : d.Faithful given)
    (hgiven : ∀ message signature, given message signature → given' message signature) :
    d.Faithful given' where
  unsigned := h.unsigned
  signed hstate := by
    obtain ⟨message, signature, hmessage, hsignatures, hsignature⟩ := h.signed hstate
    exact ⟨message, signature, hmessage, hsignatures, hgiven message signature hsignature⟩

/-- A document that is not signed may get another body. -/
theorem Faithful.of_unsigned {d' : Document β} (h : d.Faithful given) (hstate : d.state ≠ .signed)
    (hstate' : d'.state ≠ .signed) (hsignatures : d'.signatures = d.signatures) :
    d'.Faithful given where
  unsigned _ := by rw [hsignatures, h.unsigned hstate]
  signed h' := absurd h' hstate'

variable {σ : Type} {signer : Signer σ} {calls : List Signer.Call}

/-- Signing adds a signature only where there is none, and only one for the body. -/
theorem Faithful.signing {result : SignOutcome × Document β} (h : d.Faithful given)
    (hsigning : d.Signing signer calls result)
    (hcalls : ∀ message signature, signer.Answered calls message signature →
      given message signature) : result.2.Faithful given := by
  cases hsigning with
  | kept hstate => exact h
  | unwritable hstate hmessage => exact h.of_unsigned hstate (by simp) rfl
  | refused hstate hmessage hanswer => exact h.of_unsigned hstate (by simp) rfl
  | @accepted message asked signature hstate hmessage hanswer hkey =>
    refine ⟨fun hunsigned => absurd rfl hunsigned, fun _ => ⟨message, signature, hmessage, ?_, ?_⟩⟩
    · show d.signatures ++ [signature] = [signature]
      rw [h.unsigned hstate, List.nil_append]
    · exact hcalls message signature ⟨List.mem_cons_self, ⟨asked, hanswer⟩, hkey⟩

/-- Signing documents one by one keeps all of them faithful. -/
theorem Faithful.signingEach {docs : List (Document β)} {results : List (SignOutcome × Document β)}
    (hsigning : SigningEach signer docs calls results) (h : ∀ d ∈ docs, d.Faithful given)
    (hcalls : ∀ message signature, signer.Answered calls message signature →
      given message signature) : ∀ d ∈ results.map (·.2), d.Faithful given := by
  induction hsigning with
  | nil => exact fun _ hd => absurd hd List.not_mem_nil
  | @cons d result docs results calls later head tail ih =>
    obtain ⟨hhead, htail⟩ := List.forall_mem_cons.1 h
    refine List.forall_mem_cons.2 ⟨hhead.signing head ?_, ih htail ?_⟩
    · intro message signature hanswered
      exact hcalls message signature (hanswered.mono (List.subset_append_left _ _))
    · intro message signature hanswered
      exact hcalls message signature (hanswered.mono (List.subset_append_right _ _))

end Document

/-- The keys of a role that a table holds and that some of the signatures are under. -/
def RoleSpec.signedKeys (role : RoleSpec) (keys : Dict String KeyRecord)
    (signatures : List Signature) : List String :=
  role.keyIds.filter fun keyId => keys.contains keyId && signatures.any (·.keyId == keyId)

namespace Graph

variable {σ : Type} {g g' : Graph} {givenParent givenBin : ByteArray → Signature → Prop}

/-- Every document is faithful, the parent to one way of giving signatures, the bins to another. -/
structure Faithful (givenParent givenBin : ByteArray → Signature → Prop) (g : Graph) : Prop where
  parent : g.parent.Faithful givenParent
  bins : ∀ d ∈ g.bins, d.Faithful givenBin

/-- Filing changes the body of an unsigned document only. -/
theorem Faithful.file {path bin : String} {record : TargetRecord}
    (h : g.Faithful givenParent givenBin) (hfile : g.file path record = .ok (bin, g')) :
    g'.Faithful givenParent givenBin := by
  obtain ⟨i, -, hstate, -, rfl⟩ := file_eq_ok.1 hfile
  refine ⟨h.parent, ?_⟩
  intro d' hd'
  obtain ⟨j, hj⟩ := List.mem_iff_getElem?.1 hd'
  rw [getElem?_bins_insertAt] at hj
  split at hj
  · next hij =>
    subst hij
    obtain ⟨d, hd, rfl⟩ := Option.map_eq_some_iff.1 hj
    exact (h.bins d (List.mem_of_getElem? hd)).of_unsigned (hstate d hd) (by simp [withTarget]) rfl
  · exact h.bins d' (List.mem_of_getElem? hj)

/-- A pass of signing keeps documents faithful to what the signers answer in it. Bins are signed
only under a key of the parent. -/
theorem Faithful.signing {parentSigner binSigner : Signer σ} {calls : List Signer.Call}
    {report : SigningReport} (h : g.Faithful givenParent givenBin)
    (hsigning : g.Signing parentSigner binSigner calls (.ok (report, g')))
    (hparent : ∀ message signature, parentSigner.Answered calls message signature →
      givenParent message signature)
    (hbin : ∀ message signature, binSigner.Answered calls message signature →
      g.parent.body.delegations.keys.contains signature.keyId = true →
      givenBin message signature) : g'.Faithful givenParent givenBin := by
  cases hsigning with
  | @passed own calls parent bins hkey howns hbins =>
    constructor
    · refine h.parent.signing howns ?_
      intro message signature hanswered
      exact hparent message signature (hanswered.mono (List.subset_append_left _ _))
    · refine Document.Faithful.signingEach hbins h.bins ?_
      intro message signature hanswered
      have hkeyId : signature.keyId = binSigner.keyId := hanswered.2.2
      exact hbin message signature (hanswered.mono (List.subset_append_right _ _))
        (by rw [hkeyId, hkey])

/-! ## Runs -/

/-- In one of the events, a signer of that pass answered with the signature when it was asked for
the message. -/
def AnsweredIn (signerOf : Signer σ → Signer σ → Signer σ) (events : List (Event σ))
    (message : ByteArray) (signature : Signature) : Prop :=
  ∃ event ∈ events, ∃ parentSigner binSigner, event.operation = .sign parentSigner binSigner ∧
    (signerOf parentSigner binSigner).Answered event.calls message signature

variable {events : List (Event σ)} {event : Event σ}

/-- What was answered in some events was answered in more of them. -/
theorem AnsweredIn.append {signerOf : Signer σ → Signer σ → Signer σ} {message : ByteArray}
    {signature : Signature} (h : AnsweredIn signerOf events message signature) :
    AnsweredIn signerOf (events ++ [event]) message signature := by
  obtain ⟨earlier, hearlier, hanswered⟩ := h
  exact ⟨earlier, List.mem_append_left _ hearlier, hanswered⟩

/-- The bins are faithful to the signatures of a run under keys from a table. -/
def FaithfulIn (keys : Dict String KeyRecord) (events : List (Event σ)) : Graph → Prop :=
  Faithful (AnsweredIn (fun parentSigner _ => parentSigner) events)
    fun message signature => AnsweredIn (fun _ binSigner => binSigner) events message signature ∧
      keys.contains signature.keyId = true

/-- A step keeps documents faithful. -/
theorem FaithfulIn.step (h : FaithfulIn g.parent.body.delegations.keys events g)
    (hstep : g.Step event g') :
    FaithfulIn g.parent.body.delegations.keys (events ++ [event]) g' := by
  -- The answers of the past stay answers, whatever the step does.
  have hlater : FaithfulIn g.parent.body.delegations.keys (events ++ [event]) g := by
    constructor
    · exact h.parent.mono fun _ _ hgiven => hgiven.append
    · intro d hd
      exact (h.bins d hd).mono fun _ _ hgiven => ⟨hgiven.1.append, hgiven.2⟩
  cases hstep with
  | filed hfile => exact hlater.file hfile
  | filedAll hfile =>
    obtain ⟨-, heach⟩ := fileEach_of_fileAll hfile
    exact fileEach_induction (P := fun _ g' => FaithfulIn _ _ g') heach hlater
      fun _ _ _ _ _ _ hpast hfile => hpast.file hfile
  | @signed parentSigner binSigner calls report _ hsigning =>
    -- The answers of this pass are those of the last event.
    have hlast : ∀ last : Event σ, last ∈ events ++ [last] :=
      fun last => List.mem_append_right _ List.mem_cons_self
    refine hlater.signing hsigning ?_ ?_
    · intro message signature hanswered
      exact ⟨_, hlast _, parentSigner, binSigner, rfl, hanswered⟩
    · intro message signature hanswered hkey
      exact ⟨⟨_, hlast _, parentSigner, binSigner, rfl, hanswered⟩, hkey⟩
  | refused => exact hlater

/-- A new graph has no signatures. -/
theorem faithfulIn_fresh {settings : Settings} {key : KeyRecord}
    {keyId parentExpires binExpires : String} {keys : Dict String KeyRecord} :
    FaithfulIn keys ([] : List (Event σ))
      (fresh settings key keyId parentExpires binExpires) := by
  refine ⟨⟨fun _ => rfl, fun h => absurd h (by simp [fresh])⟩, ?_⟩
  intro d hd
  obtain ⟨b, -, rfl⟩ := List.mem_map.1 hd
  exact ⟨fun _ => rfl, fun h => absurd h (by simp)⟩

variable {settings : Settings} {key : KeyRecord} {g₀ : Graph} {operations : List (Operation σ)}
  {world : σ}

/-- A run from a build keeps documents faithful. -/
theorem faithfulIn_run (hbuild : build settings key = .ok g₀)
    (hrun : (g₀.run operations world).1 = (events, g)) :
    FaithfulIn g.parent.body.delegations.keys events g := by
  refine run_induction (P := fun past g => FaithfulIn g.parent.body.delegations.keys past g)
    hrun ?_ ?_
  · obtain ⟨keyId, parentExpires, binExpires, -, rfl⟩ := exists_fresh_of_build hbuild
    exact faithfulIn_fresh
  · intro past event g₁ g₂ hfaithful hstep
    -- The table of keys is part of the outline, so it is the same before and after the step.
    have hkeys : g₂.parent.body = g₁.parent.body := congrArg (·.parent.body) (outline_step hstep)
    rw [hkeys]
    exact hfaithful.step hstep

/-- In every graph that is reached from a build, a document carries no signature until it is signed,
and then one, which a signer of the run gave under its own key for the body that the document has
now. The signature of a bin is under a key of the parent that the one role of the bin's name lists,
so that the threshold of the role is met. -/
theorem signatures_of_run (hbuild : build settings key = .ok g₀)
    (hrun : (g₀.run operations world).1 = (events, g)) :
    g.parent.Faithful (AnsweredIn (fun parentSigner _ => parentSigner) events) ∧
      ∀ d ∈ g.bins, d.Faithful (AnsweredIn (fun _ binSigner => binSigner) events) ∧
        (d.state = .signed → ∃ role,
          g.parent.body.delegations.roles.filter (·.name == d.role) = [role] ∧
          (∀ signature ∈ d.signatures, signature.keyId ∈ role.keyIds ∧
            g.parent.body.delegations.keys.contains signature.keyId = true) ∧
          role.threshold.toNat
            ≤ (role.signedKeys g.parent.body.delegations.keys d.signatures).length) := by
  have hfaithful := faithfulIn_run hbuild hrun
  obtain ⟨keyId, parentExpires, binExpires, hg⟩ := exists_outline_eq_fresh hbuild hrun
  refine ⟨hfaithful.parent, ?_⟩
  intro d hd
  have hbin := hfaithful.bins d hd
  refine ⟨hbin.mono fun _ _ hgiven => hgiven.1, ?_⟩
  intro hstate
  -- The parent has one key, so the key that the signature is under is the one of the role.
  obtain ⟨message, signature, -, hsignatures, -, hkey⟩ := hbin.signed hstate
  obtain ⟨i, hi⟩ := List.mem_iff_getElem?.1 hd
  obtain ⟨hlt, hrole⟩ := role_of_getElem? hg hi
  have hkeyId : signature.keyId = keyId := by
    rw [keys_of_outline hg, Dict.contains_singleton] at hkey
    exact of_decide_eq_true hkey
  refine ⟨_, by rw [hrole]; exact filter_roles_name hg hlt, ?_, ?_⟩
  · intro other hother
    rw [hsignatures, List.mem_singleton] at hother
    subst hother
    exact ⟨by simp [roleSpec, hkeyId], hkey⟩
  · have hcount : (roleSpec keyId (settings.partition.binAt i)).signedKeys
        g.parent.body.delegations.keys d.signatures = [keyId] := by
      rw [RoleSpec.signedKeys, hsignatures]
      simp [roleSpec, hkeyId, keys_of_outline hg]
    rw [hcount]
    exact Nat.le_refl 1

/-- In the small delegation every document is signed, and the thresholds are met. -/
theorem signatures_of_sample : ∃ g₀ events g, build Sample.settings Sample.key = .ok g₀ ∧
    (g₀.run Sample.operations 0).1 = (events, g) ∧ g.isFullySigned = true ∧
    g.parent.Faithful (AnsweredIn (fun parentSigner _ => parentSigner) events) ∧
    ∀ d ∈ g.bins, d.Faithful (AnsweredIn (fun _ binSigner => binSigner) events) ∧
      (d.state = .signed → ∃ role,
        g.parent.body.delegations.roles.filter (·.name == d.role) = [role] ∧
        (∀ signature ∈ d.signatures, signature.keyId ∈ role.keyIds ∧
          g.parent.body.delegations.keys.contains signature.keyId = true) ∧
        role.threshold.toNat
          ≤ (role.signedKeys g.parent.body.delegations.keys d.signatures).length) := by
  obtain ⟨g₀, events, g, hbuild, hrun, -, hsigned, -⟩ := Sample.exists_run
  exact ⟨g₀, events, g, hbuild, hrun, hsigned, signatures_of_run hbuild hrun⟩

end Graph

end BinDelegation
