import BinDelegation.Proofs.Delegation.Updates
import Mathlib.Logic.Basic

/-!
# What signing does

`Document.Signing` and `Graph.Signing` say all that one pass of signing can do to a document and to
a graph, and which calls it makes for that. The programs meet them for every signer, and noting down
the calls changes nothing else.

A document is kept, or it cannot be written, or the answer of its signer is refused, or it is
accepted: four cases, of which the last two make one call. What a signer answers may depend on a
state, so a call is told with the state in which the signer was asked, and nothing is assumed of it.
Signing several documents is told along the list (`Document.SigningEach`), the calls of one behind
those of the other.

The calls are noted down by a signer that records them in its state (`Signer.recorded`).
`Document.sign_recorded` and `Graph.sign_recorded` say at once that recording leaves the answers,
the documents and the state as they are, and that the calls so noted are those of the signing.
-/

namespace BinDelegation

namespace Document

variable {β : Type} {d : Document β} {keyId : String} {signature : Signature}

/-- An answer is accepted if it is a signature under the key of the signer that was asked. -/
theorem acceptAnswer_eq_ok {answer : Except Error Signature} :
    d.acceptAnswer keyId answer = .ok signature ↔
      answer = .ok signature ∧ signature.keyId = keyId := by
  cases answer with
  | error e => simp [acceptAnswer]
  | ok given =>
    by_cases hkey : given.keyId = keyId
    · simp only [acceptAnswer, if_pos hkey, Except.ok.injEq]
      exact ⟨fun h => ⟨h, h ▸ hkey⟩, fun h => h.1⟩
    · simp only [acceptAnswer, if_neg hkey, reduceCtorEq, Except.ok.injEq, false_iff, not_and]
      exact fun h => h ▸ hkey

variable [Wire β] {σ : Type} {signer : Signer σ}

/-- The calls for the signature of a document, its outcome and the document after it. An answer is
what the signer gives in some state. -/
inductive Signing (signer : Signer σ) (d : Document β) :
    List Signer.Call → SignOutcome × Document β → Prop where
  /-- A signed document is left as it is. -/
  | kept (hstate : d.state = .signed) : Signing signer d [] (⟨d.role, .alreadySigned⟩, d)
  /-- A body without a canonical form is not shown to the signer. -/
  | unwritable {e : Error} (hstate : d.state ≠ .signed)
      (hmessage : Wire.canonicalBytes d.body = .error e) :
      Signing signer d [] (⟨d.role, .failed e⟩, { d with state := .populated })
  | refused {message : ByteArray} {asked : σ} {e : Error}
      (hstate : d.state ≠ .signed) (hmessage : Wire.canonicalBytes d.body = .ok message)
      (hanswer : d.acceptAnswer signer.keyId (signer.sign message asked).1 = .error e) :
      Signing signer d [⟨signer.keyId, message, (signer.sign message asked).1⟩]
        (⟨d.role, .failed e⟩, { d with state := .populated })
  | accepted {message : ByteArray} {asked : σ} {signature : Signature}
      (hstate : d.state ≠ .signed) (hmessage : Wire.canonicalBytes d.body = .ok message)
      (hanswer : (signer.sign message asked).1 = .ok signature)
      (hkey : signature.keyId = signer.keyId) :
      Signing signer d [⟨signer.keyId, message, .ok signature⟩]
        (⟨d.role, .signed⟩,
          { d with state := .signed, signatures := d.signatures ++ [signature] })

/-- The calls for the signatures of documents in order, their outcomes and the documents after. -/
inductive SigningEach (signer : Signer σ) :
    List (Document β) → List Signer.Call → List (SignOutcome × Document β) → Prop where
  | nil : SigningEach signer [] [] []
  | cons {d : Document β} {result : SignOutcome × Document β} {docs : List (Document β)}
      {results : List (SignOutcome × Document β)} {calls later : List Signer.Call}
      (head : d.Signing signer calls result) (tail : SigningEach signer docs later results) :
      SigningEach signer (d :: docs) (calls ++ later) (result :: results)

/-- Signing a document with the calls noted down. -/
theorem sign_recorded (d : Document β) (signer : Signer σ) (world : σ) (log : List Signer.Call) :
    ∃ calls, d.sign signer.recorded (world, log)
        = ((d.sign signer world).1, (d.sign signer world).2, log ++ calls) ∧
      d.Signing signer calls (d.sign signer world).1 := by
  by_cases hstate : d.state = .signed
  · have hsign : d.sign signer world = ((⟨d.role, .alreadySigned⟩, d), world) := by
      simp only [sign, hstate]
      rfl
    rw [hsign]
    refine ⟨[], ?_, .kept hstate⟩
    simp only [sign, hstate, List.append_nil]
    rfl
  · -- The two states before a signature are treated alike.
    have hsign {ρ : Type} (s : Signer ρ) (world : ρ) :
        d.sign s world = (d.settle (d.askSignature s world).1, (d.askSignature s world).2) := by
      cases hd : d.state with
      | signed => exact absurd hd hstate
      | empty => simp only [sign, hd]; rfl
      | populated => simp only [sign, hd]; rfl
    simp only [hsign]
    -- The body is written first. Without bytes the signer is not asked.
    cases hmessage : Wire.canonicalBytes d.body with
    | error e =>
      simp only [askSignature, hmessage]
      exact ⟨[], by rw [List.append_nil]; rfl, .unwritable hstate hmessage⟩
    | ok message =>
      simp only [askSignature, hmessage]
      refine ⟨[⟨signer.keyId, message, (signer.sign message world).1⟩], rfl, ?_⟩
      show d.Signing signer _
        (d.settle (d.acceptAnswer signer.keyId (signer.sign message world).1))
      cases hanswer : d.acceptAnswer signer.keyId (signer.sign message world).1 with
      | error e => exact .refused hstate hmessage hanswer
      | ok signature =>
        obtain ⟨hgiven, hkey⟩ := acceptAnswer_eq_ok.1 hanswer
        rw [hgiven]
        exact .accepted hstate hmessage hgiven hkey

/-- Signing documents in order with the calls noted down. -/
theorem mapM_sign_recorded (docs : List (Document β)) (signer : Signer σ) (world : σ)
    (log : List Signer.Call) :
    ∃ calls, docs.mapM (·.sign signer.recorded) (world, log)
        = ((docs.mapM (·.sign signer) world).1, (docs.mapM (·.sign signer) world).2, log ++ calls) ∧
      SigningEach signer docs calls (docs.mapM (·.sign signer) world).1 := by
  induction docs generalizing world log with
  | nil => exact ⟨[], by rw [List.append_nil]; rfl, .nil⟩
  | cons d rest ih =>
    obtain ⟨calls, hhead, hsigning⟩ := d.sign_recorded signer world log
    obtain ⟨later, htail, hsignings⟩ := ih (d.sign signer world).2 (log ++ calls)
    refine ⟨calls ++ later, ?_, ?_⟩
    · simp only [List.mapM_cons, bind, StateT.bind, hhead, htail, List.append_assoc]
      rfl
    · simp only [List.mapM_cons]
      exact .cons hsigning hsignings

/-- Signing changes neither the role of a document nor its body. -/
theorem Signing.role_body {calls : List Signer.Call} {result : SignOutcome × Document β}
    (h : d.Signing signer calls result) : result.2.role = d.role ∧ result.2.body = d.body := by
  cases h <;> exact ⟨rfl, rfl⟩

/-- What only reads roles and bodies reads the same after signing. -/
theorem SigningEach.map_eq {γ : Type} {f : Document β → γ} {docs : List (Document β)}
    {calls : List Signer.Call} {results : List (SignOutcome × Document β)}
    (h : SigningEach signer docs calls results)
    (hf : ∀ d d' : Document β, d'.role = d.role → d'.body = d.body → f d' = f d) :
    (results.map (·.2)).map f = docs.map f := by
  induction h with
  | nil => rfl
  | @cons d result docs results calls later head tail ih =>
    obtain ⟨hrole, hbody⟩ := head.role_body
    rw [List.map_cons, List.map_cons, List.map_cons, ih, hf d result.2 hrole hbody]

end Document

namespace Graph

variable {σ : Type}

/-- The calls of a pass of signing and its result. -/
inductive Signing (g : Graph) (parentSigner binSigner : Signer σ) :
    List Signer.Call → Except Error (SigningReport × Graph) → Prop where
  | refused (hkey : g.parent.body.delegations.keys.contains binSigner.keyId = false) :
      Signing g parentSigner binSigner [] (.error (.invalidArgument ("bin signer key "
        ++ binSigner.keyId ++ " is not delegated to by " ++ g.parent.role)))
  | passed {own calls : List Signer.Call} {parent : SignOutcome × Document ParentBody}
      {bins : List (SignOutcome × Document BinBody)}
      (hkey : g.parent.body.delegations.keys.contains binSigner.keyId = true)
      (hparent : g.parent.Signing parentSigner own parent)
      (hbins : Document.SigningEach binSigner g.bins calls bins) :
      Signing g parentSigner binSigner (own ++ calls) (.ok (⟨parent.1 :: bins.map (·.1)⟩,
        { g with parent := parent.2, bins := bins.map (·.2) }))

/-- A key of the parent's table is not refused. -/
theorem requireDelegated_of_contains {g : Graph} {keyId : String}
    (hkey : g.parent.body.delegations.keys.contains keyId = true) :
    g.requireDelegated keyId = .ok () := by
  rw [requireDelegated, if_pos hkey]

/-- A foreign key is refused, and the error names it and the parent. -/
theorem requireDelegated_of_not_contains {g : Graph} {keyId : String}
    (hkey : g.parent.body.delegations.keys.contains keyId = false) :
    g.requireDelegated keyId = .error (.invalidArgument ("bin signer key " ++ keyId
      ++ " is not delegated to by " ++ g.parent.role)) := by
  rw [requireDelegated, hkey]
  rfl

/-- A pass of signing with the calls noted down. -/
theorem sign_recorded (g : Graph) (parentSigner binSigner : Signer σ) (world : σ)
    (log : List Signer.Call) :
    ∃ calls, g.sign parentSigner.recorded binSigner.recorded (world, log)
        = ((g.sign parentSigner binSigner world).1, (g.sign parentSigner binSigner world).2,
          log ++ calls) ∧
      g.Signing parentSigner binSigner calls
        (g.sign parentSigner binSigner world).1 := by
  -- The key of the bins is checked before the parent is signed, so a refusal makes no calls.
  rw [sign_eq, sign_eq]
  cases hkey : g.parent.body.delegations.keys.contains binSigner.keyId with
  | false =>
    have hrefused := requireDelegated_of_not_contains hkey
    rw [show binSigner.recorded.keyId = binSigner.keyId from rfl, hrefused]
    exact ⟨[], by rw [List.append_nil], .refused hkey⟩
  | true =>
    have hpassed := requireDelegated_of_contains hkey
    obtain ⟨own, hparent, hown⟩ := g.parent.sign_recorded parentSigner world log
    obtain ⟨calls, hbins, hcalls⟩ := Document.mapM_sign_recorded g.bins binSigner
      (g.parent.sign parentSigner world).2 (log ++ own)
    rw [show binSigner.recorded.keyId = binSigner.keyId from rfl, hpassed]
    refine ⟨own ++ calls, ?_, .passed hkey hown hcalls⟩
    simp only [hparent, hbins, List.append_assoc]
    rfl

end Graph

end BinDelegation
