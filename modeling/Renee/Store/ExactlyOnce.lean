import Renee.Store.Run

/-!
# Control operations happen once

A control request that has committed left a receipt.  Receipts are looked at before anything else
that could refuse a request, so the request can be repeated for ever: it is answered
`AlreadyPresent` whatever has become of its issuer, its document or its authority.  And a receipt
binds every argument of its request, so nothing else can be done under its identifier.

* `Derived` is the invariant this needs beyond `WellFormed`: both verifiers of a capability come
  from one secret, so whoever passed the live check can pass the receipt check.
* `CollisionFree` is about the finitely many digests of a run: no two of the inputs that can be
  formed from the identifiers and secrets in it have the same digest.
* A create authority is the exception.  Its two verifiers are whatever its operator provisioned,
  and where they belong to different secrets a creation cannot be repeated
  (`create_retry_denied`).
-/

set_option autoImplicit false

namespace Renee

open ByteString Relational

/-! ## Control requests -/

/-- A creation, a grant or a revocation. -/
inductive ControlRequest
  | create (r : CreateCommand)
  | grant (r : GrantCommand)
  | revoke (r : RevokeCommand)
deriving DecidableEq

/-- The answer to a creation, among those to control requests. -/
def StoreCreateOutcome.toControl : StoreCreateOutcome → StoreControlOutcome
  | .inserted => .inserted
  | .alreadyPresent => .alreadyPresent
  | .authorizationDenied => .authorizationDenied
  | .identifierConflict => .identifierConflict
  | .requestConflict => .requestConflict
  | .limitExceeded => .limitExceeded

namespace ControlRequest

/-- Within what a request identifier must be unique. -/
def scope : ControlRequest → CreateAuthorityId ⊕ (DocumentId × CapabilityId)
  | create r => .inl r.createAuthorityId
  | grant r => .inr (r.documentId, r.issuerCapabilityId)
  | revoke r => .inr (r.documentId, r.issuerCapabilityId)

def requestId : ControlRequest → RequestId
  | create r => r.requestId
  | grant r => r.requestId
  | revoke r => r.requestId

def mutation : ControlRequest → Mutation
  | create r => .create r
  | grant r => .grant r
  | revoke r => .revoke r

/-- What the store answers. -/
def answer (sha256 : List UInt8 → Bytes verifierLength) (t : Tables) :
    ControlRequest → Except StoreError StoreControlOutcome
  | create r => (createDocument sha256 t r).1.map StoreCreateOutcome.toControl
  | grant r => (grantCapability sha256 t r).1
  | revoke r => (revokeCapability sha256 t r).1

/-- The authority of a creation retrieves receipts for the secret the request presents. -/
def ReceiptProvisioned (sha256 : List UInt8 → Bytes verifierLength) (t : Tables) :
    ControlRequest → Prop
  | create r => ∀ authority, t.createAuthorities.find? r.createAuthorityId = some authority →
      authority.receiptVerifier =
        (deriveCreate sha256 r.createAuthorityId r.createAuthenticator).receipt
  | _ => True

end ControlRequest

/-! ## The inputs of a run -/

namespace Mutation

/-- The secrets a mutation carries. -/
def secrets : Mutation → List Authenticator
  | create r => [r.createAuthenticator, r.rootAuthenticator]
  | grant r => [r.issuerAuthenticator, r.descendantAuthenticator]
  | revoke r => [r.issuerAuthenticator]
  | accept r => [r.authenticator]
  | _ => []

/-- The capabilities it names together with a secret. -/
def capabilities : Mutation → List (DocumentId × CapabilityId)
  | create r => [(r.documentId, r.rootCapabilityId)]
  | grant r => [(r.documentId, r.issuerCapabilityId), (r.documentId, r.descendantCapabilityId)]
  | revoke r => [(r.documentId, r.issuerCapabilityId)]
  | accept r => [(r.update.documentId, r.capabilityId)]
  | _ => []

/-- The create authorities it names. -/
def authorities : Mutation → List CreateAuthorityId
  | create r => [r.createAuthorityId]
  | _ => []

end Mutation

/-- Every input that can be formed from the identifiers and the secrets of a run. -/
def verifierInputs (mutations : List Mutation) : List (List UInt8) :=
  let secrets := mutations.flatMap Mutation.secrets
  ((mutations.flatMap Mutation.capabilities).flatMap fun dc ↦ secrets.flatMap fun a ↦
    [domainInput liveDomain dc.1 dc.2 a, domainInput receiptDomain dc.1 dc.2 a]) ++
  (mutations.flatMap Mutation.authorities).flatMap fun i ↦ secrets.flatMap fun a ↦
    [createDomainInput createLiveDomain i a, createDomainInput createReceiptDomain i a]

/-- No two of the inputs have the same digest. -/
def CollisionFree (sha256 : List UInt8 → Bytes verifierLength) (inputs : List (List UInt8)) :
    Prop :=
  ∀ x ∈ inputs, ∀ y ∈ inputs, sha256 x = sha256 y → x = y

theorem collisionFree_iff_nodup {sha256 : List UInt8 → Bytes verifierLength}
    {inputs : List (List UInt8)} :
    CollisionFree sha256 inputs ↔ (inputs.dedup.map sha256).Nodup := by
  rw [List.nodup_map_iff_inj_on inputs.nodup_dedup]
  simp only [CollisionFree, List.mem_dedup]

instance CollisionFree.decidable (sha256 : List UInt8 → Bytes verifierLength)
    (inputs : List (List UInt8)) : Decidable (CollisionFree sha256 inputs) :=
  decidable_of_iff' _ collisionFree_iff_nodup

section CollisionFree

variable {sha256 : List UInt8 → Bytes verifierLength} {mutations : List Mutation}
  (h : CollisionFree sha256 (verifierInputs mutations)) {d : DocumentId} {c : CapabilityId}
  {i : CreateAuthorityId} {a a' : Authenticator}
include h

theorem CollisionFree.eq_of_live (hc : (d, c) ∈ mutations.flatMap Mutation.capabilities)
    (ha : a ∈ mutations.flatMap Mutation.secrets) (ha' : a' ∈ mutations.flatMap Mutation.secrets)
    (heq : deriveDomain sha256 liveDomain d c a = deriveDomain sha256 liveDomain d c a') :
    a = a' := by
  have hmem : ∀ b ∈ mutations.flatMap Mutation.secrets,
      domainInput liveDomain d c b ∈ verifierInputs mutations := fun b hb ↦
    List.mem_append_left _ (List.mem_flatMap.mpr ⟨(d, c), hc, List.mem_flatMap.mpr
      ⟨b, hb, List.mem_cons_self ..⟩⟩)
  exact (domainInput_injective (h _ (hmem a ha) _ (hmem a' ha') heq)).2.2

theorem CollisionFree.eq_of_receipt (hc : (d, c) ∈ mutations.flatMap Mutation.capabilities)
    (ha : a ∈ mutations.flatMap Mutation.secrets) (ha' : a' ∈ mutations.flatMap Mutation.secrets)
    (heq : deriveDomain sha256 receiptDomain d c a = deriveDomain sha256 receiptDomain d c a') :
    a = a' := by
  have hmem : ∀ b ∈ mutations.flatMap Mutation.secrets,
      domainInput receiptDomain d c b ∈ verifierInputs mutations := fun b hb ↦
    List.mem_append_left _ (List.mem_flatMap.mpr ⟨(d, c), hc, List.mem_flatMap.mpr
      ⟨b, hb, List.mem_cons_of_mem _ (List.mem_singleton_self _)⟩⟩)
  exact (domainInput_injective (h _ (hmem a ha) _ (hmem a' ha') heq)).2.2

theorem CollisionFree.eq_of_createReceipt (hi : i ∈ mutations.flatMap Mutation.authorities)
    (ha : a ∈ mutations.flatMap Mutation.secrets) (ha' : a' ∈ mutations.flatMap Mutation.secrets)
    (heq : deriveCreateDomain sha256 createReceiptDomain i a =
      deriveCreateDomain sha256 createReceiptDomain i a') : a = a' := by
  have hmem : ∀ b ∈ mutations.flatMap Mutation.secrets,
      createDomainInput createReceiptDomain i b ∈ verifierInputs mutations := fun b hb ↦
    List.mem_append_right _ (List.mem_flatMap.mpr ⟨i, hi, List.mem_flatMap.mpr
      ⟨b, hb, List.mem_cons_of_mem _ (List.mem_singleton_self _)⟩⟩)
  exact (createDomainInput_injective (h _ (hmem a ha) _ (hmem a' ha') heq)).2

end CollisionFree

/-! ## Both verifiers come from one secret -/

section Derived

variable {sha256 : List UInt8 → Bytes verifierLength} {t t' : Tables}

/-- The verifiers of every capability are derived from a secret of the run. -/
def Derived (sha256 : List UInt8 → Bytes verifierLength) (done : List Mutation) (t : Tables) :
    Prop :=
  ∀ d c row, t.capability? d c = some row →
    (d, c) ∈ done.flatMap Mutation.capabilities ∧
      ∃ a ∈ done.flatMap Mutation.secrets,
        row.liveVerifier = (derive sha256 d c a).live ∧
          row.receiptVerifier = (derive sha256 d c a).receipt

theorem mem_flatMap_of_append {α : Type} {f : Mutation → List α} {done : List Mutation}
    {m : Mutation} {x : α} (h : x ∈ done.flatMap f) : x ∈ (done ++ [m]).flatMap f := by
  rw [List.flatMap_append]
  exact List.mem_append_left _ h

theorem mem_flatMap_self {α : Type} {f : Mutation → List α} {done : List Mutation} {m : Mutation}
    {x : α} (h : x ∈ f m) : x ∈ (done ++ [m]).flatMap f := by
  rw [List.flatMap_append, List.flatMap_singleton]
  exact List.mem_append_right _ h

theorem Derived.append {done : List Mutation} (m : Mutation) (h : Derived sha256 done t) :
    Derived sha256 (done ++ [m]) t := fun d c row hrow ↦ by
  obtain ⟨hc, a, ha, hv⟩ := h d c row hrow
  exact ⟨mem_flatMap_of_append hc, a, mem_flatMap_of_append ha, hv⟩

theorem derived_run (mutations : List Mutation) :
    Derived sha256 mutations (Tables.empty.run sha256 mutations) := by
  refine (run_induction_history (fun _ m _ h ↦ h.append m) ?_ wellFormed_empty
    (fun _ _ _ hrow ↦ absurd hrow (by simp [Tables.empty, Tables.capability?])) mutations).2
  intro done m t t' hw h heffect d c row' hrow'
  cases hold : t.capability? d c with
  | some row =>
    obtain ⟨row'', hrow'', hkeep⟩ := (heffect.persists hw).capability hold
    obtain rfl := Option.some_inj.mp (hrow'.symm.trans hrow'')
    rw [hkeep.liveVerifier, hkeep.receiptVerifier]
    exact (h.append m) d c row hold
  | none =>
    rcases heffect.capability_new hw hold hrow' with
      ⟨r, rfl, -, rfl, rfl, rfl⟩ | ⟨r, revision, rfl, -, rfl, rfl, rfl⟩
    · exact ⟨mem_flatMap_self (List.mem_cons_self ..), r.rootAuthenticator,
        mem_flatMap_self (List.mem_cons_of_mem _ (List.mem_singleton_self _)), rfl, rfl⟩
    · exact ⟨mem_flatMap_self (List.mem_cons_of_mem _ (List.mem_singleton_self _)),
        r.descendantAuthenticator,
        mem_flatMap_self (List.mem_cons_of_mem _ (List.mem_singleton_self _)), rfl, rfl⟩

/-- **A secret that passed the live check of a capability is the one its receipts are bound to.** -/
theorem Derived.receiptVerifier_eq {done all : List Mutation} (h : Derived sha256 done t)
    (hfree : CollisionFree sha256 (verifierInputs all))
    (hsub : ∀ m ∈ done, m ∈ all) {d : DocumentId} {c : CapabilityId} {a : Authenticator}
    {row : CapabilityRow} (hrow : t.capability? d c = some row)
    (ha : a ∈ all.flatMap Mutation.secrets)
    (hlive : verifyLive sha256 row.liveVerifier d c a = true) :
    row.receiptVerifier = (derive sha256 d c a).receipt := by
  have hmem : ∀ {α : Type} {f : Mutation → List α} {x : α}, x ∈ done.flatMap f →
      x ∈ all.flatMap f := fun hx ↦ by
    obtain ⟨m, hm, hx⟩ := List.mem_flatMap.mp hx
    exact List.mem_flatMap.mpr ⟨m, hsub m hm, hx⟩
  obtain ⟨hc, a₀, ha₀, hl, hr⟩ := h d c row hrow
  have heq : row.liveVerifier = deriveDomain sha256 liveDomain d c a := of_decide_eq_true hlive
  rw [hr, hfree.eq_of_live (hmem hc) (hmem ha₀) ha (hl.symm.trans heq)]

end Derived

/-! ## What a commit leaves behind -/

section Recorded

variable {sha256 : List UInt8 → Bytes verifierLength} {t t' : Tables}

/-- A receipt under which a named request can be repeated. -/
def ReceiptRecorded (sha256 : List UInt8 → Bytes verifierLength) (t : Tables) (d : DocumentId)
    (issuer : CapabilityId) (a : Authenticator) (receipt : ControlReceiptRow) : Prop :=
  t.controlReceipts.find? (d, issuer, receipt.requestId) = some receipt ∧
  ∃ row, t.capability? d issuer = some row ∧
    row.receiptVerifier = (derive sha256 d issuer a).receipt

/-- What a committed request can be repeated by. -/
def ControlRequest.Recorded (sha256 : List UInt8 → Bytes verifierLength) (t : Tables) :
    ControlRequest → Prop
  | create r =>
    (∃ authority, t.createAuthorities.find? r.createAuthorityId = some authority ∧
      authority.receiptVerifier =
        (deriveCreate sha256 r.createAuthorityId r.createAuthenticator).receipt) ∧
    t.createReceipts.find? (r.createAuthorityId, r.requestId) = some (r.receiptRow sha256) ∧
    ∃ row, t.capability? r.documentId r.rootCapabilityId = some row ∧ row.root = true ∧
      row.receiptVerifier = (r.verifiers sha256).receipt
  | grant r => r.operations.isEmpty = false ∧ ReceiptRecorded sha256 t r.documentId
      r.issuerCapabilityId r.issuerAuthenticator (r.receiptRow sha256)
  | revoke r => ReceiptRecorded sha256 t r.documentId r.issuerCapabilityId r.issuerAuthenticator
      r.receiptRow

theorem ReceiptRecorded.persists {d : DocumentId} {issuer : CapabilityId} {a : Authenticator}
    {receipt : ControlReceiptRow} (h : ReceiptRecorded sha256 t d issuer a receipt)
    (hp : Persists t t') : ReceiptRecorded sha256 t' d issuer a receipt := by
  obtain ⟨hreceipt, row, hrow, hv⟩ := h
  obtain ⟨row', hrow', hkeep⟩ := hp.capability hrow
  exact ⟨hp.controlReceipt hreceipt, row', hrow', hkeep.receiptVerifier.trans hv⟩

/-- **What is recorded stays recorded.** -/
theorem ControlRequest.Recorded.persists {q : ControlRequest} (h : q.Recorded sha256 t)
    (hp : Persists t t') : q.Recorded sha256 t' := by
  cases q with
  | create r =>
    obtain ⟨⟨authority, hauthority, hv⟩, hreceipt, row, hrow, hroot, hrv⟩ := h
    obtain ⟨authority', hauthority', -, hv'⟩ := hp.authority hauthority
    obtain ⟨row', hrow', hkeep⟩ := hp.capability hrow
    exact ⟨⟨authority', hauthority', hv'.trans hv⟩, hp.createReceipt hreceipt, row', hrow',
      hkeep.root.trans hroot, hkeep.receiptVerifier.trans hrv⟩
  | grant r => exact ⟨h.1, h.2.persists hp⟩
  | revoke r => exact ReceiptRecorded.persists h hp

/-! ## Answers from a receipt -/

/-- A receipt answers a named request. -/
theorem ReceiptRecorded.resolve {d : DocumentId} {issuer : CapabilityId} {a : Authenticator}
    {receipt : ControlReceiptRow} (h : ReceiptRecorded sha256 t d issuer a receipt)
    (a' : Authenticator) (operation : ControlOperation) (input : List UInt8) :
    resolveControlReceipt sha256 t d issuer a' receipt.requestId operation input =
      some (if (derive sha256 d issuer a).receipt = (derive sha256 d issuer a').receipt then
        if receipt.operation = operation ∧ receipt.normalizedInput = input then .alreadyPresent
        else .requestConflict
      else .authorizationDenied) := by
  obtain ⟨hreceipt, row, hrow, hv⟩ := h
  rw [resolveControlReceipt, hreceipt, hrow]
  simp only [verifyReceipt, hv, decide_eq_true_eq]
  rw [ite_not]
  split
  · rename_i heq
    rw [if_pos (show (derive sha256 d issuer a).receipt =
      (derive sha256 d issuer a').receipt from heq)]
    split <;> rfl
  · rename_i hne
    rw [if_neg (show ¬(derive sha256 d issuer a).receipt =
      (derive sha256 d issuer a').receipt from hne)]

/-- What the receipt of a creation answers to a creation under the same identifier. -/
def CreateCommand.retryOutcome (sha256 : List UInt8 → Bytes verifierLength)
    (r r' : CreateCommand) : StoreCreateOutcome :=
  if (deriveCreate sha256 r.createAuthorityId r.createAuthenticator).receipt =
      (deriveCreate sha256 r.createAuthorityId r'.createAuthenticator).receipt then
    if (derive sha256 r.documentId r.rootCapabilityId r.rootAuthenticator).receipt =
        (derive sha256 r.documentId r.rootCapabilityId r'.rootAuthenticator).receipt then
      if r.input sha256 = r'.input sha256 then .alreadyPresent else .requestConflict
    else .authorizationDenied
  else .authorizationDenied

theorem createDocument_of_recorded {r r' : CreateCommand}
    (h : (ControlRequest.create r).Recorded sha256 t)
    (hi : r'.createAuthorityId = r.createAuthorityId) (hid : r'.requestId = r.requestId) :
    createDocument sha256 t r' = (.ok (r.retryOutcome sha256 r'), t) := by
  obtain ⟨⟨authority, hauthority, hv⟩, hreceipt, row, hrow, hroot, hrv⟩ := h
  have hverify : verifyCreateReceipt sha256 authority.receiptVerifier r.createAuthorityId
      r'.createAuthenticator =
        decide ((deriveCreate sha256 r.createAuthorityId r.createAuthenticator).receipt =
          (deriveCreate sha256 r.createAuthorityId r'.createAuthenticator).receipt) := by
    rw [verifyCreateReceipt, hv]
    rfl
  have hrootVerify : verifyRootReceipt sha256 t (r.receiptRow sha256).documentId
      (r.receiptRow sha256).rootCapabilityId r'.rootAuthenticator =
        decide ((derive sha256 r.documentId r.rootCapabilityId r.rootAuthenticator).receipt =
          (derive sha256 r.documentId r.rootCapabilityId r'.rootAuthenticator).receipt) := by
    rw [verifyRootReceipt, show t.capability? (r.receiptRow sha256).documentId
      (r.receiptRow sha256).rootCapabilityId = some row from hrow]
    simp only [hroot, Bool.true_and, verifyReceipt, hrv]
    rfl
  have hstored : (r.receiptRow sha256).normalizedInput = r.input sha256 := rfl
  have hbody : createDocumentIn sha256 r' t = .ok (.rollback (r.retryOutcome sha256 r')) := by
    rw [createDocumentIn, hi, hid, hauthority, CreateCommand.retryOutcome]
    simp only [hverify, hreceipt, hrootVerify, hstored]
    by_cases hsecret : (deriveCreate sha256 r.createAuthorityId r.createAuthenticator).receipt =
        (deriveCreate sha256 r.createAuthorityId r'.createAuthenticator).receipt
    · by_cases hrootSecret :
          (derive sha256 r.documentId r.rootCapabilityId r.rootAuthenticator).receipt =
            (derive sha256 r.documentId r.rootCapabilityId r'.rootAuthenticator).receipt
      · by_cases hinput : r.input sha256 = r'.input sha256 <;> simp [hsecret, hrootSecret, hinput]
      · simp [hsecret, hrootSecret]
    · simp [hsecret]
  rw [createDocument, transaction, hbody]

/-- **The answers to everything under the identifier of a recorded request.**  The request itself
is answered `AlreadyPresent`; nothing that answers is written. -/
theorem ControlRequest.Recorded.answer {q q' : ControlRequest} {all : List Mutation}
    (h : q.Recorded sha256 t) (hscope : q'.scope = q.scope) (hid : q'.requestId = q.requestId)
    (hfree : CollisionFree sha256 (verifierInputs all)) (hq : q.mutation ∈ all)
    (hq' : q'.mutation ∈ all) :
    t.apply sha256 q'.mutation = t ∧
      (q' = q → q'.answer sha256 t = .ok .alreadyPresent) ∧
      (q' ≠ q → q'.answer sha256 t = .ok .requestConflict ∨
        q'.answer sha256 t = .ok .authorizationDenied) := by
  have hmem : ∀ {α : Type} {f : Mutation → List α} {m : Mutation} {x : α}, m ∈ all → x ∈ f m →
      x ∈ all.flatMap f := fun hm hx ↦ List.mem_flatMap.mpr ⟨_, hm, hx⟩
  cases q with
  | create r =>
    cases q' with
    | grant r' => exact absurd hscope (by simp [ControlRequest.scope])
    | revoke r' => exact absurd hscope (by simp [ControlRequest.scope])
    | create r' =>
      have hi : r'.createAuthorityId = r.createAuthorityId := Sum.inl.inj hscope
      have hcreate := createDocument_of_recorded h hi hid
      refine ⟨congrArg Prod.snd hcreate, ?_, ?_⟩
      · rintro ⟨⟩
        rw [ControlRequest.answer, hcreate, CreateCommand.retryOutcome, if_pos rfl, if_pos rfl,
          if_pos rfl]
        rfl
      · intro hne
        rw [ControlRequest.answer, hcreate, CreateCommand.retryOutcome]
        split
        · rename_i hsecret
          split
          · rename_i hrootSecret
            rw [if_neg]
            · exact Or.inl rfl
            · intro hinput
              obtain ⟨hd, hc, -⟩ := createInput_injective hinput
              refine hne (congrArg ControlRequest.create (CreateCommand.ext hi ?_ hid hd.symm
                hc.symm ?_))
              · exact (hfree.eq_of_createReceipt (hmem hq (List.mem_singleton_self _))
                  (hmem hq (List.mem_cons_self ..)) (hmem hq' (List.mem_cons_self ..))
                  hsecret).symm
              · exact (hfree.eq_of_receipt (hmem hq (List.mem_singleton_self _))
                  (hmem hq (List.mem_cons_of_mem _ (List.mem_singleton_self _)))
                  (hmem hq' (List.mem_cons_of_mem _ (List.mem_singleton_self _)))
                  hrootSecret).symm
          · exact Or.inr rfl
        · exact Or.inr rfl
  | grant r =>
    obtain ⟨hempty, h⟩ := h
    cases q' with
    | create r' => exact absurd hscope (by simp [ControlRequest.scope])
    | grant r' =>
      obtain ⟨hd, hc⟩ := Prod.mk_inj.mp (Sum.inr.inj hscope)
      have hresolve := h.resolve r'.issuerAuthenticator .grant (r'.input sha256)
      rw [← hd, ← hc, show (r.receiptRow sha256).requestId = r'.requestId from hid.symm]
        at hresolve
      have hgrant := grantCapability_of_resolve hresolve
      refine ⟨congrArg Prod.snd hgrant, ?_, fun hne ↦ ?_⟩
      · rintro ⟨⟩
        rw [ControlRequest.answer, hgrant, if_neg (by simp [hempty]), if_pos rfl,
          if_pos ⟨rfl, rfl⟩]
      · rw [ControlRequest.answer, hgrant]
        split
        · exact Or.inr rfl
        split
        · rename_i hsecret
          rw [if_neg]
          · exact Or.inl rfl
          · rintro ⟨-, hinput⟩
            obtain ⟨hdc, hv, hops⟩ := grantInput_injective hinput
            have hlive := congrArg VerifierPair.live hv
            rw [GrantCommand.verifiers, GrantCommand.verifiers, hd, ← hdc] at hlive
            rw [hd, hc] at hsecret
            refine hne (congrArg ControlRequest.grant (GrantCommand.ext hd hc ?_ hid hdc.symm ?_
              hops.symm))
            · exact (hfree.eq_of_receipt (hmem hq (List.mem_cons_self ..))
                (hmem hq (List.mem_cons_self ..)) (hmem hq' (List.mem_cons_self ..)) hsecret).symm
            · exact (hfree.eq_of_live
                (hmem hq (List.mem_cons_of_mem _ (List.mem_singleton_self _)))
                (hmem hq (List.mem_cons_of_mem _ (List.mem_singleton_self _)))
                (hmem hq' (List.mem_cons_of_mem _ (List.mem_singleton_self _))) hlive).symm
        · exact Or.inr rfl
    | revoke r' =>
      obtain ⟨hd, hc⟩ := Prod.mk_inj.mp (Sum.inr.inj hscope)
      have hresolve := h.resolve r'.issuerAuthenticator .revoke r'.input
      rw [← hd, ← hc, show (r.receiptRow sha256).requestId = r'.requestId from hid.symm]
        at hresolve
      have hrevoke := revokeCapability_of_resolve hresolve
      refine ⟨congrArg Prod.snd hrevoke, fun heq ↦ absurd heq (by simp), fun _ ↦ ?_⟩
      rw [ControlRequest.answer, hrevoke]
      split
      · rw [if_neg fun hk ↦ absurd hk.1 (by simp [GrantCommand.receiptRow])]
        exact Or.inl rfl
      · exact Or.inr rfl
  | revoke r =>
    cases q' with
    | create r' => exact absurd hscope (by simp [ControlRequest.scope])
    | grant r' =>
      obtain ⟨hd, hc⟩ := Prod.mk_inj.mp (Sum.inr.inj hscope)
      have hresolve := ReceiptRecorded.resolve h r'.issuerAuthenticator .grant (r'.input sha256)
      rw [← hd, ← hc, show r.receiptRow.requestId = r'.requestId from hid.symm] at hresolve
      have hgrant := grantCapability_of_resolve hresolve
      refine ⟨congrArg Prod.snd hgrant, fun heq ↦ absurd heq (by simp), fun _ ↦ ?_⟩
      rw [ControlRequest.answer, hgrant]
      split
      · exact Or.inr rfl
      split
      · rw [if_neg fun hk ↦ absurd hk.1 (by simp [RevokeCommand.receiptRow])]
        exact Or.inl rfl
      · exact Or.inr rfl
    | revoke r' =>
      obtain ⟨hd, hc⟩ := Prod.mk_inj.mp (Sum.inr.inj hscope)
      have hresolve := ReceiptRecorded.resolve h r'.issuerAuthenticator .revoke r'.input
      rw [← hd, ← hc, show r.receiptRow.requestId = r'.requestId from hid.symm] at hresolve
      have hrevoke := revokeCapability_of_resolve hresolve
      refine ⟨congrArg Prod.snd hrevoke, ?_, fun hne ↦ ?_⟩
      · rintro ⟨⟩
        rw [ControlRequest.answer, hrevoke, if_pos rfl, if_pos ⟨rfl, rfl⟩]
      · rw [ControlRequest.answer, hrevoke]
        split
        · rename_i hsecret
          rw [if_neg]
          · exact Or.inl rfl
          · rintro ⟨-, hinput⟩
            rw [hd, hc] at hsecret
            refine hne (congrArg ControlRequest.revoke (RevokeCommand.ext hd hc ?_ hid
              (revokeInput_injective hinput).symm))
            exact (hfree.eq_of_receipt (hmem hq (List.mem_singleton_self _))
              (hmem hq (List.mem_singleton_self _)) (hmem hq' (List.mem_singleton_self _))
              hsecret).symm
        · exact Or.inr rfl

/-- **A request that commits is recorded.** -/
theorem ControlRequest.recorded_of_inserted {q : ControlRequest} {done all : List Mutation}
    (hw : WellFormed t) (hderived : Derived sha256 done t)
    (hfree : CollisionFree sha256 (verifierInputs all)) (hsub : ∀ m ∈ done, m ∈ all)
    (hq : q.mutation ∈ all) (hprovision : q.ReceiptProvisioned sha256 t)
    (hcommit : q.answer sha256 t = .ok .inserted) :
    q.Recorded sha256 (t.apply sha256 q.mutation) := by
  -- who is authorized has the secret that the receipts of its capability are bound to
  have hissuer : ∀ {d c a operation}, authorize sha256 t d c a operation = true →
      a ∈ q.mutation.secrets → ∃ row, t.capability? d c = some row ∧
        row.receiptVerifier = (derive sha256 d c a).receipt := by
    intro d c a operation hauth ha
    obtain ⟨⟨row, hrow, -, hlive, -⟩, -⟩ := (hw.control.forest d).authorize_iff.mp hauth
    exact ⟨row, hrow, hderived.receiptVerifier_eq hfree hsub hrow
      (List.mem_flatMap.mpr ⟨_, hq, ha⟩) hlive⟩
  cases q with
  | create r =>
    rcases createDocument_spec (Prod.eta (createDocument sha256 t r)).symm with
      ⟨-, h⟩ | ⟨hne, -⟩
    · obtain ⟨authority, hauthority, -⟩ := h.authority
      have hat := h.attached (hw.control.capability?_of_document? h.document_fresh _)
      refine ⟨⟨authority, ?_, hprovision authority hauthority⟩, ?_, _, hat.capability?_self, rfl,
        rfl⟩
      · exact h.createAuthorities ▸ hauthority
      · exact Table.find?_of_rows_append_self h.createReceipts
    · refine absurd ?_ hne
      rw [ControlRequest.answer] at hcommit
      cases hresult : (createDocument sha256 t r).1 with
      | error e => rw [hresult] at hcommit; exact absurd hcommit (by simp [Except.map])
      | ok o => rw [hresult] at hcommit; cases o <;>
        simp_all [Except.map, StoreCreateOutcome.toControl]
  | grant r =>
    rcases grantCapability_spec (Prod.eta (grantCapability sha256 t r)).symm with
      ⟨-, revision, h⟩ | ⟨hne, -⟩
    · obtain ⟨row, hrow, hv⟩ := hissuer h.authorized (List.mem_cons_self ..)
      obtain ⟨row', hrow', hkeep⟩ := h.persists.capability hrow
      exact ⟨(OperationSet.allows_iff.mp h.attenuated).1,
        Table.find?_of_rows_append_self h.controlReceipts, row', hrow',
        hkeep.receiptVerifier.trans hv⟩
    · exact absurd hcommit hne
  | revoke r =>
    rcases revokeCapability_spec (Prod.eta (revokeCapability sha256 t r)).symm with
      ⟨-, revision, h⟩ | ⟨hne, -⟩
    · obtain ⟨row, hrow, hv⟩ := hissuer h.authorized (List.mem_singleton_self _)
      obtain ⟨row', hrow', hkeep⟩ := h.persists.capability hrow
      exact ⟨Table.find?_of_rows_append_self h.controlReceipts, row', hrow',
        hkeep.receiptVerifier.trans hv⟩
    · exact absurd hcommit hne

end Recorded

/-! ## The guarantee, and where it ends -/

/-- **Control operations happen once.**  In any reachable store let a control request commit — a
creation under an authority whose receipt verifier belongs to the secret it was admitted with — and
let anything happen afterwards.  Then the request, sent again, is answered `AlreadyPresent`; any
other request under its identifier is answered `RequestConflict` or `AuthorizationDenied`; and
neither changes the tables. -/
theorem control_exactly_once {sha256 : List UInt8 → Bytes verifierLength}
    (before after : List Mutation) (q q' : ControlRequest)
    (hcommit : q.answer sha256 (Tables.empty.run sha256 before) = .ok .inserted)
    (hprovision : q.ReceiptProvisioned sha256 (Tables.empty.run sha256 before))
    (hfree : CollisionFree sha256
      (verifierInputs (before ++ q.mutation :: after ++ [q'.mutation])))
    (hscope : q'.scope = q.scope) (hid : q'.requestId = q.requestId) :
    let t := Tables.empty.run sha256 (before ++ q.mutation :: after)
    t.apply sha256 q'.mutation = t ∧
      (q' = q → q'.answer sha256 t = .ok .alreadyPresent) ∧
      (q' ≠ q → q'.answer sha256 t = .ok .requestConflict ∨
        q'.answer sha256 t = .ok .authorizationDenied) := by
  have hw : WellFormed (Tables.empty.run sha256 before) := wellFormed_run wellFormed_empty before
  have hrecorded := ControlRequest.recorded_of_inserted hw (derived_run before) hfree
    (fun m hm ↦ by simp [hm]) (by simp) hprovision hcommit
  have hw' : WellFormed ((Tables.empty.run sha256 before).apply sha256 q.mutation) :=
    wellFormed_run hw [q.mutation]
  rw [Tables.run_append]
  exact (hrecorded.persists (persists_run hw' after)).answer hscope hid hfree (by simp) (by simp)

/-- A creation is repeated after its document has been retired. -/
theorem control_exactly_once_sample :
    (ControlRequest.create Sample.create).answer Sha256.hash
      (Tables.empty.run Sha256.hash [.reopen Sample.provision, .create Sample.create,
        .retire Sample.document]) = .ok .alreadyPresent := by
  have hcommit : (ControlRequest.create Sample.create).answer Sha256.hash
      (Tables.empty.run Sha256.hash [.reopen Sample.provision]) = .ok .inserted := by
    decide +kernel
  have hprovision : (ControlRequest.create Sample.create).ReceiptProvisioned Sha256.hash
      (Tables.empty.run Sha256.hash [.reopen Sample.provision]) := fun authority hauthority ↦ by
    have hv : ((Tables.empty.run Sha256.hash [.reopen Sample.provision]).createAuthorities.find?
        Sample.create.createAuthorityId).map CreateAuthorityRow.receiptVerifier =
          some (deriveCreate Sha256.hash Sample.authority (Sample.secret 1)).receipt := by
      decide +kernel
    rw [hauthority] at hv
    exact Option.some_inj.mp hv
  have hfree : CollisionFree Sha256.hash
      (verifierInputs ([.reopen Sample.provision] ++
        (ControlRequest.create Sample.create).mutation :: [.retire Sample.document] ++
          [(ControlRequest.create Sample.create).mutation])) :=
    @of_decide_eq_true _ (CollisionFree.decidable Sha256.hash _) (by decide +kernel)
  exact (control_exactly_once [.reopen Sample.provision] [.retire Sample.document]
    (.create Sample.create) (.create Sample.create) hcommit hprovision hfree rfl rfl).2.1 rfl

/-- An authority whose verifiers belong to two secrets, as its operator may provision it. -/
def Sample.splitProvision : CreateAuthorityProvision :=
  ⟨Sample.authority, (deriveCreate Sha256.hash Sample.authority (Sample.secret 1)).live,
    (deriveCreate Sha256.hash Sample.authority (Sample.secret 7)).receipt⟩

/-- A creation under such an authority commits, and cannot be repeated: it is admitted by the one
verifier and would be retrieved by the other. -/
theorem create_retry_denied :
    let t := Tables.empty.run Sha256.hash [.reopen Sample.splitProvision]
    (ControlRequest.create Sample.create).answer Sha256.hash t = .ok .inserted ∧
      (ControlRequest.create Sample.create).answer Sha256.hash
        (t.apply Sha256.hash (.create Sample.create)) = .ok .authorizationDenied := by
  decide +kernel

end Renee
