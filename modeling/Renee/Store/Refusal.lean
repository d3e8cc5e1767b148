import Renee.Store.Broker

/-!
# Strangers

To a stranger the store tells nothing: `stranger_denied` says that a request whose secret is not
that of the capability it names is answered in one way whatever the store holds, and changes
nothing.
-/

set_option autoImplicit false

namespace Renee

open ByteString Relational

/-- The capability a request names, with the document and the secret. -/
def Request.presented? : Request → Option (DocumentId × CapabilityId × Authenticator)
  | .grant r => some (r.documentId, r.issuerCapabilityId, r.issuerAuthenticator)
  | .preflightRevoke r => some (r.documentId, r.issuerCapabilityId, r.issuerAuthenticator)
  | .revoke r => some (r.documentId, r.issuerCapabilityId, r.issuerAuthenticator)
  | .accept r => some (r.update.documentId, r.capabilityId, r.authenticator)
  | .fetch r => some (r.documentId, r.capabilityId, r.authenticator)
  | .enumerate r _ => some (r.documentId, r.capabilityId, r.authenticator)
  | .vectorBackfill r _ => some (r.documentId, r.capabilityId, r.authenticator)
  | .subscribe r => some (r.documentId, r.capabilityId, r.authenticator)
  | _ => none

/-- `AuthorizationDenied`, as the entry point of a request returns it. -/
def Request.denial : Request → Reply
  | .grant _ => .controlled (.ok .authorizationDenied)
  | .preflightRevoke _ => .preflighted (.resolved .authorizationDenied)
  | .revoke _ => .controlled (.ok .authorizationDenied)
  | .accept _ => .accepted (.ok .authorizationDenied)
  | .fetch _ => .fetched (.ok .authorizationDenied)
  | .enumerate _ _ => .enumerated (.ok .authorizationDenied)
  | .vectorBackfill _ _ => .backfilled (.ok .authorizationDenied)
  | .subscribe _ => .subscribed .authorizationDenied
  | _ => .done

section Hash

variable {sha256 : List UInt8 → Bytes verifierLength} {t : Tables} {s : DurableUpdateStore}
  {d : DocumentId} {c : CapabilityId} {a : Authenticator}

/-- The secret matches neither verifier of the capability, if there is such a capability at all. -/
def Stranger (sha256 : List UInt8 → Bytes verifierLength) (t : Tables) (d : DocumentId)
    (c : CapabilityId) (a : Authenticator) : Prop :=
  ∀ row, t.capability? d c = some row → verifyLive sha256 row.liveVerifier d c a = false ∧
    verifyReceipt sha256 row.receiptVerifier d c a = false

instance : Decidable (Stranger sha256 t d c a) :=
  match h : t.capability? d c with
  | none => isTrue fun row hrow ↦ absurd (h.symm.trans hrow) (by simp)
  | some row =>
    decidable_of_iff (verifyLive sha256 row.liveVerifier d c a = false ∧
        verifyReceipt sha256 row.receiptVerifier d c a = false)
      ⟨fun hs row' hrow' ↦ Option.some_inj.mp (h.symm.trans hrow') ▸ hs, fun hs ↦ hs row h⟩

theorem Stranger.authorizeDocument_eq (h : Stranger sha256 t d c a) (operation : Operation) :
    authorizeDocument sha256 t d c a operation = .denied := by
  by_contra hne
  obtain ⟨row, hrow, -, hsecret, -⟩ := Tables.bears_of_authorizeDocument hne
  rw [(h row hrow).1] at hsecret
  exact absurd hsecret (by simp)

theorem Stranger.authorize_eq (h : Stranger sha256 t d c a) (operation : Operation) :
    authorize sha256 t d c a operation = false := by
  rw [authorize, h.authorizeDocument_eq]
  rfl

/-- A receipt is there or it is not; a stranger cannot tell. -/
theorem Stranger.resolveControlReceipt_eq (h : Stranger sha256 t d c a) {requestId : RequestId}
    {operation : ControlOperation} {input : List UInt8} {outcome : StoreControlOutcome}
    (hsome : resolveControlReceipt sha256 t d c a requestId operation input = some outcome) :
    outcome = .authorizationDenied := by
  rw [resolveControlReceipt] at hsome
  split at hsome
  · exact absurd hsome (by simp)
  split at hsome
  · exact (Option.some_inj.mp hsome).symm
  rename_i row hrow
  rw [if_pos (by rw [(h row hrow).2]; simp)] at hsome
  exact (Option.some_inj.mp hsome).symm

theorem Stranger.grantCapability_eq {r : GrantCommand}
    (h : Stranger sha256 t r.documentId r.issuerCapabilityId r.issuerAuthenticator) :
    grantCapability sha256 t r = (.ok .authorizationDenied, t) := by
  refine transaction_rollback ?_
  rw [grantCapabilityIn]
  split
  · rfl
  split
  · rename_i outcome houtcome
    rw [h.resolveControlReceipt_eq houtcome]
  · rw [h.authorize_eq]
    rfl

theorem Stranger.revokeCapability_eq {r : RevokeCommand}
    (h : Stranger sha256 t r.documentId r.issuerCapabilityId r.issuerAuthenticator) :
    revokeCapability sha256 t r = (.ok .authorizationDenied, t) := by
  refine transaction_rollback ?_
  rw [revokeCapabilityIn]
  split
  · rename_i outcome houtcome
    rw [h.resolveControlReceipt_eq houtcome]
  · rw [h.authorize_eq]
    rfl

theorem Stranger.accept_eq {update : ImmutableUpdate} {encodedRecord : List UInt8}
    (h : Stranger sha256 t update.documentId c a) :
    accept sha256 t c a update encodedRecord = (.ok .authorizationDenied, t) := by
  refine transaction_rollback ?_
  simp only [acceptIn, h.authorize_eq, Bool.not_false, if_true]

/-- **A stranger is denied at every entry point, and the store stays as it is.** -/
theorem Stranger.execute_eq {request : Request} (hp : request.presented? = some (d, c, a))
    (h : Stranger sha256 s.tables d c a) : s.execute sha256 request = (request.denial, s) := by
  cases request <;> simp only [Request.presented?, Option.some_inj, Prod.mk.injEq] at hp
  case grant r =>
    obtain ⟨rfl, rfl, rfl⟩ := hp
    simp only [DurableUpdateStore.execute, DurableUpdateStore.grantCapability,
      h.grantCapability_eq, Request.denial]
  case preflightRevoke r =>
    obtain ⟨rfl, rfl, rfl⟩ := hp
    simp only [DurableUpdateStore.execute, DurableUpdateStore.preflightRevokeCapability,
      Request.denial]
    split
    · rename_i outcome houtcome
      rw [h.resolveControlReceipt_eq houtcome]
    · rw [h.authorize_eq]
      rfl
  case revoke r =>
    obtain ⟨rfl, rfl, rfl⟩ := hp
    simp only [DurableUpdateStore.execute, DurableUpdateStore.revokeCapability,
      h.revokeCapability_eq, Request.denial]
    rfl
  case accept r =>
    obtain ⟨rfl, rfl, rfl⟩ := hp
    simp only [DurableUpdateStore.execute, DurableUpdateStore.accept, h.accept_eq, Request.denial]
    rfl
  case fetch r =>
    obtain ⟨rfl, rfl, rfl⟩ := hp
    simp only [DurableUpdateStore.execute, fetchAuthorized, h.authorize_eq, Request.denial,
      Bool.not_false, if_true]
  case enumerate r m =>
    obtain ⟨rfl, rfl, rfl⟩ := hp
    simp only [DurableUpdateStore.execute, DurableUpdateStore.enumerateAuthorized,
      h.authorizeDocument_eq, Request.denial, ite_self]
  case vectorBackfill r m =>
    obtain ⟨rfl, rfl, rfl⟩ := hp
    simp only [DurableUpdateStore.execute, DurableUpdateStore.vectorBackfillAuthorized,
      h.authorizeDocument_eq, Request.denial, ite_self]
  case subscribe r =>
    obtain ⟨rfl, rfl, rfl⟩ := hp
    simp only [DurableUpdateStore.execute, DurableUpdateStore.subscribeUpdates,
      h.authorize_eq, Request.denial, Bool.not_false, if_true, ite_self]
  all_goals exact absurd hp (by simp)

/-- **Unauthenticated requests reveal nothing.**  Two stores, however they were reached, answer a
request by a stranger to both with the same denial, and neither of them changes. -/
theorem stranger_denied (sha256 : List UInt8 → Bytes verifierLength)
    (history history' : List Request) (request : Request) (d : DocumentId) (c : CapabilityId)
    (a : Authenticator) (hp : request.presented? = some (d, c, a)) :
    let s := DurableUpdateStore.initial.run sha256 history
    let s' := DurableUpdateStore.initial.run sha256 history'
    Stranger sha256 s.tables d c a → Stranger sha256 s'.tables d c a →
      s.execute sha256 request = (request.denial, s) ∧
      s'.execute sha256 request = (request.denial, s') :=
  fun h h' ↦ ⟨h.execute_eq hp, h'.execute_eq hp⟩

/-- A fetch with the wrong secret, from a store that has the capability and from one that has
not. -/
theorem stranger_denied_sample :
    let s := DurableUpdateStore.initial.run Sample.sha256 []
    let s' := DurableUpdateStore.initial.run Sample.sha256 Sample.opening
    let request := Request.fetch ⟨Sample.document, ⟨Sample.bytes _ 7⟩, Sample.root, Sample.secret 9⟩
    s.execute Sample.sha256 request = (request.denial, s) ∧
    s'.execute Sample.sha256 request = (request.denial, s') :=
  stranger_denied Sample.sha256 [] Sample.opening _ _ _ _ rfl (by decide +kernel)
    (by decide +kernel)

end Hash

end Renee
