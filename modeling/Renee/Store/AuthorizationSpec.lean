import Renee.Store.Broker

/-!
# What authorization decides

`authorize_document` walks up from the presented capability, looks at the secret and the operation
where it starts and at revocation where it passes, and stops after `maxCapabilityDepth` nodes.  What
it is for has no walk in it: `Entitled` says that the secret is that of the capability and that the
whole chain, up to the root of the document, is unrevoked and includes the operation.

On reachable tables the two agree (`authorization_exact`).  A chain is never longer than the walk,
and what the presented capability includes is included all the way up, which is what makes one look
at the operation enough.
-/

set_option autoImplicit false

namespace Renee

open Ancestry

/-- A secret entitles to an operation on a document, through a capability. -/
structure Entitled (sha256 : List UInt8 → ByteString.Bytes verifierLength) (t : Tables)
    (d : DocumentId) (c : CapabilityId) (a : Authenticator) (operation : Operation) : Prop where
  /-- The capability is one of the document, and the secret is its secret. -/
  secret : ∃ row, t.capability? d c = some row ∧ verifyLive sha256 row.liveVerifier d c a = true
  /-- Its chain leads to the root of the document. -/
  rooted : ∃ document, t.document? d = some document ∧
    Descends (t.parent? d) c document.rootCapabilityId
  /-- No capability on the chain has been revoked. -/
  unrevoked : ∀ x, Descends (t.parent? d) c x →
    ∃ row, t.capability? d x = some row ∧ row.revoked = false
  /-- Every capability on the chain includes the operation. -/
  includes : ∀ x, Descends (t.parent? d) c x → t.hasOperation d x operation = true

variable {sha256 : List UInt8 → ByteString.Bytes verifierLength} {t : Tables} {d : DocumentId}
  {c : CapabilityId} {a : Authenticator} {operation : Operation}

/-- **The presented capability speaks for its chain.** -/
theorem ControlWellFormed.bears_iff_entitled (hw : ControlWellFormed t) :
    t.Bears sha256 d c a operation ↔ Entitled sha256 t d c a operation := by
  constructor
  · rintro ⟨row, hrow, hrev, hsecret, hop⟩
    exact {
      secret := ⟨row, hrow, hsecret⟩
      rooted := hw.descends_root hrow
      unrevoked := fun x hx ↦ (hw.forest d).active_of_descends ⟨row, hrow, hrev⟩ hx
      includes := fun x hx ↦ hw.hasOperation_of_descends hx hop }
  · intro h
    obtain ⟨row, hrow, hsecret⟩ := h.secret
    obtain ⟨row', hrow', hrev⟩ := h.unrevoked c (Descends.refl c)
    obtain rfl := Option.some_inj.mp (hrow.symm.trans hrow')
    exact ⟨row, hrow, hrev, hsecret, h.includes c (Descends.refl c)⟩

/-- One who is entitled is answered by the state of the document, and everyone else is denied. -/
theorem ControlWellFormed.authorizeDocument_eq (hw : ControlWellFormed t)
    (sha256 : List UInt8 → ByteString.Bytes verifierLength) (d : DocumentId) (c : CapabilityId)
    (a : Authenticator) (operation : Operation) :
    (Entitled sha256 t d c a operation →
      authorizeDocument sha256 t d c a operation = documentAuthorization t d) ∧
    (¬Entitled sha256 t d c a operation →
      authorizeDocument sha256 t d c a operation = .denied) := by
  rw [← hw.bears_iff_entitled, (hw.forest d).authorizeDocument_eq]
  exact ⟨fun h ↦ if_pos h, fun h ↦ if_neg h⟩

/-- **Authorization is exact.**  In every reachable store, a request is authorized exactly when its
secret entitles to the operation and the document is not retired; it is told that the document is
retired exactly when this is all that stands in its way; and it is denied in all other cases.  No
chain is longer than the walk, and an operation of a capability is one of its whole chain. -/
theorem authorization_exact (sha256 : List UInt8 → ByteString.Bytes verifierLength)
    (requests : List Request) (d : DocumentId) (c : CapabilityId) (a : Authenticator)
    (operation : Operation) :
    let t := (DurableUpdateStore.initial.run sha256 requests).tables
    (authorizeDocument sha256 t d c a operation = .authorized ↔
      Entitled sha256 t d c a operation ∧
        ∃ document, t.document? d = some document ∧ document.retired = false) ∧
    (authorizeDocument sha256 t d c a operation = .retired ↔
      Entitled sha256 t d c a operation ∧
        ∃ document, t.document? d = some document ∧ document.retired = true) ∧
    (authorizeDocument sha256 t d c a operation = .denied ↔
      ¬Entitled sha256 t d c a operation) ∧
    (∀ row, t.capability? d c = some row → Within (t.parent? d) maxCapabilityDepth c) ∧
    (t.hasOperation d c operation = true →
      ∀ x, Descends (t.parent? d) c x → t.hasOperation d x operation = true) := by
  intro t
  have hw : ControlWellFormed t := (DurableUpdateStore.wellFormed_runRequests
    DurableUpdateStore.wellFormed_initial requests).control
  obtain ⟨hentitled, hdenied⟩ := hw.authorizeDocument_eq sha256 d c a operation
  refine ⟨?_, ?_, ?_, fun row hrow ↦ hw.within hrow, fun hop x hx ↦
    hw.hasOperation_of_descends hx hop⟩
  all_goals
    by_cases h : Entitled sha256 t d c a operation
    · -- the document exists, so that its state is the answer
      obtain ⟨document, hdocument, -⟩ := h.rooted
      rw [hentitled h, documentAuthorization, hdocument]
      cases hretired : document.retired <;> simp [h, hretired]
    · simp [hdenied h, h]

end Renee
