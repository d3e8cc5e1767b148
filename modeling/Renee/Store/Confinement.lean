import Renee.Store.Revocation

/-!
# Confinement

A party that can prove itself only as capabilities below some capability `c` is confined to what `c`
stands for: whatever it sends, the capabilities it brings about are below `c` and allow no more than
`c` does, the ones it revokes are below `c`, and it touches no other document.

* `Party.Presents t d c q` is the assumption about one request, made in the state the request
  arrives in: the secret it presents does not verify, or the capability it names is below `c`.  A
  hash that could be inverted would let a party present what it should not; nothing else about the
  hash matters here.
* `Confinement t t' d c` is the guarantee between two states.  It holds across one request
  (`confinement_serve`) and composes (`Confinement.trans`), so it holds across any number of them
  (`confinement_run`).
-/

set_option autoImplicit false

namespace Renee

open ByteString Relational Ancestry

/-! ## Requests of a party -/

/-- The requests a party without a create authority can make. -/
inductive PartyRequest
  | grant (r : GrantCommand)
  | revoke (r : RevokeCommand)
  | accept (r : AcceptCommand)
  /-- Any request that only reads, under the operation it asks for. -/
  | read (d : DocumentId) (c : CapabilityId) (a : Authenticator) (operation : Operation)

namespace PartyRequest

def documentId : PartyRequest → DocumentId
  | grant r => r.documentId
  | revoke r => r.documentId
  | accept r => r.update.documentId
  | read d _ _ _ => d

/-- The capability the request names. -/
def capabilityId : PartyRequest → CapabilityId
  | grant r => r.issuerCapabilityId
  | revoke r => r.issuerCapabilityId
  | accept r => r.capabilityId
  | read _ c _ _ => c

/-- The secret it presents. -/
def authenticator : PartyRequest → Authenticator
  | grant r => r.issuerAuthenticator
  | revoke r => r.issuerAuthenticator
  | accept r => r.authenticator
  | read _ _ a _ => a

/-- What it does to the tables. -/
def mutations : PartyRequest → List Mutation
  | grant r => [.grant r]
  | revoke r => [.revoke r]
  | accept r => [.accept r]
  | read .. => []

/-- The tables after a run of requests. -/
def serveAll (sha256 : List UInt8 → Bytes verifierLength) (t : Tables)
    (requests : List PartyRequest) : Tables :=
  t.run sha256 (requests.flatMap mutations)

theorem serveAll_cons (sha256 : List UInt8 → Bytes verifierLength) (t : Tables) (q : PartyRequest)
    (requests : List PartyRequest) :
    serveAll sha256 t (q :: requests) = serveAll sha256 (t.run sha256 q.mutations) requests := by
  rw [serveAll, List.flatMap_cons, Tables.run_append, serveAll]

/-- The secret a request presents verifies only if the capability it names is below `c`. -/
def Presents (sha256 : List UInt8 → Bytes verifierLength) (t : Tables) (d : DocumentId)
    (c : CapabilityId) (q : PartyRequest) : Prop :=
  (∃ row, t.capability? q.documentId q.capabilityId = some row ∧
    verifyLive sha256 row.liveVerifier q.documentId q.capabilityId q.authenticator = true) →
  q.documentId = d ∧ Descends (t.parent? d) q.capabilityId c

/-- A run of requests each of which presents no more than that. -/
def PresentsAll (sha256 : List UInt8 → Bytes verifierLength) (d : DocumentId) (c : CapabilityId) :
    Tables → List PartyRequest → Prop
  | _, [] => True
  | t, q :: requests =>
    q.Presents sha256 t d c ∧ PresentsAll sha256 d c (t.run sha256 q.mutations) requests

end PartyRequest

/-! ## What stays as it is elsewhere -/

/-- No row of a document other than `d` differs, in any table. -/
structure SameElsewhere (t t' : Tables) (d : DocumentId) : Prop where
  createAuthorities : t'.createAuthorities = t.createAuthorities
  createReceipts : t'.createReceipts = t.createReceipts
  documents : ∀ row, row.documentId ≠ d → (row ∈ t'.documents.rows ↔ row ∈ t.documents.rows)
  capabilities : ∀ row, row.documentId ≠ d →
    (row ∈ t'.capabilities.rows ↔ row ∈ t.capabilities.rows)
  capabilityOperations : ∀ row, row.documentId ≠ d →
    (row ∈ t'.capabilityOperations.rows ↔ row ∈ t.capabilityOperations.rows)
  controlReceipts : ∀ row, row.documentId ≠ d →
    (row ∈ t'.controlReceipts.rows ↔ row ∈ t.controlReceipts.rows)
  documentAcceptanceSequences : ∀ row, row.documentId ≠ d →
    (row ∈ t'.documentAcceptanceSequences.rows ↔ row ∈ t.documentAcceptanceSequences.rows)
  updates : ∀ row, row.documentId ≠ d → (row ∈ t'.updates.rows ↔ row ∈ t.updates.rows)
  updateLoroRanges : ∀ row, row.documentId ≠ d →
    (row ∈ t'.updateLoroRanges.rows ↔ row ∈ t.updateLoroRanges.rows)
  documentLoroPeers : ∀ row, row.documentId ≠ d →
    (row ∈ t'.documentLoroPeers.rows ↔ row ∈ t.documentLoroPeers.rows)

section Elsewhere

variable {t t' t'' : Tables} {d : DocumentId}

theorem SameElsewhere.refl (t : Tables) (d : DocumentId) : SameElsewhere t t d :=
  ⟨rfl, rfl, fun _ _ ↦ Iff.rfl, fun _ _ ↦ Iff.rfl, fun _ _ ↦ Iff.rfl, fun _ _ ↦ Iff.rfl,
    fun _ _ ↦ Iff.rfl, fun _ _ ↦ Iff.rfl, fun _ _ ↦ Iff.rfl, fun _ _ ↦ Iff.rfl⟩

theorem SameElsewhere.trans (h : SameElsewhere t t' d) (h' : SameElsewhere t' t'' d) :
    SameElsewhere t t'' d where
  createAuthorities := h'.createAuthorities.trans h.createAuthorities
  createReceipts := h'.createReceipts.trans h.createReceipts
  documents row hd := (h'.documents row hd).trans (h.documents row hd)
  capabilities row hd := (h'.capabilities row hd).trans (h.capabilities row hd)
  capabilityOperations row hd :=
    (h'.capabilityOperations row hd).trans (h.capabilityOperations row hd)
  controlReceipts row hd := (h'.controlReceipts row hd).trans (h.controlReceipts row hd)
  documentAcceptanceSequences row hd :=
    (h'.documentAcceptanceSequences row hd).trans (h.documentAcceptanceSequences row hd)
  updates row hd := (h'.updates row hd).trans (h.updates row hd)
  updateLoroRanges row hd := (h'.updateLoroRanges row hd).trans (h.updateLoroRanges row hd)
  documentLoroPeers row hd := (h'.documentLoroPeers row hd).trans (h.documentLoroPeers row hd)

/-- Rows that are added belong to `d`. -/
theorem mem_append_elsewhere {ρ : Type} {document : ρ → DocumentId} {rows added rows' : List ρ}
    (hrows : rows' = rows ++ added) (hadded : ∀ row ∈ added, document row = d) {row : ρ}
    (hd : document row ≠ d) : row ∈ rows' ↔ row ∈ rows := by
  rw [hrows, List.mem_append]
  exact or_iff_left fun hmem ↦ hd (hadded row hmem)

/-- Rows that are rewritten belong to `d`. -/
theorem mem_map_elsewhere {ρ : Type} {document : ρ → DocumentId} {f : ρ → ρ} {rows rows' : List ρ}
    (hrows : rows' = rows.map f) (hfix : ∀ row, document row ≠ d → f row = row)
    (hkeep : ∀ row, document (f row) = document row) {row : ρ} (hd : document row ≠ d) :
    row ∈ rows' ↔ row ∈ rows := by
  rw [hrows, List.mem_map]
  constructor
  · rintro ⟨old, hold, rfl⟩
    rw [hkeep] at hd
    rwa [hfix old hd]
  · exact fun hmem ↦ ⟨row, hmem, hfix row hd⟩

variable {sha256 : List UInt8 → Bytes verifierLength}

theorem documents_elsewhere {revision : ControlRevision}
    (hrows : t'.documents.rows = t.documents.rows.map (DocumentRow.setRevision d revision))
    (row : DocumentRow) (hd : row.documentId ≠ d) :
    row ∈ t'.documents.rows ↔ row ∈ t.documents.rows :=
  mem_map_elsewhere hrows (fun _ h ↦ DocumentRow.setRevision_of_ne h)
    (fun row ↦ DocumentRow.key_setRevision d revision row) hd

theorem Granted.sameElsewhere {r : GrantCommand} {revision : ControlRevision}
    (h : Granted sha256 t t' r revision) : SameElsewhere t t' r.documentId where
  createAuthorities := h.createAuthorities
  createReceipts := h.createReceipts
  documents := documents_elsewhere h.documents
  capabilities _ := mem_append_elsewhere h.capabilities
    (by simp [GrantCommand.descendantRow])
  capabilityOperations _ := mem_append_elsewhere h.capabilityOperations
    fun _ hrow ↦ (mem_operationRows.mp hrow).1
  controlReceipts _ := mem_append_elsewhere h.controlReceipts (by simp [GrantCommand.receiptRow])
  documentAcceptanceSequences _ _ := by rw [h.documentAcceptanceSequences]
  updates _ _ := by rw [h.updates]
  updateLoroRanges _ _ := by rw [h.updateLoroRanges]
  documentLoroPeers _ _ := by rw [h.documentLoroPeers]

theorem Revoked.sameElsewhere {r : RevokeCommand} {revision : ControlRevision}
    (h : Revoked sha256 t t' r revision) : SameElsewhere t t' r.documentId where
  createAuthorities := h.createAuthorities
  createReceipts := h.createReceipts
  documents := documents_elsewhere h.documents
  capabilities _ := mem_map_elsewhere h.capabilities
    (fun _ hd ↦ if_neg fun hk ↦ hd hk.1) fun _ ↦ CapabilityRow.revokeIn_documentId
  capabilityOperations _ _ := by rw [h.capabilityOperations]
  controlReceipts _ := mem_append_elsewhere h.controlReceipts (by simp [RevokeCommand.receiptRow])
  documentAcceptanceSequences _ _ := by rw [h.documentAcceptanceSequences]
  updates _ _ := by rw [h.updates]
  updateLoroRanges _ _ := by rw [h.updateLoroRanges]
  documentLoroPeers _ _ := by rw [h.documentLoroPeers]

theorem Accepted.sameElsewhere {c : CapabilityId} {a : Authenticator} {update : ImmutableUpdate}
    {row : UpdateRow} (h : Accepted sha256 t t' c a update row) :
    SameElsewhere t t' update.documentId where
  createAuthorities := h.createAuthorities
  createReceipts := h.createReceipts
  documents _ _ := by rw [h.documents]
  capabilities _ _ := by rw [h.capabilities]
  capabilityOperations _ _ := by rw [h.capabilityOperations]
  controlReceipts _ _ := by rw [h.controlReceipts]
  documentAcceptanceSequences row' hd := by
    have hfind := h.documentAcceptanceSequences row'.documentId
    rw [if_neg (Ne.symm hd)] at hfind
    have hself : ∀ table : Table AcceptanceSequenceRow,
        row' ∈ table.rows ↔ table.find? row'.documentId = some row' := fun table ↦
      (Table.find?_eq_some_iff.trans (and_iff_left rfl)).symm
    rw [hself, hself, hfind]
  updates _ := mem_append_elsewhere h.updates (by simp [h.row_document])
  updateLoroRanges _ := mem_append_elsewhere h.updateLoroRanges (by simp [rangeRows])
  documentLoroPeers _ := mem_append_elsewhere h.documentLoroPeers (by simp [peerRows])

end Elsewhere

/-! ## The guarantee -/

/-- What a confined party may have done between two states. -/
structure Confinement (t t' : Tables) (d : DocumentId) (c : CapabilityId) : Prop where
  /-- What is new is below `c` and allows no more. -/
  created : ∀ d' c' row, t.capability? d' c' = none → t'.capability? d' c' = some row →
    d' = d ∧ Descends (t'.parent? d) c' c ∧
      ∀ operation, t'.hasOperation d c' operation = true → t.hasOperation d c operation = true
  /-- What is newly revoked is below `c`. -/
  revoked : ∀ d' c', t'.IsRevoked d' c' → ¬t.IsRevoked d' c' →
    d' = d ∧ Descends (t'.parent? d) c' c
  /-- Nothing is reinstated. -/
  kept : ∀ d' c', t.IsRevoked d' c' → t'.IsRevoked d' c'
  /-- And other documents are as they were. -/
  elsewhere : SameElsewhere t t' d

section Guarantee

variable {sha256 : List UInt8 → Bytes verifierLength} {t t' t'' : Tables} {d : DocumentId}
  {c : CapabilityId}

theorem Confinement.refl (t : Tables) (d : DocumentId) (c : CapabilityId) :
    Confinement t t d c where
  created _ _ _ hnone hrow := absurd (hnone.symm.trans hrow) (by simp)
  revoked _ _ h hn := absurd h hn
  kept _ _ h := h
  elsewhere := .refl t d

theorem Confinement.trans {row : CapabilityRow} (h : Confinement t t' d c)
    (h' : Confinement t' t'' d c) (hp : Persists t t') (hp' : Persists t' t'')
    (hrow : t.capability? d c = some row) : Confinement t t'' d c where
  created d' c' row'' hnone hrow'' := by
    cases hmid : t'.capability? d' c' with
    | none =>
      obtain ⟨hd, hdesc, hops⟩ := h'.created d' c' row'' hmid hrow''
      exact ⟨hd, hdesc, fun operation hop ↦ by rw [← hp.operations hrow]; exact hops operation hop⟩
    | some row' =>
      obtain ⟨rfl, hdesc, hops⟩ := h.created d' c' row' hnone hmid
      exact ⟨rfl, hp'.descends hdesc, fun operation hop ↦ hops operation (by
        rwa [hp'.operations hmid] at hop)⟩
  revoked d' c' hrev hn := by
    by_cases hmid : t'.IsRevoked d' c'
    · obtain ⟨rfl, hdesc⟩ := h.revoked d' c' hmid hn
      exact ⟨rfl, hp'.descends hdesc⟩
    · exact h'.revoked d' c' hrev hmid
  kept d' c' hrev := h'.kept d' c' (h.kept d' c' hrev)
  elsewhere := h.elsewhere.trans h'.elsewhere

/-- What a party is authorized for is within the operations of `c`. -/
theorem PartyRequest.Presents.allowed {q : PartyRequest} (hq : q.Presents sha256 t d c)
    (hw : ControlWellFormed t) {operation : Operation}
    (h : authorizeDocument sha256 t q.documentId q.capabilityId q.authenticator operation ≠
      .denied) :
    q.documentId = d ∧ Descends (t.parent? d) q.capabilityId c ∧
      t.hasOperation d c operation = true := by
  obtain ⟨row, hrow, -, hsecret, hop⟩ := Tables.bears_of_authorizeDocument h
  obtain ⟨rfl, hdesc⟩ := hq ⟨row, hrow, hsecret⟩
  exact ⟨rfl, hdesc, hw.hasOperation_of_descends hdesc hop⟩

theorem authorizeDocument_ne_denied {a : Authenticator} {operation : Operation}
    (h : authorize sha256 t d c a operation = true) :
    authorizeDocument sha256 t d c a operation ≠ .denied := by
  rw [authorize, decide_eq_true_eq] at h
  rw [h]
  simp

theorem Granted.confinement {r : GrantCommand} {revision : ControlRevision}
    (h : Granted sha256 t t' r revision) (hw : WellFormed t)
    (hq : (PartyRequest.grant r).Presents sha256 t d c) : Confinement t t' d c := by
  obtain ⟨rfl, hdesc, -⟩ := hq.allowed hw.control (authorizeDocument_ne_denied h.authorized)
  exact
    { created := by
        intro d' c' row hnone hrow
        rcases h.attached.capability?_cases hrow with ⟨rfl, rfl, rfl⟩ | hold
        · refine ⟨rfl, ?_, fun operation hop ↦ ?_⟩
          · have hparent : t'.parent? r.documentId r.descendantCapabilityId =
              some r.issuerCapabilityId := h.attached.parent?_self
            exact (Descends.of_parent hparent).trans (h.persists.descends hdesc)
          · have hnew := (h.attached.hasOperation_self hw.control operation).symm.trans hop
            have hissuer := (OperationSet.allows_iff.mp h.attenuated).2 operation hnew
            rw [contains_loadOperationSet] at hissuer
            exact hw.control.hasOperation_of_descends hdesc hissuer
        · exact absurd (hnone.symm.trans hold) (by simp)
      revoked := by
        rintro d' c' ⟨row, hrow, hrev⟩ hn
        rcases h.attached.capability?_cases hrow with ⟨-, -, rfl⟩ | hold
        · exact absurd hrev (by simp [GrantCommand.descendantRow])
        · exact absurd ⟨row, hold, hrev⟩ hn
      kept := fun _ _ hrev ↦ hrev.persists h.persists
      elsewhere := h.sameElsewhere }

theorem Revoked.confinement {r : RevokeCommand} {revision : ControlRevision}
    (h : Revoked sha256 t t' r revision) (hw : WellFormed t)
    (hq : (PartyRequest.revoke r).Presents sha256 t d c) : Confinement t t' d c := by
  obtain ⟨rfl, hdesc, -⟩ := hq.allowed hw.control (authorizeDocument_ne_denied h.authorized)
  exact
    { created := by
        intro d' c' row hnone hrow
        obtain ⟨old, hold, -⟩ := h.capability?_some hrow
        exact absurd (hnone.symm.trans hold) (by simp)
      revoked := by
        intro d' c' hrev hn
        obtain ⟨rfl, hbelow⟩ := ((h.isRevoked_iff hw.control d' c').mp hrev).resolve_left hn
        exact ⟨rfl, h.persists.descends (hbelow.trans ((h.target hw.control).2.trans hdesc))⟩
      kept := fun _ _ hrev ↦ hrev.persists h.persists
      elsewhere := h.sameElsewhere }

theorem Accepted.confinement {r : AcceptCommand} {row : UpdateRow}
    (h : Accepted sha256 t t' r.capabilityId r.authenticator r.update row) (hw : WellFormed t)
    (hq : (PartyRequest.accept r).Presents sha256 t d c) : Confinement t t' d c := by
  obtain ⟨rfl, -⟩ := hq.allowed hw.control (authorizeDocument_ne_denied h.authorized)
  have hcapability : ∀ d' c', t'.capability? d' c' = t.capability? d' c' := fun d' c' ↦ by
    rw [Tables.capability?, h.capabilities]
    rfl
  exact
    { created := by
        intro d' c' row' hnone hrow
        rw [hcapability] at hrow
        exact absurd (hnone.symm.trans hrow) (by simp)
      revoked := by
        intro d' c' hrev hn
        rw [Tables.IsRevoked, hcapability] at hrev
        exact absurd hrev hn
      kept := fun _ _ hrev ↦ hrev.persists h.persists
      elsewhere := h.sameElsewhere }

/-- **One request of a confined party.** -/
theorem confinement_serve {q : PartyRequest} (hw : WellFormed t) (hq : q.Presents sha256 t d c) :
    Confinement t (t.run sha256 q.mutations) d c := by
  have hquiet : ∀ {t'}, t' = t → Confinement t t' d c := fun h ↦ h ▸ .refl t d c
  cases q with
  | grant r =>
    rcases t.apply_spec sha256 (.grant r) with h | h
    · exact hquiet h
    · cases h with | granted h => exact h.confinement hw hq
  | revoke r =>
    rcases t.apply_spec sha256 (.revoke r) with h | h
    · exact hquiet h
    · cases h with | revoked h => exact h.confinement hw hq
  | accept r =>
    rcases t.apply_spec sha256 (.accept r) with h | h
    · exact hquiet h
    · cases h with | accepted h _ _ => exact h.confinement hw hq
  | read d' c' a operation => exact .refl t d c

/-- **And any number of them.** -/
theorem confinement_serveAll {requests : List PartyRequest} {row : CapabilityRow}
    (hw : WellFormed t) (hrow : t.capability? d c = some row)
    (hparty : PartyRequest.PresentsAll sha256 d c t requests) :
    Confinement t (PartyRequest.serveAll sha256 t requests) d c := by
  induction requests generalizing t row with
  | nil => exact .refl t d c
  | cons q requests ih =>
    obtain ⟨hq, hrest⟩ := hparty
    have hw' : WellFormed (t.run sha256 q.mutations) := wellFormed_run hw q.mutations
    have hp : Persists t (t.run sha256 q.mutations) := persists_run hw q.mutations
    obtain ⟨row', hrow', -⟩ := hp.capability hrow
    rw [PartyRequest.serveAll_cons]
    exact (confinement_serve hw hq).trans (ih hw' hrow' hrest) hp (persists_run hw' _) hrow

/-- The authority of each request of a run. -/
theorem allowed_serveAll {before after : List PartyRequest} {q : PartyRequest}
    {row : CapabilityRow} {operation : Operation} (hw : WellFormed t)
    (hrow : t.capability? d c = some row)
    (hparty : PartyRequest.PresentsAll sha256 d c t (before ++ q :: after))
    (hne : authorizeDocument sha256 (PartyRequest.serveAll sha256 t before) q.documentId
      q.capabilityId q.authenticator operation ≠ .denied) :
    t.hasOperation d c operation = true := by
  induction before generalizing t row with
  | nil => exact (hparty.1.allowed hw.control hne).2.2
  | cons q₀ before ih =>
    have hp : Persists t (t.run sha256 q₀.mutations) := persists_run hw q₀.mutations
    obtain ⟨row', hrow', -⟩ := hp.capability hrow
    rw [PartyRequest.serveAll_cons] at hne
    have hop := ih (wellFormed_run hw q₀.mutations) hrow' hparty.2 hne
    rwa [hp.operations hrow] at hop

/-- **Confinement.**  Take any reachable store and any capability of it with its operations.  A
party whose secrets verify only below that capability, sending any sequence of requests, creates
nothing but descendants of it with no further operations, revokes nothing but what is below it, is
never authorized for an operation it does not have, and changes no row of another document. -/
theorem capability_confinement (before : List Mutation) (d : DocumentId) (c : CapabilityId)
    (operations : OperationSet) (requests : List PartyRequest)
    (hexists : ∃ row, (Tables.empty.run sha256 before).capability? d c = some row)
    (hoperations : loadOperationSet (Tables.empty.run sha256 before) d c = operations)
    (hparty : PartyRequest.PresentsAll sha256 d c (Tables.empty.run sha256 before) requests) :
    let t := Tables.empty.run sha256 before
    let t' := PartyRequest.serveAll sha256 t requests
    (∀ d' c' row, t.capability? d' c' = none → t'.capability? d' c' = some row →
      d' = d ∧ Descends (t'.parent? d) c' c ∧
        operations.allows (loadOperationSet t' d c') = true) ∧
    (∀ d' c', ¬(t'.IsRevoked d' c' ↔ t.IsRevoked d' c') →
      d' = d ∧ Descends (t'.parent? d) c' c) ∧
    (∀ before q after, requests = before ++ q :: after → ∀ operation,
      authorizeDocument sha256 (PartyRequest.serveAll sha256 t before) q.documentId
        q.capabilityId q.authenticator operation ≠ .denied →
      operations.contains operation = true) ∧
    SameElsewhere t t' d := by
  intro t t'
  have hw : WellFormed t := wellFormed_run wellFormed_empty before
  obtain ⟨row, hrow⟩ := hexists
  have hw' : WellFormed t' := wellFormed_run hw _
  have hconf : Confinement t t' d c := confinement_serveAll hw hrow hparty
  refine ⟨fun d' c' row' hnone hrow' ↦ ?_, fun d' c' hdiff ↦ ?_,
    fun before q after hsplit operation hne ↦ ?_, hconf.elsewhere⟩
  · obtain ⟨rfl, hdesc, hops⟩ := hconf.created d' c' row' hnone hrow'
    refine ⟨rfl, hdesc, OperationSet.allows_iff.mpr
      ⟨hw'.control.loadOperationSet_isEmpty hrow', fun operation hop ↦ ?_⟩⟩
    rw [contains_loadOperationSet] at hop
    rw [← hoperations, contains_loadOperationSet]
    exact hops operation hop
  · by_cases hrev : t.IsRevoked d' c'
    · exact absurd (iff_of_true (hconf.kept d' c' hrev) hrev) hdiff
    · refine hconf.revoked d' c' ?_ hrev
      by_contra hrev'
      exact hdiff (iff_of_false hrev' hrev)
  · rw [← hoperations, contains_loadOperationSet]
    exact allowed_serveAll hw hrow (hsplit ▸ hparty) hne

/-- The child revokes what it has granted. -/
def Sample.childRevoke : RevokeCommand :=
  ⟨Sample.document, Sample.child, Sample.secret 3, ⟨Sample.bytes _ 5⟩,
    Sample.childGrant.descendantCapabilityId⟩

/-- Its bearer tries its secret on the root of the other document. -/
def Sample.trying : GrantCommand :=
    { Sample.otherGrant with issuerAuthenticator := Sample.secret 3 }

/-- What the bearer has created is below the child and has no further operations, what has been
revoked is that, and the other document is as it was. -/
theorem capability_confinement_sample :
    let before := Sample.setup ++ [.create Sample.otherCreate]
    let t := Tables.empty.run Sha256.hash before
    let t' := PartyRequest.serveAll Sha256.hash t
      [.grant Sample.childGrant, .revoke Sample.childRevoke, .grant Sample.trying]
    let grandchild := Sample.childGrant.descendantCapabilityId
    t'.IsRevoked Sample.document grandchild ∧
      Descends (t'.parent? Sample.document) grandchild Sample.child ∧
      OperationSet.full.allows (loadOperationSet t' Sample.document grandchild) = true ∧
      SameElsewhere t t' Sample.document := by
  intro before t t' grandchild
  have hview : (t.capability? Sample.document Sample.child).isSome = true ∧
      loadOperationSet t Sample.document Sample.child = .full ∧
      t.capability? Sample.document grandchild = none ∧
      (t'.capability? Sample.document grandchild).any CapabilityRow.revoked = true ∧
      (((t.run Sha256.hash [.grant Sample.childGrant]).run Sha256.hash
        [.revoke Sample.childRevoke]).capability? Sample.trying.documentId
          Sample.trying.issuerCapabilityId).all (fun row ↦ !verifyLive Sha256.hash row.liveVerifier
            Sample.trying.documentId Sample.trying.issuerCapabilityId
              Sample.trying.issuerAuthenticator) = true := by
    decide +kernel
  obtain ⟨hexists, hfull, hnone, hrevoked, hdenied⟩ := hview
  obtain ⟨row, hrow, hrevoked⟩ := (Option.any_eq_true _ _).mp hrevoked
  have hparty : PartyRequest.PresentsAll Sha256.hash Sample.document Sample.child t
      [.grant Sample.childGrant, .revoke Sample.childRevoke, .grant Sample.trying] := by
    refine ⟨fun _ ↦ ⟨rfl, Descends.refl _⟩, fun _ ↦ ⟨rfl, Descends.refl _⟩, ?_, trivial⟩
    -- the secret does not verify on the other document
    rintro ⟨row, hrow, hverified⟩
    have hall := (Option.all_eq_true _ _).mp hdenied row hrow
    rw [Bool.not_eq_true'] at hall
    exact absurd (hall.symm.trans hverified) (by decide)
  obtain ⟨hcreated, -, -, helsewhere⟩ := capability_confinement before Sample.document Sample.child
    .full _ (Option.isSome_iff_exists.mp hexists) hfull hparty
  obtain ⟨-, hbelow, hallows⟩ := hcreated _ _ row hnone hrow
  exact ⟨⟨row, hrow, hrevoked⟩, hbelow, hallows, helsewhere⟩

end Guarantee

end Renee
