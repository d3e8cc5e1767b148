import Mathlib.Algebra.Order.BigOperators.Group.List
import Mathlib.Algebra.Group.Action.Defs
import Mathlib.Algebra.Order.Ring.Nat
import Mathlib.Data.List.ProdSigma
import Renee.Store.AcceptSpec
import Renee.Store.Validate

/-!
# Well-formed tables

The invariant of the durable state, in terms of lookups rather than of the order rows come in.

* `ControlWellFormed` is about documents, capabilities and receipts: each document has one root
  capability, with every operation; every other capability hangs below an older one that allows its
  operations, and is revoked when that one is; chains are at most `maxCapabilityDepth` nodes long;
  the receipts agree with the capabilities they name and number one less than the revision; and the
  counts are within their limits.
* `UpdatesWellFormed` is about the log: the positions of a document are consecutive from one, every
  record decodes to the update its key names, and the range index and the peer union are those of
  the records.

The limits on logical bytes are not part of it.  They follow from the limits on counts
(`documentControlBytes_le`, `globalControlBytes_le`), which is why a creation may ignore them.
-/

set_option autoImplicit false

namespace Renee

open ByteString Relational Ancestry

/-! ## What a record says -/

/-- The update a row records. -/
def UpdateRow.update? (row : UpdateRow) : Option ImmutableUpdate :=
  (decodeUpdateRecord row.encodedRecord).toOption

/-- The rows a row contributes to the range index. -/
def UpdateRow.rangeRows (row : UpdateRow) : List UpdateLoroRangeRow :=
  (row.update?.map Renee.rangeRows).getD []

/-- The peers a row contributes to the union of its document. -/
def UpdateRow.peers (row : UpdateRow) : List U64 :=
  (row.update?.map fun update ↦ update.publicLoroRanges.peers).getD []

theorem UpdateRow.update?_eq_some_iff {row : UpdateRow} {update : ImmutableUpdate} :
    row.update? = some update ↔ decodeUpdateRecord row.encodedRecord = .ok update := by
  rw [update?]
  cases decodeUpdateRecord row.encodedRecord <;> simp [Except.toOption]

/-! ## The invariant -/

/-- A create receipt agrees with the root capability it created. -/
def CreateReceiptAgrees (t : Tables) (receipt : CreateReceiptRow) : Prop :=
  (t.createAuthorities.find? receipt.createAuthorityId).isSome = true ∧
  ∃ document root, t.document? receipt.documentId = some document ∧
    document.rootCapabilityId = receipt.rootCapabilityId ∧
    t.capability? receipt.documentId receipt.rootCapabilityId = some root ∧
    root.parentCapabilityId = none ∧
    receipt.normalizedInput = createInput receipt.documentId receipt.rootCapabilityId
      ⟨root.liveVerifier, root.receiptVerifier⟩

/-- A control receipt agrees with the capability it names. -/
def ControlReceiptAgrees (t : Tables) (receipt : ControlReceiptRow) : Prop :=
  (∃ issuer, t.capability? receipt.documentId receipt.issuerCapabilityId = some issuer) ∧
  match receipt.operation with
  | .grant => ∃ c row, t.capability? receipt.documentId c = some row ∧
      row.parentCapabilityId = some receipt.issuerCapabilityId ∧
      receipt.normalizedInput = grantInput c ⟨row.liveVerifier, row.receiptVerifier⟩
        (loadOperationSet t receipt.documentId c)
  | .revoke => ∃ c row, t.capability? receipt.documentId c = some row ∧ row.revoked = true ∧
      receipt.normalizedInput = revokeInput c

/-- Documents, capabilities and receipts are in order. -/
structure ControlWellFormed (t : Tables) : Prop where
  /-- A document has its root capability. -/
  root : ∀ {d document}, t.document? d = some document →
    ∃ row, t.capability? d document.rootCapabilityId = some row ∧
      row.parentCapabilityId = none ∧ row.createdRevision = .initial ∧
      ∀ operation, t.hasOperation d document.rootCapabilityId operation = true
  /-- No other capability is without a parent. -/
  root_unique : ∀ {d c row}, t.capability? d c = some row → row.parentCapabilityId = none →
    ∃ document, t.document? d = some document ∧ document.rootCapabilityId = c
  /-- A capability belongs to a document that is at least as far as its creation. -/
  document : ∀ {d c row}, t.capability? d c = some row →
    ∃ document, t.document? d = some document ∧
      row.createdRevision.get ≤ document.controlRevision.get
  /-- A parent is older, allows at least as much, and passes its revocation on. -/
  edge : ∀ {d c row p}, t.capability? d c = some row → row.parentCapabilityId = some p →
    ∃ row', t.capability? d p = some row' ∧
      row'.createdRevision.get < row.createdRevision.get ∧
      (∀ operation, t.hasOperation d c operation = true → t.hasOperation d p operation = true) ∧
      (row'.revoked = true → row.revoked = true)
  /-- Chains are bounded. -/
  within : ∀ {d c row}, t.capability? d c = some row → Within (t.parent? d) maxCapabilityDepth c
  /-- A capability has an operation. -/
  operations : ∀ {d c row}, t.capability? d c = some row →
    ∃ operation, t.hasOperation d c operation = true
  /-- An operation belongs to a capability. -/
  operation_capability : ∀ {d c operation}, t.hasOperation d c operation = true →
    ∃ row, t.capability? d c = some row
  /-- Every control receipt agrees with its capability. -/
  receipt : ∀ {receipt}, receipt ∈ t.controlReceipts.rows → ControlReceiptAgrees t receipt
  /-- The revision of a document counts its receipts. -/
  revision : ∀ {d document}, t.document? d = some document →
    document.controlRevision.get = receiptCount t d + 1
  /-- Every create receipt agrees with its root. -/
  createReceipt : ∀ {receipt}, receipt ∈ t.createReceipts.rows → CreateReceiptAgrees t receipt
  /-- There is one per document. -/
  createReceipts_length : t.documents.rows.length = t.createReceipts.rows.length
  childCount_le : ∀ d p, childCount t d p ≤ maxDirectCapabilityChildren
  capabilityCount_le : ∀ d, capabilityCount t d ≤ maxCapabilitiesPerDocument
  capabilities_le : t.capabilities.rows.length ≤ maxGlobalCapabilities
  receiptCount_le : ∀ d, receiptCount t d ≤ maxControlReceiptsPerDocument
  receipts_le : t.controlReceipts.rows.length ≤ maxGlobalControlReceipts
  documents_le : t.documents.rows.length ≤ maxGlobalDocuments
  authorityDocumentCount_le : ∀ i, authorityDocumentCount t i ≤ maxDocumentsPerCreateAuthority

/-- The log and what is derived from it are in order. -/
structure UpdatesWellFormed (t : Tables) : Prop where
  /-- The positions of a document are consecutive. -/
  positions : ∀ d, (t.log d).map (fun row ↦ row.acceptanceSequence.get) =
    List.range' 1 (t.log d).length
  /-- A record decodes to the update its row is about. -/
  record : ∀ {row}, row ∈ t.updates.rows → ∃ update, row.update? = some update ∧
    update.documentId = row.documentId ∧ update.updateId = row.updateId
  /-- The next position follows the log. -/
  next : ∀ {d row}, t.documentAcceptanceSequences.find? d = some row →
    row.nextSequence.get = (t.log d).length + 1
  /-- A document with a next position exists. -/
  sequence_document : ∀ {d row}, t.documentAcceptanceSequences.find? d = some row →
    (t.document? d).isSome = true
  /-- A document with an update has a next position. -/
  sequenced : ∀ {row}, row ∈ t.updates.rows →
    (t.documentAcceptanceSequences.find? row.documentId).isSome = true
  /-- The range index is that of the records. -/
  ranges : t.updateLoroRanges.rows.Perm (t.updates.rows.flatMap UpdateRow.rangeRows)
  /-- The peers of a document are those of its records. -/
  peers : ∀ {d peer}, (t.documentLoroPeers.find? (d, peer)).isSome = true ↔
    ∃ row ∈ t.log d, peer ∈ row.peers
  /-- There are not too many of them. -/
  peerCount_le : ∀ d, peerCount t d ≤ maxLoroPeers

/-- Everything is in order. -/
structure WellFormed (t : Tables) : Prop where
  control : ControlWellFormed t
  log : UpdatesWellFormed t

/-! ## Consequences for capabilities -/

namespace ControlWellFormed

variable {t : Tables} {d : DocumentId} {c : CapabilityId} (h : ControlWellFormed t)
include h

theorem forest (d : DocumentId) : t.Forest d where
  parent hrow hp := by
    obtain ⟨row', hrow', -, -, hrev⟩ := h.edge hrow hp
    exact ⟨row', hrow', hrev⟩
  within := h.within

/-- **The operations of a capability are all on every capability above it.** -/
theorem hasOperation_of_descends {c' : CapabilityId} (hd : Descends (t.parent? d) c c')
    {operation : Operation} (hop : t.hasOperation d c operation = true) :
    t.hasOperation d c' operation = true := by
  refine hd.closed (P := fun x ↦ t.hasOperation d x operation = true) (fun x y hxy hx ↦ ?_) hop
  obtain ⟨row, hrow, hp⟩ := Tables.parent?_eq_some_iff.mp hxy
  obtain ⟨row', -, -, hops, -⟩ := h.edge hrow hp
  exact hops operation hx

/-- **Every chain ends at the root of its document.** -/
theorem descends_root {row : CapabilityRow} (hrow : t.capability? d c = some row) :
    ∃ document, t.document? d = some document ∧
      Descends (t.parent? d) c document.rootCapabilityId := by
  -- down the bound on the chain
  have hw := h.within hrow
  generalize maxCapabilityDepth = n at hw
  induction n generalizing c row with
  | zero => exact absurd hw not_within_zero
  | succ n ih =>
    cases hp : row.parentCapabilityId with
    | none =>
      obtain ⟨document, hdocument, rfl⟩ := h.root_unique hrow hp
      exact ⟨document, hdocument, Descends.refl _⟩
    | some p =>
      have hparent : t.parent? d c = some p := (Tables.parent?_eq hrow).trans hp
      obtain ⟨row', hrow', -⟩ := h.edge hrow hp
      obtain ⟨document, hdocument, hdesc⟩ := ih hrow' (within_succ_iff.mp hw p hparent)
      exact ⟨document, hdocument, (Descends.of_parent hparent).trans hdesc⟩

end ControlWellFormed

/-! ## Logical bytes -/

/-- An operation row contributes to a document as its capability does: at most one per operation. -/
theorem length_filter_operations_le {t : Tables} (h : ControlWellFormed t)
    (p : DocumentId → Bool) :
    (t.capabilityOperations.rows.filter fun row ↦ p row.documentId).length ≤
      10 * (t.capabilities.rows.filter fun row ↦ p row.documentId).length := by
  -- the keys of the operation rows are among the pairs of a capability and an operation
  let keys := (t.capabilities.rows.filter fun row ↦ p row.documentId).map
    fun row ↦ (row.documentId, row.capabilityId)
  have hnodup : ((t.capabilityOperations.rows.filter fun row ↦ p row.documentId).map
      fun row ↦ ((row.documentId, row.capabilityId), row.operation)).Nodup := by
    refine List.Nodup.map_on ?_ (t.capabilityOperations.nodup_rows.filter _)
    intro x _ y _ hxy
    simp only [Prod.mk.injEq] at hxy
    exact CapabilityOperationRow.ext hxy.1.1 hxy.1.2 hxy.2
  have hsub : ((t.capabilityOperations.rows.filter fun row ↦ p row.documentId).map
      fun row ↦ ((row.documentId, row.capabilityId), row.operation)) ⊆
        keys ×ˢ Operation.all := by
    intro x hx
    obtain ⟨row, hrow, rfl⟩ := List.mem_map.mp hx
    rw [List.mem_filter] at hrow
    obtain ⟨cap, hcap⟩ := h.operation_capability (Tables.hasOperation_iff.mpr hrow.1)
    obtain ⟨hmem, hd, hc⟩ := Tables.capability?_eq_some_iff.mp hcap
    refine List.mem_product.mpr ⟨List.mem_map.mpr ⟨cap, ?_, by rw [hd, hc]⟩, Operation.mem_all _⟩
    exact List.mem_filter.mpr ⟨hmem, by rw [hd]; exact hrow.2⟩
  have hlen := (hnodup.subperm hsub).length_le
  rw [List.length_map, List.length_product, List.length_map] at hlen
  have hall : Operation.all.length = 10 := rfl
  rw [hall] at hlen
  omega

theorem length_input_le {t : Tables} {receipt : ControlReceiptRow}
    (h : ControlReceiptAgrees t receipt) : receipt.normalizedInput.length ≤ 82 := by
  obtain ⟨-, hop⟩ := h
  split at hop
  · obtain ⟨c, row, -, -, hinput⟩ := hop
    rw [hinput, length_grantInput]
  · obtain ⟨c, row, -, -, hinput⟩ := hop
    rw [hinput, length_revokeInput]
    decide

/-- A capability that does not exist has no operations. -/
theorem ControlWellFormed.operation_free {t : Tables} (h : ControlWellFormed t) {d : DocumentId}
    {c : CapabilityId} (hfresh : t.capability? d c = none) (operation : Operation) :
    t.hasOperation d c operation = false := by
  rw [← Bool.not_eq_true]
  intro hop
  obtain ⟨row, hrow⟩ := h.operation_capability hop
  exact absurd (hfresh.symm.trans hrow) (by simp)

/-- The logical bytes of the documents a condition picks out. -/
def controlBytesWhere (t : Tables) (p : DocumentId → Bool) : ℕ :=
  ((t.capabilities.rows.filter fun row ↦ p row.documentId).map CapabilityRow.logicalBytes).sum +
  ((t.capabilityOperations.rows.filter fun row ↦ p row.documentId).map
    CapabilityOperationRow.logicalBytes).sum +
  ((t.controlReceipts.rows.filter fun row ↦ p row.documentId).map
    ControlReceiptRow.logicalBytes).sum

theorem documentControlBytes_eq (t : Tables) (d : DocumentId) :
    documentControlBytes t d = controlBytesWhere t fun d' ↦ decide (d' = d) := rfl

theorem globalControlBytes_eq (t : Tables) :
    globalControlBytes t = controlBytesWhere t fun _ ↦ true := by
  simp only [globalControlBytes, controlBytesWhere, List.filter_true]

/-- **A capability costs at most 436 bytes and a receipt at most 115.** -/
theorem controlBytesWhere_le {t : Tables} (h : ControlWellFormed t) (p : DocumentId → Bool) :
    controlBytesWhere t p ≤
      436 * (t.capabilities.rows.filter fun row ↦ p row.documentId).length +
      115 * (t.controlReceipts.rows.filter fun row ↦ p row.documentId).length := by
  have hcaps : ((t.capabilities.rows.filter fun row ↦ p row.documentId).map
      CapabilityRow.logicalBytes).sum ≤
        (t.capabilities.rows.filter fun row ↦ p row.documentId).length * 106 := by
    rw [← List.length_map CapabilityRow.logicalBytes, ← smul_eq_mul]
    refine List.sum_le_card_nsmul _ _ fun x hx ↦ ?_
    obtain ⟨row, -, rfl⟩ := List.mem_map.mp hx
    simp only [CapabilityRow.logicalBytes, identifierLength, verifierLength]
    split <;> omega
  have hops : ((t.capabilityOperations.rows.filter fun row ↦ p row.documentId).map
      CapabilityOperationRow.logicalBytes).sum =
        (t.capabilityOperations.rows.filter fun row ↦ p row.documentId).length * 33 := by
    rw [← List.length_map CapabilityOperationRow.logicalBytes, ← smul_eq_mul]
    refine List.sum_eq_card_nsmul _ _ fun x hx ↦ ?_
    obtain ⟨row, -, rfl⟩ := List.mem_map.mp hx
    rfl
  have hreceipts : ((t.controlReceipts.rows.filter fun row ↦ p row.documentId).map
      ControlReceiptRow.logicalBytes).sum ≤
        (t.controlReceipts.rows.filter fun row ↦ p row.documentId).length * 115 := by
    rw [← List.length_map ControlReceiptRow.logicalBytes, ← smul_eq_mul]
    refine List.sum_le_card_nsmul _ _ fun x hx ↦ ?_
    obtain ⟨row, hrow, rfl⟩ := List.mem_map.mp hx
    have hinput := length_input_le (h.receipt (List.mem_filter.mp hrow).1)
    simp only [ControlReceiptRow.logicalBytes, identifierLength]
    omega
  have hoperations := length_filter_operations_le h p
  rw [controlBytesWhere]
  omega

/-- **No document reaches its byte limit.** -/
theorem documentControlBytes_le {t : Tables} (h : ControlWellFormed t) (d : DocumentId) :
    documentControlBytes t d ≤ maxDocumentControlBytes := by
  have hbytes := controlBytesWhere_le h fun d' ↦ decide (d' = d)
  have hcaps := h.capabilityCount_le d
  have hreceipts := h.receiptCount_le d
  rw [capabilityCount, List.countP_eq_length_filter] at hcaps
  rw [receiptCount, List.countP_eq_length_filter] at hreceipts
  rw [documentControlBytes_eq]
  simp only [maxCapabilitiesPerDocument, maxControlReceiptsPerDocument,
    maxDocumentControlBytes] at *
  omega

/-- **Nor does the store.** -/
theorem globalControlBytes_le {t : Tables} (h : ControlWellFormed t) :
    globalControlBytes t ≤ maxGlobalControlBytes := by
  have hbytes := controlBytesWhere_le h fun _ ↦ true
  have hcaps := h.capabilities_le
  have hreceipts := h.receipts_le
  rw [globalControlBytes_eq]
  simp only [List.filter_true, maxGlobalCapabilities, maxGlobalControlReceipts,
    maxGlobalControlBytes] at *
  omega

/-! ## Consequences for the log -/

namespace UpdatesWellFormed

variable {t : Tables} {d : DocumentId} (h : UpdatesWellFormed t)
include h

/-- The update at a position. -/
theorem getElem?_log {i : ℕ} {row : UpdateRow} (hrow : (t.log d)[i]? = some row) :
    row.acceptanceSequence.get = i + 1 := by
  have hmap := congrArg (fun l ↦ l[i]?) (h.positions d)
  obtain ⟨hi, -⟩ := List.getElem?_eq_some_iff.mp hrow
  simp only [List.getElem?_map, hrow, Option.map_some, List.getElem?_range' hi, Option.some_inj]
    at hmap
  omega

/-- A row of the log stands at its position. -/
theorem mem_log_iff_getElem? {row : UpdateRow} :
    row ∈ t.log d ↔ (t.log d)[row.acceptanceSequence.get - 1]? = some row := by
  constructor
  · intro hmem
    obtain ⟨i, hi⟩ := List.mem_iff_getElem?.mp hmem
    rw [h.getElem?_log hi, Nat.add_sub_cancel]
    exact hi
  · exact List.mem_of_getElem?

/-- Positions tell the updates of a document apart. -/
theorem eq_of_position_eq {row row' : UpdateRow} (hrow : row ∈ t.log d) (hrow' : row' ∈ t.log d)
    (heq : row.acceptanceSequence = row'.acceptanceSequence) : row = row' := by
  rw [h.mem_log_iff_getElem?] at hrow hrow'
  rw [heq, hrow'] at hrow
  exact (Option.some_inj.mp hrow).symm

theorem nextSequence_eq : (nextSequence t d).get = (t.log d).length + 1 := by
  rw [nextSequence]
  cases hseq : t.documentAcceptanceSequences.find? d with
  | some row => exact h.next hseq
  | none =>
    have hnil : t.log d = [] := by
      refine List.eq_nil_iff_forall_not_mem.mpr fun row hrow ↦ ?_
      obtain ⟨hmem, rfl⟩ := Tables.mem_log.mp hrow
      have := h.sequenced hmem
      rw [hseq] at this
      exact absurd this (by simp)
    rw [hnil]
    rfl

end UpdatesWellFormed

end Renee
