import Renee.Model.Capability
import Renee.Store.Run

/-!
# The store and the capability oracle

Where the store and `CapabilityModel` agree, and where they part.

* `Simulates` relates tables to a state of the oracle: the same documents, capabilities and
  receipts, the latter under their normalized input.
* On related states the walks of the oracle are the walks of the store (`isDescendant_eq_true_iff`,
  `issuerHasDescendantCapacity_eq_true_iff`), but for one: `authorizes_iff` says that the oracle
  authorizes what the store does, provided the chain has no more than 63 nodes.
* `grant_agrees` and `revoke_agrees` are one step of the simulation, on tables that are `Shallow`.
-/

set_option autoImplicit false

namespace Renee

open ByteString Relational Ancestry

/-! ## The relation -/

/-- A capability as the oracle has it. -/
def CapabilityRow.toModel (t : Tables) (row : CapabilityRow) : ModelCapability :=
  ⟨loadOperationSet t row.documentId row.capabilityId, row.parentCapabilityId, row.revoked,
    ⟨row.liveVerifier, row.receiptVerifier⟩⟩

/-- The kind of request a receipt of the oracle is for. -/
def ReceiptInput.operation : ReceiptInput → ControlOperation
  | .grant .. => .grant
  | .revoke _ => .revoke

/-- Its input, normalized as the store does. -/
def ReceiptInput.normalized : ReceiptInput → List UInt8
  | .grant descendantId verifiers operations => grantInput descendantId verifiers operations
  | .revoke targetId => revokeInput targetId

theorem ReceiptInput.eq_iff {input input' : ReceiptInput} :
    input = input' ↔ input.operation = input'.operation ∧ input.normalized = input'.normalized := by
  refine ⟨fun h ↦ h ▸ ⟨rfl, rfl⟩, fun ⟨hop, hnorm⟩ ↦ ?_⟩
  cases input with
  | grant c v s =>
    cases input' with
    | grant c' v' s' =>
      obtain ⟨rfl, rfl, rfl⟩ := grantInput_injective hnorm
      rfl
    | revoke c' => exact absurd hop (by simp [operation])
  | revoke c =>
    cases input' with
    | grant c' v' s' => exact absurd hop (by simp [operation])
    | revoke c' => rw [revokeInput_injective hnorm]

/-- The answer the store gives where the oracle gives this one. -/
def ControlOutcome.toStore : ControlOutcome → StoreControlOutcome
  | .inserted => .inserted
  | .alreadyPresent => .alreadyPresent
  | .authorizationDenied => .authorizationDenied
  | .identifierConflict => .identifierConflict
  | .requestConflict => .requestConflict
  | .counterExhausted => .counterExhausted

/-- One document of the oracle is the document of the tables. -/
structure SimulatesDocument (t : Tables) (d : DocumentId) (document : CapabilityDocument) :
    Prop where
  capability : ∀ c, document.capabilities.get? c = (t.capability? d c).map (CapabilityRow.toModel t)
  receipt : ∀ c requestId,
    (document.receipts.get? (toLex (c, requestId))).map
        (fun input ↦ (input.operation, input.normalized)) =
      (t.controlReceipts.find? (d, c, requestId)).map
        (fun receipt ↦ (receipt.operation, receipt.normalizedInput))

/-- The tables hold what the oracle does, and every document is active. -/
structure Simulates (t : Tables) (m : CapabilityModel) : Prop where
  revision : ∀ d, (m.documents.get? d).map CapabilityDocument.revision =
    (t.document? d).map fun document ↦ document.controlRevision.get
  active : ∀ {d document}, t.document? d = some document → document.retired = false
  document : ∀ {d document}, m.documents.get? d = some document → SimulatesDocument t d document

/-- No chain has more than 63 nodes. -/
def Tables.Shallow (t : Tables) : Prop :=
  ∀ d c row, t.capability? d c = some row → Within (t.parent? d) (maxCapabilityDepth - 1) c

/-! ## Walks -/

section Walks

variable {t : Tables} {d : DocumentId} {document : CapabilityDocument}

theorem reaches_eq_isDescendantFrom {parent : CapabilityId → Option CapabilityId}
    (hparent : ∀ c, (document.capabilities.get? c).bind ModelCapability.parent = parent c)
    (ancestorId : CapabilityId) (iterations : ℕ) (c : CapabilityId) :
    isDescendantFrom document ancestorId iterations (some c) =
      reaches parent ancestorId iterations c := by
  induction iterations generalizing c with
  | zero => rfl
  | succ iterations ih =>
    rw [isDescendantFrom, reaches, hparent]
    cases hp : parent c with
    | none => cases iterations <;> rfl
    | some p => rw [ih p]

namespace SimulatesDocument

variable (h : SimulatesDocument t d document)
include h

theorem parent_eq (c : CapabilityId) :
    (document.capabilities.get? c).bind ModelCapability.parent = t.parent? d c := by
  rw [h.capability, Tables.parent?]
  cases t.capability? d c <;> rfl

theorem isDescendant_eq_true_iff (hw : ControlWellFormed t) {c ancestorId : CapabilityId}
    {row : CapabilityRow} (hrow : t.capability? d c = some row) :
    isDescendant document ancestorId c = true ↔ Descends (t.parent? d) c ancestorId := by
  rw [isDescendant, reaches_eq_isDescendantFrom h.parent_eq]
  exact (hw.within hrow).reaches_iff

theorem issuerHasDescendantCapacity_eq (issuer : CapabilityId) :
    document.issuerHasDescendantCapacity issuer = issuerHasDescendantCapacity t d issuer := by
  suffices hfrom : ∀ iterations nodeCount c, nodeCount + iterations = 65 →
      hasDescendantCapacityFrom document nodeCount iterations c =
        issuerHasDescendantCapacityFrom t d iterations c from hfrom 64 1 issuer rfl
  intro iterations
  induction iterations with
  | zero => exact fun _ _ _ ↦ rfl
  | succ iterations ih =>
    intro nodeCount c hcount
    rw [hasDescendantCapacityFrom, issuerHasDescendantCapacityFrom, h.capability]
    cases t.capability? d c with
    | none => rfl
    | some row =>
      simp only [Option.map_some, CapabilityRow.toModel]
      cases row.parentCapabilityId with
      | none => simp only [decide_eq_decide]; omega
      | some p => exact ih (nodeCount + 1) p (by omega)

/-- **The walk of the oracle has to end an iteration early.** -/
theorem authorizesFrom_iff (hw : ControlWellFormed t) {c : CapabilityId} (hc : t.Active d c)
    (iterations : ℕ) :
    authorizesFrom document (iterations + 1) (some c) = true ↔
      Within (t.parent? d) iterations c := by
  induction iterations generalizing c with
  | zero =>
    obtain ⟨row, hrow, hrev⟩ := hc
    rw [authorizesFrom, h.capability, hrow]
    simp [CapabilityRow.toModel, hrev, authorizesFrom, not_within_zero]
  | succ iterations ih =>
    have hforest := hw.forest d
    obtain ⟨row, hrow, hrev⟩ := hc
    rw [authorizesFrom, h.capability, hrow, within_succ_iff, Tables.parent?_eq hrow]
    simp only [Option.map_some, CapabilityRow.toModel, hrev, Bool.false_eq_true, if_false]
    cases hp : row.parentCapabilityId with
    | none => simp [authorizesFrom]
    | some p =>
      have hact : t.Active d p := hforest.active_of_descends ⟨row, hrow, hrev⟩
        (Descends.of_parent ((Tables.parent?_eq hrow).trans hp))
      rw [ih hact]
      simp

end SimulatesDocument

end Walks

/-! ## Decisions -/

section Decisions

variable {sha256 : List UInt8 → Bytes verifierLength} {t : Tables} {m : CapabilityModel}
  {d : DocumentId} {c : CapabilityId} {a : Authenticator} {operation : Operation}

theorem Simulates.document_of_capability (h : Simulates t m) (hw : ControlWellFormed t)
    {row : CapabilityRow} (hrow : t.capability? d c = some row) :
    ∃ document row, m.documents.get? d = some document ∧ t.document? d = some row ∧
      document.revision = row.controlRevision.get ∧ row.retired = false := by
  obtain ⟨row, hdocument, -⟩ := hw.document hrow
  have hrevision := h.revision d
  rw [hdocument, Option.map_some, Option.map_eq_some_iff] at hrevision
  obtain ⟨document, hmodel, hrevision⟩ := hrevision
  exact ⟨document, row, hmodel, hdocument, hrevision, h.active hdocument⟩

/-- **What the oracle authorizes**: what a capability bears, on a chain of at most 63 nodes. -/
theorem Simulates.authorizes_iff (h : Simulates t m) (hw : ControlWellFormed t) :
    m.authorizes sha256 d c a operation = true ↔
      t.Bears sha256 d c a operation ∧ Within (t.parent? d) (maxCapabilityDepth - 1) c := by
  cases hrow : t.capability? d c with
  | none =>
    have hnone : ¬t.Bears sha256 d c a operation := by
      rintro ⟨row, hrow', -⟩
      exact absurd (hrow.symm.trans hrow') (by simp)
    simp only [hnone, false_and, iff_false, Bool.not_eq_true]
    rw [CapabilityModel.authorizes]
    cases hmodel : m.documents.get? d with
    | none => rfl
    | some document => simp only [(h.document hmodel).capability, hrow, Option.map_none]
  | some row =>
    obtain ⟨document, -, hmodel, -⟩ := h.document_of_capability hw hrow
    have hsim := h.document hmodel
    obtain ⟨-, hd, hc⟩ := Tables.capability?_eq_some_iff.mp hrow
    have hbears : t.Bears sha256 d c a operation ↔ row.revoked = false ∧
        verifyLive sha256 row.liveVerifier d c a = true ∧ t.hasOperation d c operation = true := by
      rw [Tables.Bears, hrow]
      simp
    rw [hbears, CapabilityModel.authorizes, hmodel]
    simp only [hsim.capability, hrow, Option.map_some, CapabilityRow.toModel,
      contains_loadOperationSet, hd, hc]
    rw [verifyLive, decide_eq_true_eq]
    by_cases hrev : row.revoked = true
    · -- the walk stops where it starts
      simp only [hrev, Bool.true_eq_false, false_and, iff_false, Bool.not_eq_true]
      rw [authorizesFrom, hsim.capability, hrow]
      simp [CapabilityRow.toModel, hrev]
    · rw [Bool.not_eq_true] at hrev
      rw [← hsim.authorizesFrom_iff hw ⟨row, hrow, hrev⟩]
      split
      · rename_i hno
        exact ⟨fun h ↦ absurd h (by simp), fun h ↦ absurd ⟨h.1.2.1, h.1.2.2⟩ (not_and_or.mpr hno)⟩
      · rename_i hyes
        rw [not_or, not_not, not_not] at hyes
        exact ⟨fun h ↦ ⟨⟨hrev, hyes.1, hyes.2⟩, h⟩, And.right⟩

/-- **On shallow tables the decisions are the same.** -/
theorem Simulates.authorizes_eq (h : Simulates t m) (hw : ControlWellFormed t) (hs : t.Shallow) :
    m.authorizes sha256 d c a operation = authorize sha256 t d c a operation := by
  rw [Bool.eq_iff_iff, h.authorizes_iff hw, (hw.forest d).authorize_iff]
  refine and_congr_right fun ⟨row, hrow, _⟩ ↦ ?_
  obtain ⟨-, document, -, hdocument, -, hactive⟩ := h.document_of_capability hw hrow
  exact iff_of_true (hs d c row hrow) ⟨document, hdocument, hactive⟩

theorem Simulates.isActiveDescendant_eq (h : Simulates t m) (hw : ControlWellFormed t)
    (d : DocumentId) (issuer target : CapabilityId) :
    m.isActiveDescendant d issuer target = isActiveDescendant t d issuer target := by
  rw [Bool.eq_iff_iff, (hw.forest d).isActiveDescendant_iff, CapabilityModel.isActiveDescendant]
  cases hrow : t.capability? d target with
  | none =>
    have hnot : ¬t.Active d target := fun ⟨row, hrow', _⟩ ↦ by simp [hrow] at hrow'
    cases hmodel : m.documents.get? d with
    | none => simp [hnot]
    | some document => simp [(h.document hmodel).capability, hrow, hnot]
  | some row =>
    obtain ⟨document, -, hmodel, -⟩ := h.document_of_capability hw hrow
    have hactive : t.Active d target ↔ row.revoked = false := by simp [Tables.Active, hrow]
    rw [hmodel, Option.any_some, (h.document hmodel).capability, hrow, Option.map_some,
      Option.any_some, Bool.and_eq_true, (h.document hmodel).isDescendant_eq_true_iff hw hrow,
      hactive]
    simp [CapabilityRow.toModel]

/-- Receipts answer alike. -/
theorem Simulates.receiptOutcome_eq (h : Simulates t m) (hw : ControlWellFormed t)
    (requestId : RequestId) (input : ReceiptInput) :
    (m.receiptOutcome sha256 d c a requestId input).map ControlOutcome.toStore =
      resolveControlReceipt sha256 t d c a requestId input.operation input.normalized := by
  rw [resolveControlReceipt, CapabilityModel.receiptOutcome]
  cases hreceipt : t.controlReceipts.find? (d, c, requestId) with
  | none =>
    cases hmodel : m.documents.get? d with
    | none => rfl
    | some document =>
      have hnone := (h.document hmodel).receipt c requestId
      rw [hreceipt, Option.map_none, Option.map_eq_none_iff] at hnone
      simp only [hnone, Option.map_none]
  | some receipt =>
    have hkey : (receipt.documentId, receipt.issuerCapabilityId, receipt.requestId) =
      (d, c, requestId) := Table.key_of_find?_eq_some hreceipt
    simp only [Prod.mk.injEq] at hkey
    obtain ⟨⟨issuer, hissuer⟩, -⟩ := hw.receipt (Table.mem_of_find?_eq_some hreceipt)
    rw [hkey.1, hkey.2.1] at hissuer
    obtain ⟨document, -, hmodel, -⟩ := h.document_of_capability hw hissuer
    have hsome := (h.document hmodel).receipt c requestId
    rw [hreceipt, Option.map_some, Option.map_eq_some_iff] at hsome
    obtain ⟨stored, hstored, heq⟩ := hsome
    obtain ⟨hop, hnorm⟩ := Prod.mk_inj.mp heq
    have hderive : (modelVerifiers sha256 d c a).receipt = deriveDomain sha256 receiptDomain
        d c a :=
      rfl
    simp only [hmodel, hstored, (h.document hmodel).capability, hissuer, Option.map_some, hderive,
      CapabilityRow.toModel, verifyReceipt, decide_eq_true_eq, ReceiptInput.eq_iff, hop, hnorm]
    by_cases hv : issuer.receiptVerifier = deriveDomain sha256 receiptDomain d c a
    · rw [if_neg (not_not.mpr hv), if_neg (not_not.mpr hv)]
      split <;> rfl
    · rw [if_pos hv, if_pos hv]
      rfl

end Decisions

/-! ## Effects -/

section Effects

variable {sha256 : List UInt8 → Bytes verifierLength} {t t' : Tables} {m : CapabilityModel}

theorem CapabilityRow.toModel_congr {row : CapabilityRow}
    (h : ∀ operation, t'.hasOperation row.documentId row.capabilityId operation =
      t.hasOperation row.documentId row.capabilityId operation) :
    row.toModel t' = row.toModel t := by
  rw [toModel, toModel, loadOperationSet_congr h]

/-- What the oracle sees of the capabilities after one has been attached. -/
theorem Attached.map_toModel {row : CapabilityRow} {operations : OperationSet}
    (h : Attached t t' row operations) (hw : ControlWellFormed t) (d : DocumentId)
    (c : CapabilityId) :
    (t'.capability? d c).map (CapabilityRow.toModel t') =
      if row.documentId = d ∧ row.capabilityId = c then
        some ⟨operations, row.parentCapabilityId, row.revoked,
          ⟨row.liveVerifier, row.receiptVerifier⟩⟩
      else (t.capability? d c).map (CapabilityRow.toModel t) := by
  rw [h.capability?_eq]
  split
  · rw [Option.map_some, CapabilityRow.toModel, h.loadOperationSet_self hw]
  · cases hrow : t.capability? d c with
    | none => rfl
    | some old =>
      obtain ⟨-, rfl, rfl⟩ := Tables.capability?_eq_some_iff.mp hrow
      rw [Option.map_some, Option.map_some,
        CapabilityRow.toModel_congr (h.hasOperation_old hrow)]

/-- A document the oracle does not touch is one the tables do not touch. -/
theorem SimulatesDocument.congr {d : DocumentId} {document : CapabilityDocument}
    (h : SimulatesDocument t d document)
    (hcapability : ∀ c, (t'.capability? d c).map (CapabilityRow.toModel t') =
      (t.capability? d c).map (CapabilityRow.toModel t))
    (hreceipt : ∀ c requestId, t'.controlReceipts.find? (d, c, requestId) =
      t.controlReceipts.find? (d, c, requestId)) : SimulatesDocument t' d document where
  capability c := (h.capability c).trans (hcapability c).symm
  receipt c requestId := by rw [hreceipt]; exact h.receipt c requestId

/-- One more receipt, on both sides. -/
theorem SimulatesDocument.receipt_insert {d : DocumentId} {document : CapabilityDocument}
    (h : SimulatesDocument t d document) {receipt : ControlReceiptRow} {input : ReceiptInput}
    (hrows : t'.controlReceipts.rows = t.controlReceipts.rows ++ [receipt])
    (hd : receipt.documentId = d)
    (hfresh : t.controlReceipts.find? (d, receipt.issuerCapabilityId, receipt.requestId) = none)
    (hinput : (input.operation, input.normalized) =
      (receipt.operation, receipt.normalizedInput)) (c : CapabilityId) (requestId : RequestId) :
    ((document.receipts.insert (toLex (receipt.issuerCapabilityId, receipt.requestId)) input).get?
        (toLex (c, requestId))).map (fun input ↦ (input.operation, input.normalized)) =
      (t'.controlReceipts.find? (d, c, requestId)).map
        (fun receipt ↦ (receipt.operation, receipt.normalizedInput)) := by
  rw [OrderedMap.get?_insert, Table.find?_of_rows_append hrows]
  have hkey : (Keyed.key receipt = (d, c, requestId)) ↔
      toLex (receipt.issuerCapabilityId, receipt.requestId) = toLex (c, requestId) := by
    subst hd
    rw [toLex_inj, show Keyed.key receipt = (receipt.documentId, receipt.issuerCapabilityId,
      receipt.requestId) from rfl, Prod.mk_inj, and_iff_right rfl]
  by_cases hk : toLex (receipt.issuerCapabilityId, receipt.requestId) = toLex (c, requestId)
  · obtain ⟨rfl, rfl⟩ := Prod.mk_inj.mp (toLex_inj.mp hk)
    rw [if_pos rfl, hfresh, if_pos (hkey.mpr rfl), Option.none_or, Option.map_some,
      Option.map_some, hinput]
  · rw [if_neg hk, if_neg (fun he ↦ hk (hkey.mp he)), Option.or_none]
    exact h.receipt c requestId

theorem Created.simulates {r : CreateCommand} (h : Created sha256 t t' r)
    (hw : ControlWellFormed t) (hsim : Simulates t m) :
    Simulates t' (m.createDocument sha256 r.documentId r.rootCapabilityId
      r.rootAuthenticator).2 := by
  have hfresh := h.document_fresh
  have hnone : m.documents.get? r.documentId = none := by
    have hrevision := hsim.revision r.documentId
    rwa [hfresh, Option.map_none, Option.map_eq_none_iff] at hrevision
  have hcapability := hw.capability?_of_document? hfresh
  have hat := h.attached (hcapability _)
  have hdocument : ∀ d, t'.document? d = if r.documentId = d then some r.documentRow else
      t.document? d := document?_of_append h.documents hfresh
  rw [CapabilityModel.createDocument, hnone]
  refine ⟨fun d ↦ ?_, fun {d row} hrow ↦ ?_, fun {d document} hmodel ↦ ?_⟩
  · rw [OrderedMap.get?_insert, hdocument]
    split
    · rfl
    · exact hsim.revision d
  · rw [hdocument] at hrow
    split at hrow
    · exact Option.some_inj.mp hrow ▸ rfl
    · exact hsim.active hrow
  · rw [OrderedMap.get?_insert] at hmodel
    split at hmodel
    · rename_i hd
      obtain rfl : r.documentId = d := hd
      obtain rfl := Option.some_inj.mp hmodel
      refine ⟨fun c ↦ ?_, fun c requestId ↦ ?_⟩
      · rw [OrderedMap.get?_insert, hat.map_toModel hw, hcapability c]
        by_cases hc : r.rootCapabilityId = c
        · rw [if_pos hc, if_pos ⟨rfl, hc⟩]
          rfl
        · rw [if_neg hc, if_neg (fun he ↦ hc he.2)]
          rfl
      · rw [h.controlReceipts, hw.receipt_of_capability? (hcapability c)]
        rfl
    · rename_i hd
      refine (hsim.document hmodel).congr (fun c ↦ ?_) (fun c requestId ↦ by rw [h.controlReceipts])
      rw [hat.map_toModel hw, if_neg (fun he ↦ hd he.1)]

/-- A committed control operation on one document. -/
theorem Simulates.commit (hsim : Simulates t m) {d : DocumentId} {revision : ControlRevision}
    (hrows : t'.documents.rows = t.documents.rows.map (DocumentRow.setRevision d revision))
    (hnext : nextControlRevision t d = some revision) {document : CapabilityDocument}
    (hrevision : document.revision = revision.get) (hdocument : SimulatesDocument t' d document)
    (hother : ∀ {d' document'}, d ≠ d' → SimulatesDocument t d' document' →
      SimulatesDocument t' d' document') : Simulates t' ⟨m.documents.insert d document⟩ := by
  refine ⟨fun d' ↦ ?_, fun {d' row'} hrow' ↦ ?_, fun {d' document'} hmodel ↦ ?_⟩
  · rw [OrderedMap.get?_insert, document?_of_setRevision hrows]
    split
    · rename_i hd
      obtain ⟨row, hrow, -, -⟩ := nextControlRevision_eq_some_iff.mp hnext
      have hkey : row.documentId = d := Table.key_of_find?_eq_some hrow
      rw [← hd, hrow, Option.map_some, Option.map_some, Option.map_some,
        DocumentRow.setRevision_of_eq hkey, hrevision]
    · rename_i hd
      rw [hsim.revision, Option.map_map]
      refine Option.map_congr fun row hrow ↦ ?_
      have hkey : row.documentId = d' := Table.key_of_find?_eq_some hrow
      rw [Function.comp_apply, DocumentRow.setRevision_of_ne (fun he ↦ hd (he.symm.trans hkey))]
  · rw [document?_of_setRevision hrows, Option.map_eq_some_iff] at hrow'
    obtain ⟨row, hrow, rfl⟩ := hrow'
    rw [DocumentRow.setRevision_retired]
    exact hsim.active hrow
  · rw [OrderedMap.get?_insert] at hmodel
    split at hmodel
    · rename_i hd
      exact hd ▸ Option.some_inj.mp hmodel ▸ hdocument
    · rename_i hd
      exact hother hd (hsim.document hmodel)

theorem Granted.simulates {r : GrantCommand} {revision : ControlRevision}
    (h : Granted sha256 t t' r revision) (hw : ControlWellFormed t) (hsim : Simulates t m)
    {document : CapabilityDocument} (hmodel : m.documents.get? r.documentId = some document) :
    Simulates t' ⟨m.documents.insert r.documentId (document.granted sha256 r revision.get)⟩ := by
  have hdoc := hsim.document hmodel
  refine hsim.commit h.documents h.next_revision rfl ⟨fun c ↦ ?_, fun c requestId ↦ ?_⟩ ?_
  · rw [h.attached.map_toModel hw, CapabilityDocument.granted, OrderedMap.get?_insert]
    by_cases hc : r.descendantCapabilityId = c
    · rw [if_pos hc, if_pos ⟨rfl, hc⟩]
      rfl
    · rw [if_neg hc, if_neg (fun he ↦ hc he.2)]
      exact hdoc.capability c
  · exact hdoc.receipt_insert h.controlReceipts rfl h.request_fresh rfl c requestId
  · intro d' document' hd hdoc'
    refine hdoc'.congr (fun c ↦ ?_) (fun c requestId ↦ ?_)
    · rw [h.attached.map_toModel hw, if_neg (fun he ↦ hd he.1)]
    · exact Table.find?_of_rows_append_ne h.controlReceipts
        fun he ↦ hd (congrArg Prod.fst he)

/-! ### Revoking below a target -/

theorem isDescendant_congr {document document' : CapabilityDocument}
    (h : ∀ c, (document'.capabilities.get? c).bind ModelCapability.parent =
      (document.capabilities.get? c).bind ModelCapability.parent) (ancestorId c : CapabilityId) :
    isDescendant document' ancestorId c = isDescendant document ancestorId c := by
  rw [isDescendant, isDescendant, reaches_eq_isDescendantFrom h,
    reaches_eq_isDescendantFrom fun _ ↦ rfl]

/-- **What the loop over the keys leaves.** -/
theorem get?_revokeDescendants (document : CapabilityDocument) (targetId c : CapabilityId) :
    (document.revokeDescendants targetId).capabilities.get? c =
      (document.capabilities.get? c).map fun capability ↦
        { capability with revoked := capability.revoked || isDescendant document targetId c } := by
  -- after the keys `done`, those of them below the target are revoked, and parents are as before
  let revokeIf (done : List CapabilityId) (c : CapabilityId) (capability : ModelCapability) :
      ModelCapability :=
    { capability with
      revoked := capability.revoked || (decide (c ∈ done) && isDescendant document targetId c) }
  suffices hfold : ∀ (keys done : List CapabilityId) (current : CapabilityDocument),
      (∀ c, current.capabilities.get? c = (document.capabilities.get? c).map (revokeIf done c)) →
      ∀ c, (keys.foldl (fun document capabilityId ↦
        if isDescendant document targetId capabilityId then
          { document with
            capabilities := document.capabilities.modify capabilityId
              fun capability ↦ { capability with revoked := true } }
        else document) current).capabilities.get? c =
          (document.capabilities.get? c).map (revokeIf (done ++ keys) c) by
    rw [CapabilityDocument.revokeDescendants, hfold document.capabilities.keys [] document]
    · refine Option.map_congr fun capability hcapability ↦ ?_
      have hmem : c ∈ document.capabilities.keys := OrderedMap.mem_keys.mpr ⟨_, hcapability⟩
      simp [revokeIf, hmem]
    · intro c
      cases document.capabilities.get? c <;> simp [revokeIf]
  intro keys
  induction keys with
  | nil => exact fun done current hcurrent c ↦ by rw [List.foldl_nil, hcurrent, List.append_nil]
  | cons key keys ih =>
    intro done current hcurrent c
    have hparent : ∀ c, (current.capabilities.get? c).bind ModelCapability.parent =
        (document.capabilities.get? c).bind ModelCapability.parent := by
      intro c
      rw [hcurrent]
      cases document.capabilities.get? c <;> rfl
    rw [List.foldl_cons, ih (done ++ [key]), List.append_assoc, List.singleton_append]
    intro c
    rw [isDescendant_congr hparent]
    by_cases hbelow : isDescendant document targetId key = true
    · rw [if_pos hbelow, OrderedMap.get?_modify, hcurrent]
      cases document.capabilities.get? c with
      | none => simp
      | some capability =>
        by_cases hc : key = c
        · subst hc
          simp [revokeIf, hbelow]
        · simp [revokeIf, hc, Ne.symm hc]
    · rw [if_neg hbelow, hcurrent]
      refine Option.map_congr fun capability _ ↦ ?_
      by_cases hc : c = key
      · subst hc
        simp [revokeIf, hbelow]
      · simp [revokeIf, hc]

theorem revokeDescendants_receipts (document : CapabilityDocument) (targetId : CapabilityId) :
    (document.revokeDescendants targetId).receipts = document.receipts := by
  rw [CapabilityDocument.revokeDescendants]
  refine List.foldlRecOn (motive := fun current : CapabilityDocument ↦
    current.receipts = document.receipts) _ _ rfl
    fun current hcurrent capabilityId _ ↦ ?_
  split <;> exact hcurrent

theorem Revoked.simulates {r : RevokeCommand} {revision : ControlRevision}
    (h : Revoked sha256 t t' r revision) (hw : ControlWellFormed t) (hsim : Simulates t m)
    {document : CapabilityDocument} (hmodel : m.documents.get? r.documentId = some document) :
    Simulates t' ⟨m.documents.insert r.documentId (document.revoked r revision.get)⟩ := by
  have hdoc := hsim.document hmodel
  have hmap : ∀ d c, (t'.capability? d c).map (CapabilityRow.toModel t') =
      (t.capability? d c).map fun row ↦
        ((row.revokeIn r.documentId (subtree t r.documentId r.targetCapabilityId)).toModel t) := by
    intro d c
    rw [capability?_of_revokeIn h.capabilities, Option.map_map]
    exact Option.map_congr fun row _ ↦ CapabilityRow.toModel_congr fun operation ↦
      h.hasOperation_eq _ _ operation
  refine hsim.commit h.documents h.next_revision rfl ⟨fun c ↦ ?_, fun c requestId ↦ ?_⟩ ?_
  · rw [hmap, CapabilityDocument.revoked, get?_revokeDescendants, hdoc.capability, Option.map_map]
    refine Option.map_congr fun row hrow ↦ ?_
    obtain ⟨-, hd, hc⟩ := Tables.capability?_eq_some_iff.mp hrow
    have hbelow : isDescendant document r.targetCapabilityId c =
        decide (c ∈ subtree t r.documentId r.targetCapabilityId) := by
      rw [Bool.eq_iff_iff, hdoc.isDescendant_eq_true_iff hw hrow, decide_eq_true_eq,
        hw.mem_subtree_iff hrow]
    rw [Function.comp_apply, hbelow, CapabilityRow.revokeIn, hd, hc]
    by_cases hmem : c ∈ subtree t r.documentId r.targetCapabilityId
    · rw [if_pos ⟨rfl, hmem⟩]
      simp [CapabilityRow.toModel, hmem, hd, hc]
    · rw [if_neg (fun he ↦ hmem he.2)]
      simp [CapabilityRow.toModel, hmem]
  · rw [CapabilityDocument.revoked, revokeDescendants_receipts]
    exact hdoc.receipt_insert h.controlReceipts rfl h.request_fresh rfl c requestId
  · intro d' document' hd hdoc'
    refine hdoc'.congr (fun c ↦ ?_) (fun c requestId ↦ ?_)
    · rw [hmap]
      refine Option.map_congr fun row hrow ↦ ?_
      obtain ⟨-, hd', -⟩ := Tables.capability?_eq_some_iff.mp hrow
      rw [CapabilityRow.revokeIn, if_neg (fun he ↦ hd (he.1.symm.trans hd'))]
    · exact Table.find?_of_rows_append_ne h.controlReceipts
        fun he ↦ hd (congrArg Prod.fst he)

end Effects

/-! ## One request -/

section Step

variable {sha256 : List UInt8 → Bytes verifierLength} {t : Tables} {m : CapabilityModel}

/-- The next revision, on both sides: it is far from the end of its domain. -/
theorem Simulates.nextControlRevision_eq (hsim : Simulates t m) (hw : ControlWellFormed t)
    {d : DocumentId} {c : CapabilityId} {row : CapabilityRow}
    (hrow : t.capability? d c = some row) :
    ∃ document revision, m.documents.get? d = some document ∧
      nextControlRevision t d = some revision ∧
      checkedAdd 64 document.revision 1 = some revision.get := by
  obtain ⟨document, documentRow, hmodel, hdocument, hrevision, hactive⟩ :=
    hsim.document_of_capability hw hrow
  have hcount := hw.receiptCount_le d
  have hget := hw.revision hdocument
  have hsmall : documentRow.controlRevision.get + 1 < 2 ^ 64 := by
    rw [hget]
    simp only [maxControlReceiptsPerDocument] at hcount
    omega
  refine ⟨document, ⟨documentRow.controlRevision.get + 1, Nat.succ_pos _, hsmall⟩, hmodel,
    nextControlRevision_eq_some_iff.mpr ⟨documentRow, hdocument, hactive, rfl⟩, ?_⟩
  rw [hrevision]
  exact checkedAdd_eq_some hsmall

/-- **Grants agree on shallow tables.** -/
theorem grant_agrees (hsim : Simulates t m) (hw : ControlWellFormed t) (hs : t.Shallow)
    {r : GrantCommand} (hne : r.operations.isEmpty = false)
    (hlimit : (grantCapability sha256 t r).1 ≠ .ok .limitExceeded) :
    (grantCapability sha256 t r).1 = .ok (m.grant sha256 r).1.toStore ∧
      Simulates (grantCapability sha256 t r).2 (m.grant sha256 r).2 := by
  have hreceipt : Option.map ControlOutcome.toStore (m.receiptOutcome sha256 r.documentId
      r.issuerCapabilityId r.issuerAuthenticator r.requestId (r.receiptInput sha256)) =
        resolveControlReceipt sha256 t r.documentId r.issuerCapabilityId r.issuerAuthenticator
          r.requestId .grant (r.input sha256) := hsim.receiptOutcome_eq hw _ _
  have hdecision : m.authorizes sha256 r.documentId r.issuerCapabilityId r.issuerAuthenticator
      .grant = authorize sha256 t r.documentId r.issuerCapabilityId r.issuerAuthenticator .grant :=
    hsim.authorizes_eq hw hs
  -- where the store rolls back, the oracle answers the same and stays
  have hrollback : ∀ o : ControlOutcome, m.grant sha256 r = (o, m) →
      grantCapabilityIn sha256 r t = .ok (.rollback o.toStore) →
        (grantCapability sha256 t r).1 = .ok (m.grant sha256 r).1.toStore ∧
          Simulates (grantCapability sha256 t r).2 (m.grant sha256 r).2 := by
    intro o hmodel hbody
    rw [grantCapability, transaction_rollback hbody, hmodel]
    exact ⟨rfl, hsim⟩
  cases houtcome : m.receiptOutcome sha256 r.documentId r.issuerCapabilityId r.issuerAuthenticator
    r.requestId (r.receiptInput sha256) with
  | some o =>
    rw [houtcome, Option.map_some] at hreceipt
    refine hrollback o ?_ ?_
    · simp only [CapabilityModel.grant, houtcome]
    · simp only [grantCapabilityIn, hne, ← hreceipt, Bool.false_eq_true, if_false]
  | none =>
    rw [houtcome, Option.map_none] at hreceipt
    cases hauth : authorize sha256 t r.documentId r.issuerCapabilityId r.issuerAuthenticator .grant
      with
    | false =>
      rw [hauth] at hdecision
      refine hrollback .authorizationDenied ?_ ?_
      · simp [CapabilityModel.grant, houtcome, hdecision]
      · simp [grantCapabilityIn, hne, ← hreceipt, hauth, ControlOutcome.toStore]
    | true =>
    rw [hauth] at hdecision
    obtain ⟨row, -, hrow, -⟩ := hw.active_of_authorize hauth
    obtain ⟨document, revision, hmodel, hrevision, hchecked⟩ := hsim.nextControlRevision_eq hw hrow
    have hdoc := hsim.document hmodel
    have hcapacity : issuerHasDescendantCapacity t r.documentId r.issuerCapabilityId = true :=
      (hw.forest _).issuerHasDescendantCapacity_iff.mpr ⟨⟨row, hrow⟩, hs _ _ _ hrow⟩
    have hmodelCapacity := hdoc.issuerHasDescendantCapacity_eq r.issuerCapabilityId
    rw [hcapacity] at hmodelCapacity
    have hissuer := hdoc.capability r.issuerCapabilityId
    rw [hrow, Option.map_some] at hissuer
    obtain ⟨-, hd, hc⟩ := Tables.capability?_eq_some_iff.mp hrow
    have hoperations : (row.toModel t).operations =
        loadOperationSet t r.documentId r.issuerCapabilityId := by
      rw [CapabilityRow.toModel, hd, hc]
    have hexists : (document.capabilities.get? r.descendantCapabilityId).isSome =
        (t.capability? r.documentId r.descendantCapabilityId).isSome := by
      rw [hdoc.capability, Option.isSome_map]
    cases hallows : (loadOperationSet t r.documentId r.issuerCapabilityId).allows r.operations with
    | false =>
      refine hrollback .authorizationDenied ?_ ?_
      · simp [CapabilityModel.grant, houtcome, hdecision, hmodel, hmodelCapacity, hissuer,
          hoperations, hallows]
      · simp [grantCapabilityIn, hne, ← hreceipt, hauth, hrevision, hallows, ControlOutcome.toStore]
    | true =>
    cases hfresh : t.capability? r.documentId r.descendantCapabilityId with
    | some descendant =>
      rw [hfresh, Option.isSome_some] at hexists
      refine hrollback .identifierConflict ?_ ?_
      · simp [CapabilityModel.grant, houtcome, hdecision, hmodel, hmodelCapacity, hissuer,
          hoperations, hallows, hchecked, hexists]
      · simp [grantCapabilityIn, hne, ← hreceipt, hauth, hrevision, hallows, hfresh,
          ControlOutcome.toStore]
    | none =>
    rw [hfresh, Option.isSome_none] at hexists
    have hmodelGrant : m.grant sha256 r = (.inserted,
        ⟨m.documents.insert r.documentId (document.granted sha256 r revision.get)⟩) := by
      simp [CapabilityModel.grant, houtcome, hdecision, hmodel, hmodelCapacity, hissuer,
        hoperations, hallows, hchecked, hexists]
    cases hlimits : controlLimitsExceeded t r.documentId (some r.issuerCapabilityId) true
      r.operations.countOnes (r.input sha256).length with
    | true =>
      refine absurd ?_ hlimit
      rw [grantCapability, transaction_rollback]
      simp [grantCapabilityIn, hne, ← hreceipt, hauth, hrevision, hallows, hfresh, hlimits]
    | false =>
      have hfree : ∀ operation,
          t.hasOperation r.documentId r.descendantCapabilityId operation = false := by
        intro operation
        rw [← Bool.not_eq_true]
        intro hop
        obtain ⟨old, hold⟩ := hw.operation_capability hop
        rw [hfresh] at hold
        exact absurd hold (by simp)
      have hok := grantCapability_ok
        ⟨hne, resolveControlReceipt_eq_none_iff.mp hreceipt.symm, hauth,
        hrevision, hallows, hfresh, hcapacity⟩ (Option.isSome_iff_exists.mpr
          ⟨row, hrow⟩) hfree hlimits
      rcases grantCapability_spec (Prod.eta (grantCapability sha256 t r)).symm with
        ⟨-, revision', h⟩ | ⟨hne', -⟩
      · obtain rfl := Option.some_inj.mp (hrevision.symm.trans h.next_revision)
        rw [hok, hmodelGrant]
        exact ⟨rfl, h.simulates hw hsim hmodel⟩
      · exact absurd hok hne'

/-- **Revocations agree on shallow tables.** -/
theorem revoke_agrees (hsim : Simulates t m) (hw : ControlWellFormed t) (hs : t.Shallow)
    {r : RevokeCommand} (hlimit : (revokeCapability sha256 t r).1 ≠ .ok .limitExceeded) :
    (revokeCapability sha256 t r).1 = .ok (m.revoke sha256 r).1.toStore ∧
      Simulates (revokeCapability sha256 t r).2 (m.revoke sha256 r).2 := by
  have hreceipt : Option.map ControlOutcome.toStore (m.receiptOutcome sha256 r.documentId
      r.issuerCapabilityId r.issuerAuthenticator r.requestId (.revoke r.targetCapabilityId)) =
        resolveControlReceipt sha256 t r.documentId r.issuerCapabilityId r.issuerAuthenticator
          r.requestId .revoke r.input := hsim.receiptOutcome_eq hw _ _
  have hdecision : m.authorizes sha256 r.documentId r.issuerCapabilityId r.issuerAuthenticator
      .revoke = authorize sha256 t r.documentId r.issuerCapabilityId r.issuerAuthenticator
        .revoke :=
    hsim.authorizes_eq hw hs
  have hrollback : ∀ o : ControlOutcome, m.revoke sha256 r = (o, m) →
      revokeCapabilityIn sha256 r t = .ok (.rollback o.toStore) →
        (revokeCapability sha256 t r).1 = .ok (m.revoke sha256 r).1.toStore ∧
          Simulates (revokeCapability sha256 t r).2 (m.revoke sha256 r).2 := by
    intro o hmodel hbody
    rw [revokeCapability, transaction_rollback hbody, hmodel]
    exact ⟨rfl, hsim⟩
  cases houtcome : m.receiptOutcome sha256 r.documentId r.issuerCapabilityId r.issuerAuthenticator
    r.requestId (.revoke r.targetCapabilityId) with
  | some o =>
    rw [houtcome, Option.map_some] at hreceipt
    refine hrollback o ?_ ?_
    · simp only [CapabilityModel.revoke, houtcome]
    · simp only [revokeCapabilityIn, ← hreceipt]
  | none =>
    rw [houtcome, Option.map_none] at hreceipt
    cases hauth : authorize sha256 t r.documentId r.issuerCapabilityId r.issuerAuthenticator .revoke
      with
    | false =>
      rw [hauth] at hdecision
      refine hrollback .authorizationDenied ?_ ?_
      · simp [CapabilityModel.revoke, houtcome, hdecision]
      · simp [revokeCapabilityIn, ← hreceipt, hauth, ControlOutcome.toStore]
    | true =>
    rw [hauth] at hdecision
    obtain ⟨row, -, hrow, -⟩ := hw.active_of_authorize hauth
    obtain ⟨document, revision, hmodel, hrevision, hchecked⟩ := hsim.nextControlRevision_eq hw hrow
    have htargets := hsim.isActiveDescendant_eq hw r.documentId r.issuerCapabilityId
      r.targetCapabilityId
    cases htarget : isActiveDescendant t r.documentId r.issuerCapabilityId r.targetCapabilityId with
    | false =>
      rw [htarget] at htargets
      refine hrollback .authorizationDenied ?_ ?_
      · simp [CapabilityModel.revoke, houtcome, hdecision, htargets]
      · simp [revokeCapabilityIn, ← hreceipt, hauth, hrevision, htarget, ControlOutcome.toStore]
    | true =>
    rw [htarget] at htargets
    cases hlimits : controlLimitsExceeded t r.documentId none false 0 r.input.length with
    | true =>
      refine absurd ?_ hlimit
      rw [revokeCapability, transaction_rollback]
      simp [revokeCapabilityIn, ← hreceipt, hauth, hrevision, htarget, hlimits]
    | false =>
      have hok := revokeCapability_ok ⟨resolveControlReceipt_eq_none_iff.mp hreceipt.symm, hauth,
        hrevision, htarget⟩ (Option.isSome_iff_exists.mpr ⟨row, hrow⟩) hlimits
      rcases revokeCapability_spec (Prod.eta (revokeCapability sha256 t r)).symm with
        ⟨-, revision', h⟩ | ⟨hne', -⟩
      · obtain rfl := Option.some_inj.mp (hrevision.symm.trans h.next_revision)
        have hmodelRevoke : m.revoke sha256 r = (.inserted,
            ⟨m.documents.insert r.documentId (document.revoked r revision.get)⟩) := by
          simp [CapabilityModel.revoke, houtcome, hdecision, hmodel, htargets, hchecked]
        rw [hok, hmodelRevoke]
        exact ⟨rfl, h.simulates hw hsim hmodel⟩
      · exact absurd hok hne'

end Step

end Renee
