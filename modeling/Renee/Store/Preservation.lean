import Renee.Store.Persistence
import Renee.Store.WellFormed

/-!
# The tables stay well-formed

Each effect keeps `WellFormed`.

* A creation and a grant attach one capability; what that does to chains and counts is
  `Attached.within` and its siblings.  The limits a grant checks are the bounds of the invariant,
  and the bound on chains is the capacity of the issuer.
* A revocation marks a subtree.  `mem_subtree_iff` is what the recursive query finds, and the only
  clause with something to show is that revocation stays closed downwards.
* An accept touches the log alone, and the other three leave it alone.
-/

set_option autoImplicit false

namespace Renee

open ByteString Relational Ancestry

variable {t t' : Tables}

/-! ## Attaching a capability -/

namespace Attached

variable {row : CapabilityRow} {operations : OperationSet} (h : Attached t t' row operations)
include h

theorem childCount_eq (d : DocumentId) (p : CapabilityId) :
    childCount t' d p = childCount t d p +
      if row.documentId = d ∧ row.parentCapabilityId = some p then 1 else 0 := by
  rw [childCount, h.capabilities, List.countP_append, List.countP_singleton, childCount]
  simp only [decide_eq_true_eq]

theorem capabilityCount_eq (d : DocumentId) :
    capabilityCount t' d = capabilityCount t d + if row.documentId = d then 1 else 0 := by
  rw [capabilityCount, h.capabilities, List.countP_append, List.countP_singleton, capabilityCount]
  simp only [decide_eq_true_eq]

variable (hw : ControlWellFormed t)
include hw

/-- Nothing hangs from a capability that is new. -/
theorem parent?_ne (x : CapabilityId) : t.parent? row.documentId x ≠ some row.capabilityId := by
  intro hx
  obtain ⟨old, hold, hp⟩ := Tables.parent?_eq_some_iff.mp hx
  obtain ⟨parent, hparent, -⟩ := hw.edge hold hp
  rw [h.fresh] at hparent
  exact absurd hparent (by simp)

/-- The operations of the new capability are those it was given. -/
theorem hasOperation_self (operation : Operation) :
    t'.hasOperation row.documentId row.capabilityId operation = operations.contains operation := by
  rw [Bool.eq_iff_iff, h.hasOperation_iff]
  constructor
  · rintro (hop | ⟨-, -, hc⟩)
    · obtain ⟨old, hold⟩ := hw.operation_capability hop
      rw [h.fresh] at hold
      exact absurd hold (by simp)
    · exact hc
  · exact fun hc ↦ Or.inr ⟨rfl, rfl, hc⟩

theorem loadOperationSet_self :
    loadOperationSet t' row.documentId row.capabilityId = operations :=
  OperationSet.ext_contains fun operation ↦ by
    rw [contains_loadOperationSet, h.hasOperation_self hw]

theorem operation_capability {d : DocumentId} {c : CapabilityId} {operation : Operation}
    (hop : t'.hasOperation d c operation = true) : ∃ row', t'.capability? d c = some row' := by
  rcases (h.hasOperation_iff d c operation).mp hop with hop | ⟨rfl, rfl, -⟩
  · obtain ⟨old, hold⟩ := hw.operation_capability hop
    exact ⟨old, h.capability?_old hold⟩
  · exact ⟨row, h.capability?_self⟩

theorem exists_operation (hne : operations.isEmpty = false) {d : DocumentId} {c : CapabilityId}
    {row' : CapabilityRow} (hrow : t'.capability? d c = some row') :
    ∃ operation, t'.hasOperation d c operation = true := by
  rcases h.capability?_cases hrow with ⟨rfl, rfl, rfl⟩ | hold
  · have hall : ¬∀ operation, operations.contains operation = false := fun hall ↦ by
      rw [OperationSet.isEmpty_iff.mpr hall] at hne
      exact absurd hne (by simp)
    obtain ⟨operation, hop⟩ := not_forall.mp hall
    exact ⟨operation, by rw [h.hasOperation_self hw]; simpa using hop⟩
  · obtain ⟨operation, hop⟩ := hw.operations hold
    exact ⟨operation, by rw [h.hasOperation_old hold]; exact hop⟩

/-- A parent is older, allows at least as much, and passes its revocation on: of the new
capability, because it was so when it was created. -/
theorem edge (hedge : ∀ p, row.parentCapabilityId = some p →
      ∃ row', t.capability? row.documentId p = some row' ∧
        row'.createdRevision.get < row.createdRevision.get ∧
        (∀ operation, operations.contains operation = true →
          t.hasOperation row.documentId p operation = true) ∧
        (row'.revoked = true → row.revoked = true))
    {d : DocumentId} {c p : CapabilityId} {row₁ : CapabilityRow}
    (hrow : t'.capability? d c = some row₁) (hp : row₁.parentCapabilityId = some p) :
    ∃ row', t'.capability? d p = some row' ∧
      row'.createdRevision.get < row₁.createdRevision.get ∧
      (∀ operation, t'.hasOperation d c operation = true →
        t'.hasOperation d p operation = true) ∧
      (row'.revoked = true → row₁.revoked = true) := by
  rcases h.capability?_cases hrow with ⟨rfl, rfl, rfl⟩ | hold
  · obtain ⟨row', hrow', hlt, hops, hrev⟩ := hedge p hp
    refine ⟨row', h.capability?_old hrow', hlt, fun operation hop ↦ ?_, hrev⟩
    rw [h.hasOperation_self hw] at hop
    rw [h.hasOperation_old hrow']
    exact hops operation hop
  · obtain ⟨row', hrow', hlt, hops, hrev⟩ := hw.edge hold hp
    refine ⟨row', h.capability?_old hrow', hlt, fun operation hop ↦ ?_, hrev⟩
    rw [h.hasOperation_old hold] at hop
    rw [h.hasOperation_old hrow']
    exact hops operation hop

/-- A capability that was there keeps its chain. -/
theorem within_old {d : DocumentId} {c : CapabilityId} {old : CapabilityRow}
    (hold : t.capability? d c = some old) {n : ℕ} (hwithin : Within (t.parent? d) n c) :
    Within (t'.parent? d) n c := by
  by_cases hd : row.documentId = d
  · subst hd
    refine Within.extend (fun x hx ↦ h.parent?_old fun hk ↦ hx hk.2.symm) (h.parent?_ne hw) ?_
      hwithin
    rintro rfl
    rw [h.fresh] at hold
    exact absurd hold (by simp)
  · rwa [show t'.parent? d = t.parent? d from
      funext fun x ↦ h.parent?_old fun hk ↦ hd hk.1]

/-- Chains stay bounded when there is room below the parent of the new capability. -/
theorem within (hparent : ∀ p, row.parentCapabilityId = some p →
      (∃ row', t.capability? row.documentId p = some row') ∧
        Within (t.parent? row.documentId) (maxCapabilityDepth - 1) p)
    {d : DocumentId} {c : CapabilityId} {row' : CapabilityRow}
    (hrow : t'.capability? d c = some row') : Within (t'.parent? d) maxCapabilityDepth c := by
  rcases h.capability?_cases hrow with ⟨rfl, rfl, rfl⟩ | hold
  · refine within_succ_iff (n := maxCapabilityDepth - 1).mpr fun p hp ↦ ?_
    rw [h.parent?_self] at hp
    obtain ⟨⟨parent, hexists⟩, hwithin⟩ := hparent p hp
    exact h.within_old hw hexists hwithin
  · exact h.within_old hw hold (hw.within hold)

end Attached

/-! ## Receipts -/

theorem CreateReceiptAgrees.mono {receipt : CreateReceiptRow} (hp : Persists t t')
    (h : CreateReceiptAgrees t receipt) : CreateReceiptAgrees t' receipt := by
  obtain ⟨hauthority, document, root, hdocument, hroot, hrow, hnone, hinput⟩ := h
  obtain ⟨authority, hauthority⟩ := Option.isSome_iff_exists.mp hauthority
  obtain ⟨authority', hauthority', -⟩ := hp.authority hauthority
  obtain ⟨document', hdocument', hroot', -⟩ := hp.document hdocument
  obtain ⟨root', hrow', hkeep⟩ := hp.capability hrow
  exact ⟨by rw [hauthority']; rfl, document', root', hdocument', hroot'.trans hroot, hrow',
    hkeep.parent.trans hnone, by rw [hkeep.liveVerifier, hkeep.receiptVerifier]; exact hinput⟩

/-- **A receipt that agrees with the tables goes on agreeing with them.** -/
theorem ControlReceiptAgrees.mono {receipt : ControlReceiptRow} (hp : Persists t t')
    (h : ControlReceiptAgrees t receipt) : ControlReceiptAgrees t' receipt := by
  obtain ⟨⟨issuer, hissuer⟩, h⟩ := h
  obtain ⟨issuer', hissuer', -⟩ := hp.capability hissuer
  refine ⟨⟨issuer', hissuer'⟩, ?_⟩
  cases hop : receipt.operation with
  | grant =>
    simp only [hop] at h ⊢
    obtain ⟨c, row, hrow, hparent, hinput⟩ := h
    obtain ⟨row', hrow', hkeep⟩ := hp.capability hrow
    refine ⟨c, row', hrow', hkeep.parent.trans hparent, ?_⟩
    rw [hkeep.liveVerifier, hkeep.receiptVerifier, loadOperationSet_congr (hp.operations hrow)]
    exact hinput
  | revoke =>
    simp only [hop] at h ⊢
    obtain ⟨c, row, hrow, hrevoked, hinput⟩ := h
    obtain ⟨row', hrow', hkeep⟩ := hp.capability hrow
    exact ⟨c, row', hrow', hkeep.revoked hrevoked, hinput⟩

/-! ## Creation -/

section Effects

variable {sha256 : List UInt8 → Bytes verifierLength}

theorem createLimitsExceeded_eq_false {i : CreateAuthorityId}
    (h : createLimitsExceeded t i = false) :
    authorityDocumentCount t i < maxDocumentsPerCreateAuthority ∧
      t.documents.rows.length < maxGlobalDocuments ∧
      t.capabilities.rows.length < maxGlobalCapabilities := by
  simp only [createLimitsExceeded, Bool.or_eq_false_iff, decide_eq_false_iff_not, not_le] at h
  exact ⟨h.1.1.1, h.1.1.2, h.2⟩

/-- A document that does not exist has no capabilities. -/
theorem ControlWellFormed.capability?_of_document? (hw : ControlWellFormed t) {d : DocumentId}
    (hd : t.document? d = none) (c : CapabilityId) : t.capability? d c = none := by
  rw [Option.eq_none_iff_forall_ne_some]
  intro row hrow
  obtain ⟨document, hdocument, -⟩ := hw.document hrow
  rw [hd] at hdocument
  exact absurd hdocument (by simp)

/-- A receipt is under a capability that exists. -/
theorem ControlWellFormed.receipt_of_capability? (hw : ControlWellFormed t) {d : DocumentId}
    {c : CapabilityId} (h : t.capability? d c = none) (requestId : RequestId) :
    t.controlReceipts.find? (d, c, requestId) = none := by
  refine Table.find?_eq_none_iff.mpr fun receipt hreceipt hkey ↦ ?_
  obtain ⟨rfl, rfl⟩ : receipt.documentId = d ∧ receipt.issuerCapabilityId = c :=
    ⟨congrArg Prod.fst hkey, congrArg (fun k ↦ k.2.1) hkey⟩
  obtain ⟨⟨issuer, hissuer⟩, -⟩ := hw.receipt hreceipt
  rw [h] at hissuer
  exact absurd hissuer (by simp)

theorem ControlWellFormed.capabilityCount_of_document? (hw : ControlWellFormed t) {d : DocumentId}
    (hd : t.document? d = none) : capabilityCount t d = 0 := by
  refine List.countP_eq_zero.mpr fun row hrow hrd ↦ ?_
  have hfind := Tables.capability?_eq_some_iff (d := d).mpr ⟨hrow, by simpa using hrd, rfl⟩
  rw [hw.capability?_of_document? hd] at hfind
  exact absurd hfind (by simp)

theorem ControlWellFormed.receiptCount_of_document? (hw : ControlWellFormed t) {d : DocumentId}
    (hd : t.document? d = none) : receiptCount t d = 0 := by
  refine List.countP_eq_zero.mpr fun receipt hreceipt hrd ↦ ?_
  obtain ⟨⟨issuer, hissuer⟩, -⟩ := hw.receipt hreceipt
  obtain rfl : receipt.documentId = d := by simpa using hrd
  rw [hw.capability?_of_document? hd] at hissuer
  exact absurd hissuer (by simp)

theorem Created.controlWellFormed {r : CreateCommand} (h : Created sha256 t t' r)
    (hw : ControlWellFormed t) : ControlWellFormed t' := by
  have hfree := hw.capability?_of_document? h.document_fresh
  have hat := h.attached (hfree r.rootCapabilityId)
  have hp := h.persists (hfree r.rootCapabilityId)
  have hdoc := document?_of_append h.documents h.document_fresh
  have hnew : t'.document? r.documentId = some r.documentRow := by
    rw [hdoc]; exact if_pos rfl
  have hold : ∀ {d document}, t.document? d = some document → t'.document? d = some document := by
    intro d document hdocument
    rw [hdoc, if_neg, hdocument]
    rintro rfl
    rw [show t.document? r.documentRow.documentId = none from h.document_fresh] at hdocument
    exact absurd hdocument (by simp)
  obtain ⟨hauthority, hdocuments, hcapabilities⟩ := createLimitsExceeded_eq_false h.within_limits
  exact
    { root := by
        intro d document hdocument
        rw [hdoc] at hdocument
        split at hdocument
        · rename_i hd
          obtain rfl := Option.some_inj.mp hdocument
          subst hd
          exact ⟨_, hat.capability?_self, rfl, rfl, fun operation ↦ by
            rw [show t'.hasOperation r.documentRow.documentId r.documentRow.rootCapabilityId
              operation = _ from hat.hasOperation_self hw operation]
            exact OperationSet.contains_full⟩
        · obtain ⟨row, hrow, hnone, hinit, hops⟩ := hw.root hdocument
          exact ⟨row, hat.capability?_old hrow, hnone, hinit, fun operation ↦ by
            rw [hat.hasOperation_old hrow]; exact hops operation⟩
      root_unique := by
        intro d c row hrow hnone
        rcases hat.capability?_cases hrow with ⟨rfl, rfl, rfl⟩ | hrow
        · exact ⟨_, hnew, rfl⟩
        · obtain ⟨document, hdocument, hroot⟩ := hw.root_unique hrow hnone
          exact ⟨document, hold hdocument, hroot⟩
      document := by
        intro d c row hrow
        rcases hat.capability?_cases hrow with ⟨rfl, rfl, rfl⟩ | hrow
        · exact ⟨_, hnew, le_refl _⟩
        · obtain ⟨document, hdocument, hle⟩ := hw.document hrow
          exact ⟨document, hold hdocument, hle⟩
      edge := hat.edge hw fun p hp ↦ absurd hp (by simp [CreateCommand.rootRow])
      within := hat.within hw fun p hp ↦ absurd hp (by simp [CreateCommand.rootRow])
      operations := hat.exists_operation hw (by decide)
      operation_capability := hat.operation_capability hw
      receipt := by
        intro receipt hreceipt
        rw [h.controlReceipts] at hreceipt
        exact (hw.receipt hreceipt).mono hp
      revision := by
        intro d document hdocument
        rw [receiptCount, h.controlReceipts]
        rw [hdoc] at hdocument
        split at hdocument
        · rename_i hd
          obtain rfl := Option.some_inj.mp hdocument
          subst hd
          exact (congrArg (· + 1) (hw.receiptCount_of_document? h.document_fresh)).symm
        · exact hw.revision hdocument
      createReceipt := by
        intro receipt hreceipt
        rw [h.createReceipts, List.mem_append, List.mem_singleton] at hreceipt
        rcases hreceipt with hreceipt | rfl
        · exact (hw.createReceipt hreceipt).mono hp
        · obtain ⟨authority, hauthority, -⟩ := h.authority
          refine ⟨?_, _, _, hnew, rfl, hat.capability?_self, rfl, rfl⟩
          rw [h.createAuthorities, show t.createAuthorities.find?
            (r.receiptRow sha256).createAuthorityId = some authority from hauthority]
          rfl
      createReceipts_length := by
        rw [h.documents, h.createReceipts, List.length_append, List.length_append,
          hw.createReceipts_length]
        rfl
      childCount_le := by
        intro d p
        rw [hat.childCount_eq, if_neg (fun hk ↦ absurd hk.2 (by simp [CreateCommand.rootRow]))]
        exact hw.childCount_le d p
      capabilityCount_le := by
        intro d
        rw [hat.capabilityCount_eq]
        split
        · rename_i hd
          obtain rfl : r.documentId = d := hd
          rw [hw.capabilityCount_of_document? h.document_fresh]
          decide
        · exact hw.capabilityCount_le d
      capabilities_le := by
        rw [h.capabilities, List.length_append]
        exact hcapabilities
      receiptCount_le := by
        intro d
        rw [receiptCount, h.controlReceipts]
        exact hw.receiptCount_le d
      receipts_le := by rw [h.controlReceipts]; exact hw.receipts_le
      documents_le := by rw [h.documents, List.length_append]; exact hdocuments
      authorityDocumentCount_le := by
        intro i
        rw [authorityDocumentCount, h.createReceipts, List.countP_append, List.countP_singleton]
        by_cases hi : r.createAuthorityId = i
        · subst hi
          split
          · exact hauthority
          · exact hw.authorityDocumentCount_le _
        · rw [if_neg (by simp [CreateCommand.receiptRow, hi])]
          exact hw.authorityDocumentCount_le i }

/-! ## Granting -/

/-- What is authorized is borne by an active capability. -/
theorem ControlWellFormed.active_of_authorize (hw : ControlWellFormed t) {d : DocumentId}
    {c : CapabilityId} {a : Authenticator} {operation : Operation}
    (h : authorize sha256 t d c a operation = true) :
    ∃ row document, t.capability? d c = some row ∧ row.revoked = false ∧
      t.document? d = some document ∧ document.retired = false := by
  obtain ⟨⟨row, hrow, hrev, -⟩, document, hdocument, hretired⟩ :=
    (hw.forest d).authorize_iff.mp h
  exact ⟨row, document, hrow, hrev, hdocument, hretired⟩

/-- The documents after a new revision of one of them. -/
theorem document?_of_nextControlRevision {d₀ : DocumentId} {revision : ControlRevision}
    (hrows : t'.documents.rows = t.documents.rows.map (DocumentRow.setRevision d₀ revision))
    (hnext : nextControlRevision t d₀ = some revision) ⦃d : DocumentId⦄ ⦃document : DocumentRow⦄
    (hdocument : t.document? d = some document) :
    ∃ document', t'.document? d = some document' ∧
      document'.rootCapabilityId = document.rootCapabilityId ∧
      document'.retired = document.retired ∧
      document'.controlRevision.get =
        document.controlRevision.get + if d₀ = d then 1 else 0 := by
  refine ⟨document.setRevision d₀ revision, ?_, by simp, by simp, ?_⟩
  · rw [document?_of_setRevision hrows, hdocument]
    rfl
  · have hkey : document.documentId = d := Table.key_of_find?_eq_some hdocument
    by_cases hd : d₀ = d
    · obtain ⟨document₀, hdocument₀, -, hget⟩ := nextControlRevision_eq_some_iff.mp hnext
      rw [hd, hdocument, Option.some_inj] at hdocument₀
      rw [DocumentRow.setRevision_of_eq (hkey.trans hd.symm), if_pos hd, hdocument₀]
      exact hget
    · rw [DocumentRow.setRevision_of_ne (fun he ↦ hd (he.symm.trans hkey)), if_neg hd]
      rfl

theorem document?_of_setRevision_some {d₀ : DocumentId} {revision : ControlRevision}
    (hrows : t'.documents.rows = t.documents.rows.map (DocumentRow.setRevision d₀ revision))
    {d : DocumentId} {document' : DocumentRow} (hdocument : t'.document? d = some document') :
    ∃ document, t.document? d = some document := by
  rw [document?_of_setRevision hrows, Option.map_eq_some_iff] at hdocument
  obtain ⟨document, hdocument, -⟩ := hdocument
  exact ⟨document, hdocument⟩

/-- The receipts of a document after one more receipt. -/
theorem receiptCount_of_append {receipt : ControlReceiptRow}
    (hrows : t'.controlReceipts.rows = t.controlReceipts.rows ++ [receipt]) (d : DocumentId) :
    receiptCount t' d = receiptCount t d + if receipt.documentId = d then 1 else 0 := by
  rw [receiptCount, hrows, List.countP_append, List.countP_singleton, receiptCount]
  simp only [decide_eq_true_eq]

/-- What a grant and a revocation do alike: the document has its next revision, and there is a
receipt of it. -/
structure Recorded (t t' : Tables) (receipt : ControlReceiptRow) (revision : ControlRevision) :
    Prop where
  next_revision : nextControlRevision t receipt.documentId = some revision
  documents : t'.documents.rows =
    t.documents.rows.map (DocumentRow.setRevision receipt.documentId revision)
  controlReceipts : t'.controlReceipts.rows = t.controlReceipts.rows ++ [receipt]
  createReceipts : t'.createReceipts = t.createReceipts
  receiptCount_lt : receiptCount t receipt.documentId < maxControlReceiptsPerDocument
  receipts_lt : t.controlReceipts.rows.length < maxGlobalControlReceipts

namespace Recorded

variable {receipt : ControlReceiptRow} {revision : ControlRevision}

/-- A document that is there was there. -/
theorem document?_some (h : Recorded t t' receipt revision) {d : DocumentId}
    {document' : DocumentRow} (hdocument' : t'.document? d = some document') :
    ∃ document, t.document? d = some document ∧
      document'.rootCapabilityId = document.rootCapabilityId ∧
      document'.controlRevision.get =
        document.controlRevision.get + if receipt.documentId = d then 1 else 0 := by
  obtain ⟨document, hdocument⟩ := document?_of_setRevision_some h.documents hdocument'
  obtain ⟨document'', hdocument'', hroot, -, hget⟩ :=
    document?_of_nextControlRevision h.documents h.next_revision hdocument
  obtain rfl := Option.some_inj.mp (hdocument'.symm.trans hdocument'')
  exact ⟨document, hdocument, hroot, hget⟩

theorem root (h : Recorded t t' receipt revision) (hp : Persists t t') (hw : ControlWellFormed t)
    {d : DocumentId} {document' : DocumentRow} (hdocument' : t'.document? d = some document') :
    ∃ row, t'.capability? d document'.rootCapabilityId = some row ∧
      row.parentCapabilityId = none ∧ row.createdRevision = .initial ∧
      ∀ operation, t'.hasOperation d document'.rootCapabilityId operation = true := by
  obtain ⟨document, hdocument, hroot, -⟩ := h.document?_some hdocument'
  obtain ⟨row, hrow, hnone, hinit, hops⟩ := hw.root hdocument
  obtain ⟨row', hrow', hkeep⟩ := hp.capability hrow
  rw [hroot]
  exact ⟨row', hrow', hkeep.parent.trans hnone, hkeep.createdRevision.trans hinit,
    fun operation ↦ (hp.operations hrow operation).trans (hops operation)⟩

theorem receipt_agrees (h : Recorded t t' receipt revision) (hp : Persists t t')
    (hw : ControlWellFormed t) (hnew : ControlReceiptAgrees t' receipt) {other : ControlReceiptRow}
    (hother : other ∈ t'.controlReceipts.rows) : ControlReceiptAgrees t' other := by
  rw [h.controlReceipts, List.mem_append, List.mem_singleton] at hother
  rcases hother with hother | rfl
  · exact (hw.receipt hother).mono hp
  · exact hnew

theorem revision_eq (h : Recorded t t' receipt revision) (hw : ControlWellFormed t) {d : DocumentId}
    {document' : DocumentRow} (hdocument' : t'.document? d = some document') :
    document'.controlRevision.get = receiptCount t' d + 1 := by
  obtain ⟨document, hdocument, -, hget⟩ := h.document?_some hdocument'
  rw [hget, receiptCount_of_append h.controlReceipts, hw.revision hdocument]
  exact Nat.add_right_comm _ _ _

theorem createReceipt_agrees (h : Recorded t t' receipt revision) (hp : Persists t t')
    (hw : ControlWellFormed t) {other : CreateReceiptRow}
    (hother : other ∈ t'.createReceipts.rows) :
    CreateReceiptAgrees t' other := by
  rw [h.createReceipts] at hother
  exact (hw.createReceipt hother).mono hp

theorem createReceipts_length (h : Recorded t t' receipt revision) (hw : ControlWellFormed t) :
    t'.documents.rows.length = t'.createReceipts.rows.length := by
  rw [h.documents, h.createReceipts, List.length_map]
  exact hw.createReceipts_length

theorem receiptCount_le (h : Recorded t t' receipt revision) (hw : ControlWellFormed t)
    (d : DocumentId) : receiptCount t' d ≤ maxControlReceiptsPerDocument := by
  rw [receiptCount_of_append h.controlReceipts]
  split
  · rename_i hd
    subst hd
    exact h.receiptCount_lt
  · exact hw.receiptCount_le d

theorem receipts_le (h : Recorded t t' receipt revision) :
    t'.controlReceipts.rows.length ≤ maxGlobalControlReceipts := by
  rw [h.controlReceipts, List.length_append]
  exact h.receipts_lt

theorem documents_le (h : Recorded t t' receipt revision) (hw : ControlWellFormed t) :
    t'.documents.rows.length ≤ maxGlobalDocuments := by
  rw [h.documents, List.length_map]
  exact hw.documents_le

theorem authorityDocumentCount_le (h : Recorded t t' receipt revision) (hw : ControlWellFormed t)
    (i : CreateAuthorityId) : authorityDocumentCount t' i ≤ maxDocumentsPerCreateAuthority := by
  rw [authorityDocumentCount, h.createReceipts]
  exact hw.authorityDocumentCount_le i

end Recorded

theorem Granted.recorded {r : GrantCommand} {revision : ControlRevision}
    (h : Granted sha256 t t' r revision) : Recorded t t' (r.receiptRow sha256) revision where
  next_revision := h.next_revision
  documents := h.documents
  controlReceipts := h.controlReceipts
  createReceipts := h.createReceipts
  receiptCount_lt := (controlLimitsExceeded_eq_false h.within_limits).2.2.1
  receipts_lt := (controlLimitsExceeded_eq_false h.within_limits).2.2.2

theorem Granted.controlWellFormed {r : GrantCommand} {revision : ControlRevision}
    (h : Granted sha256 t t' r revision) (hw : ControlWellFormed t) : ControlWellFormed t' := by
  have hat := h.attached
  have hp := h.persists
  have hrecorded := h.recorded
  obtain ⟨issuer, document₀, hissuer, hactive, hdocument₀, -⟩ :=
    hw.active_of_authorize h.authorized
  obtain ⟨document₁, hdocument₁, -, hrevision⟩ :=
    nextControlRevision_eq_some_iff.mp h.next_revision
  obtain rfl : document₁ = document₀ := Option.some_inj.mp (hdocument₁.symm.trans hdocument₀)
  have hcreated : issuer.createdRevision.get < revision.get := by
    obtain ⟨document, hdocument, hle⟩ := hw.document hissuer
    rw [hdocument₀, Option.some_inj] at hdocument
    rw [← hdocument] at hle
    omega
  have hold := document?_of_nextControlRevision h.documents h.next_revision
  obtain ⟨hchildren, hcapabilities, -⟩ := controlLimitsExceeded_eq_false h.within_limits
  exact
    { root := hrecorded.root hp hw
      root_unique := by
        intro d c row hrow hnone
        rcases hat.capability?_cases hrow with ⟨rfl, rfl, rfl⟩ | hrow
        · exact absurd hnone (by simp [GrantCommand.descendantRow])
        · obtain ⟨document, hdocument, hroot⟩ := hw.root_unique hrow hnone
          obtain ⟨document', hdocument', hroot', -⟩ := hold hdocument
          exact ⟨document', hdocument', hroot'.trans hroot⟩
      document := by
        intro d c row hrow
        rcases hat.capability?_cases hrow with ⟨rfl, rfl, rfl⟩ | hrow
        · obtain ⟨document', hdocument', -, -, hget⟩ := hold hdocument₀
          refine ⟨document', hdocument', ?_⟩
          rw [hget, if_pos rfl]
          exact hrevision.le
        · obtain ⟨document, hdocument, hle⟩ := hw.document hrow
          obtain ⟨document', hdocument', -, -, hget⟩ := hold hdocument
          exact ⟨document', hdocument', by rw [hget]; omega⟩
      edge := hat.edge hw fun p hparent ↦ by
        obtain rfl : r.issuerCapabilityId = p := by simpa [GrantCommand.descendantRow] using hparent
        refine ⟨issuer, hissuer, hcreated, fun operation hop ↦ ?_, fun hrev ↦ ?_⟩
        · have hallows := (OperationSet.allows_iff.mp h.attenuated).2 operation hop
          rwa [contains_loadOperationSet] at hallows
        · rw [hactive] at hrev
          exact absurd hrev (by simp)
      within := hat.within hw fun p hparent ↦ by
        obtain rfl : r.issuerCapabilityId = p := by simpa [GrantCommand.descendantRow] using hparent
        exact (hw.forest _).issuerHasDescendantCapacity_iff.mp h.capacity
      operations := hat.exists_operation hw (OperationSet.allows_iff.mp h.attenuated).1
      operation_capability := hat.operation_capability hw
      receipt := hrecorded.receipt_agrees hp hw ⟨⟨issuer, hat.capability?_old hissuer⟩,
        r.descendantCapabilityId, r.descendantRow sha256 revision, hat.capability?_self, rfl, by
          rw [show loadOperationSet t' (r.receiptRow sha256).documentId r.descendantCapabilityId =
            r.operations from hat.loadOperationSet_self hw]
          rfl⟩
      revision := hrecorded.revision_eq hw
      createReceipt := hrecorded.createReceipt_agrees hp hw
      createReceipts_length := hrecorded.createReceipts_length hw
      childCount_le := by
        intro d p
        rw [hat.childCount_eq]
        split
        · rename_i hk
          obtain ⟨rfl, hk⟩ : r.documentId = d ∧ some r.issuerCapabilityId = some p := hk
          exact hchildren p hk
        · exact hw.childCount_le d p
      capabilityCount_le := by
        intro d
        rw [hat.capabilityCount_eq]
        split
        · rename_i hd
          obtain rfl : r.documentId = d := hd
          exact (hcapabilities rfl).1
        · exact hw.capabilityCount_le d
      capabilities_le := by
        rw [h.capabilities, List.length_append]
        exact (hcapabilities rfl).2
      receiptCount_le := hrecorded.receiptCount_le hw
      receipts_le := hrecorded.receipts_le
      documents_le := hrecorded.documents_le hw
      authorityDocumentCount_le := hrecorded.authorityDocumentCount_le hw }

/-! ## Revoking -/

/-- **The recursive query of a revocation finds the target and everything below it.** -/
theorem Tables.Forest.mem_subtree_iff {d : DocumentId} (hforest : t.Forest d)
    {c target : CapabilityId} {row : CapabilityRow} (hrow : t.capability? d c = some row) :
    c ∈ subtree t d target ↔ Descends (t.parent? d) c target := by
  have hchildren : ∀ x y, y ∈ (t.capabilities.rows.filter fun row ↦
      row.documentId = d ∧ row.parentCapabilityId = some x).map CapabilityRow.capabilityId ↔
        t.parent? d y = some x := by
    intro x y
    rw [Tables.parent?_eq_some_iff, List.mem_map]
    constructor
    · rintro ⟨row, hmem, rfl⟩
      obtain ⟨hmem, hd, hp⟩ : row ∈ t.capabilities.rows ∧ row.documentId = d ∧
          row.parentCapabilityId = some x := by simpa using hmem
      exact ⟨row, Tables.capability?_eq_some_iff.mpr ⟨hmem, hd, rfl⟩, hp⟩
    · rintro ⟨row, hrow, hp⟩
      obtain ⟨hmem, hd, hy⟩ := Tables.capability?_eq_some_iff.mp hrow
      exact ⟨row, by simpa using ⟨hmem, hd, hp⟩, hy⟩
  -- a chain stays in the table, so it is no longer than the table
  have hwithin : Within (t.parent? d) t.capabilities.rows.length c := by
    have hlist := (hforest.within hrow).of_mem_list
      (t.capabilities.rows.map CapabilityRow.capabilityId) fun x hx ↦ by
        obtain ⟨row', hrow'⟩ := hforest.exists_of_descends hrow hx
        obtain ⟨hmem, -, hid⟩ := Tables.capability?_eq_some_iff.mp hrow'
        exact List.mem_map.mpr ⟨row', hmem, hid⟩
    rwa [List.length_map] at hlist
  exact hwithin.mem_below_singleton_iff hchildren

theorem ControlWellFormed.mem_subtree_iff (hw : ControlWellFormed t) {d : DocumentId}
    {c target : CapabilityId} {row : CapabilityRow} (hrow : t.capability? d c = some row) :
    c ∈ subtree t d target ↔ Descends (t.parent? d) c target :=
  (hw.forest d).mem_subtree_iff hrow

/-- Revoking a subtree changes no parent. -/
theorem Revoked.parent?_eq {r : RevokeCommand} {revision : ControlRevision}
    (h : Revoked sha256 t t' r revision) (d : DocumentId) : t'.parent? d = t.parent? d := by
  funext c
  rw [Tables.parent?, Tables.parent?, capability?_of_revokeIn h.capabilities]
  cases t.capability? d c with
  | none => rfl
  | some row => exact CapabilityRow.revokeIn_parent

/-- A capability after a revocation. -/
theorem Revoked.capability?_some {r : RevokeCommand} {revision : ControlRevision}
    (h : Revoked sha256 t t' r revision) {d : DocumentId} {c : CapabilityId}
    {row' : CapabilityRow} (hrow' : t'.capability? d c = some row') :
    ∃ row, t.capability? d c = some row ∧
      row' = row.revokeIn r.documentId (subtree t r.documentId r.targetCapabilityId) := by
  rw [capability?_of_revokeIn h.capabilities, Option.map_eq_some_iff] at hrow'
  obtain ⟨row, hrow, rfl⟩ := hrow'
  exact ⟨row, hrow, rfl⟩

/-- **What is revoked afterwards**: what was, and what lies below the target. -/
theorem Revoked.revoked_iff {r : RevokeCommand} {revision : ControlRevision}
    (h : Revoked sha256 t t' r revision) (hw : ControlWellFormed t) {d : DocumentId}
    {c : CapabilityId} {row row' : CapabilityRow} (hrow : t.capability? d c = some row)
    (hrow' : t'.capability? d c = some row') :
    row'.revoked = true ↔ row.revoked = true ∨
      (d = r.documentId ∧ Descends (t.parent? d) c r.targetCapabilityId) := by
  obtain ⟨old, hold, rfl⟩ := h.capability?_some hrow'
  obtain rfl := Option.some_inj.mp (hrow.symm.trans hold)
  obtain ⟨-, rfl, rfl⟩ := Tables.capability?_eq_some_iff.mp hrow
  rw [CapabilityRow.revokeIn_revoked]
  refine or_congr Iff.rfl (and_congr_right fun hd ↦ ?_)
  rw [← hd]
  exact hw.mem_subtree_iff hrow

theorem Revoked.childCount_eq {r : RevokeCommand} {revision : ControlRevision}
    (h : Revoked sha256 t t' r revision) (d : DocumentId) (p : CapabilityId) :
    childCount t' d p = childCount t d p := by
  rw [childCount, h.capabilities, List.countP_map, childCount]
  refine List.countP_congr fun row _ ↦ ?_
  simp

theorem Revoked.capabilityCount_eq {r : RevokeCommand} {revision : ControlRevision}
    (h : Revoked sha256 t t' r revision) (d : DocumentId) :
    capabilityCount t' d = capabilityCount t d := by
  rw [capabilityCount, h.capabilities, List.countP_map, capabilityCount]
  refine List.countP_congr fun row _ ↦ ?_
  simp

theorem Revoked.hasOperation_eq {r : RevokeCommand} {revision : ControlRevision}
    (h : Revoked sha256 t t' r revision) (d : DocumentId) (c : CapabilityId)
    (operation : Operation) : t'.hasOperation d c operation = t.hasOperation d c operation := by
  rw [Tables.hasOperation, h.capabilityOperations]
  rfl

theorem Revoked.recorded {r : RevokeCommand} {revision : ControlRevision}
    (h : Revoked sha256 t t' r revision) : Recorded t t' r.receiptRow revision where
  next_revision := h.next_revision
  documents := h.documents
  controlReceipts := h.controlReceipts
  createReceipts := h.createReceipts
  receiptCount_lt := (controlLimitsExceeded_eq_false h.within_limits).2.2.1
  receipts_lt := (controlLimitsExceeded_eq_false h.within_limits).2.2.2

theorem Revoked.controlWellFormed {r : RevokeCommand} {revision : ControlRevision}
    (h : Revoked sha256 t t' r revision) (hw : ControlWellFormed t) : ControlWellFormed t' := by
  have hp := h.persists
  have hrecorded := h.recorded
  obtain ⟨issuer, -, hissuer, -⟩ := hw.active_of_authorize h.authorized
  have hold := document?_of_nextControlRevision h.documents h.next_revision
  exact
    { root := hrecorded.root hp hw
      root_unique := by
        intro d c row' hrow' hnone
        obtain ⟨row, hrow, rfl⟩ := h.capability?_some hrow'
        rw [CapabilityRow.revokeIn_parent] at hnone
        obtain ⟨document, hdocument, hroot⟩ := hw.root_unique hrow hnone
        obtain ⟨document', hdocument', hroot', -⟩ := hold hdocument
        exact ⟨document', hdocument', hroot'.trans hroot⟩
      document := by
        intro d c row' hrow'
        obtain ⟨row, hrow, rfl⟩ := h.capability?_some hrow'
        obtain ⟨document, hdocument, hle⟩ := hw.document hrow
        obtain ⟨document', hdocument', -, -, hget⟩ := hold hdocument
        exact ⟨document', hdocument', by rw [hget, CapabilityRow.revokeIn_createdRevision]; omega⟩
      edge := by
        intro d c row' p hrow' hparent
        obtain ⟨row, hrow, rfl⟩ := h.capability?_some hrow'
        rw [CapabilityRow.revokeIn_parent] at hparent
        obtain ⟨above, habove, hlt, hops, hrev⟩ := hw.edge hrow hparent
        obtain ⟨above', habove', hkeep⟩ := hp.capability habove
        refine ⟨above', habove', ?_, fun operation hop ↦ ?_, fun hrevoked ↦ ?_⟩
        · rw [hkeep.createdRevision, CapabilityRow.revokeIn_createdRevision]
          exact hlt
        · rw [h.hasOperation_eq] at hop ⊢
          exact hops operation hop
        · refine (h.revoked_iff hw hrow hrow').mpr ?_
          have hstep := Descends.of_parent ((Tables.parent?_eq hrow).trans hparent)
          exact ((h.revoked_iff hw habove habove').mp hrevoked).imp hrev
            (And.imp_right hstep.trans)
      within := by
        intro d c row' hrow'
        obtain ⟨row, hrow, rfl⟩ := h.capability?_some hrow'
        rw [h.parent?_eq]
        exact hw.within hrow
      operations := by
        intro d c row' hrow'
        obtain ⟨row, hrow, rfl⟩ := h.capability?_some hrow'
        obtain ⟨operation, hop⟩ := hw.operations hrow
        exact ⟨operation, by rw [h.hasOperation_eq]; exact hop⟩
      operation_capability := by
        intro d c operation hop
        rw [h.hasOperation_eq] at hop
        obtain ⟨row, hrow⟩ := hw.operation_capability hop
        obtain ⟨row', hrow', -⟩ := hp.capability hrow
        exact ⟨row', hrow'⟩
      receipt := by
        obtain ⟨⟨target, htarget, -⟩, -⟩ :=
          (hw.forest _).isActiveDescendant_iff.mp h.descendant
        obtain ⟨issuer', hissuer', -⟩ := hp.capability hissuer
        obtain ⟨target', htarget', -⟩ := hp.capability htarget
        exact hrecorded.receipt_agrees hp hw ⟨⟨issuer', hissuer'⟩, r.targetCapabilityId, target',
          htarget', (h.revoked_iff hw htarget htarget').mpr (Or.inr ⟨rfl, Descends.refl _⟩), rfl⟩
      revision := hrecorded.revision_eq hw
      createReceipt := hrecorded.createReceipt_agrees hp hw
      createReceipts_length := hrecorded.createReceipts_length hw
      childCount_le := fun d p ↦ by rw [h.childCount_eq]; exact hw.childCount_le d p
      capabilityCount_le := fun d ↦ by rw [h.capabilityCount_eq]; exact hw.capabilityCount_le d
      capabilities_le := by rw [h.capabilities, List.length_map]; exact hw.capabilities_le
      receiptCount_le := hrecorded.receiptCount_le hw
      receipts_le := hrecorded.receipts_le
      documents_le := hrecorded.documents_le hw
      authorityDocumentCount_le := hrecorded.authorityDocumentCount_le hw }

/-! ## The log -/

/-- What an accept, an operator or a provisioning may change of the control state: nothing that the
invariant speaks of. -/
theorem ControlWellFormed.congr (hw : ControlWellFormed t) (hp : Persists t t')
    (hcapabilities : t'.capabilities = t.capabilities)
    (hoperations : t'.capabilityOperations = t.capabilityOperations)
    (hcontrol : t'.controlReceipts = t.controlReceipts)
    (hcreate : t'.createReceipts = t.createReceipts)
    (hdocuments : ∀ {d document'}, t'.document? d = some document' →
      ∃ document, t.document? d = some document ∧
        document'.rootCapabilityId = document.rootCapabilityId ∧
        document'.controlRevision = document.controlRevision)
    (hlength : t'.documents.rows.length = t.documents.rows.length) : ControlWellFormed t' := by
  have hcapability : ∀ d c, t'.capability? d c = t.capability? d c := fun d c ↦ by
    rw [Tables.capability?, hcapabilities]; rfl
  have hoperation : ∀ d c operation, t'.hasOperation d c operation = t.hasOperation d c operation :=
    fun d c operation ↦ by rw [Tables.hasOperation, hoperations]; rfl
  have hparent : ∀ d, t'.parent? d = t.parent? d := fun d ↦ funext fun c ↦ by
    rw [Tables.parent?, hcapability]; rfl
  have hforward : ∀ {d document}, t.document? d = some document →
      ∃ document', t'.document? d = some document' ∧
        document'.rootCapabilityId = document.rootCapabilityId ∧
        document'.controlRevision = document.controlRevision := by
    intro d document hdocument
    obtain ⟨document', hdocument', -⟩ := hp.document hdocument
    obtain ⟨document₀, hdocument₀, hroot, hrevision⟩ := hdocuments hdocument'
    obtain rfl := Option.some_inj.mp (hdocument.symm.trans hdocument₀)
    exact ⟨document', hdocument', hroot, hrevision⟩
  exact
    { root := by
        intro d document' hdocument'
        obtain ⟨document, hdocument, hroot, -⟩ := hdocuments hdocument'
        simp only [hcapability, hoperation, hroot]
        exact hw.root hdocument
      root_unique := by
        intro d c row hrow hnone
        rw [hcapability] at hrow
        obtain ⟨document, hdocument, hroot⟩ := hw.root_unique hrow hnone
        obtain ⟨document', hdocument', hroot', -⟩ := hforward hdocument
        exact ⟨document', hdocument', hroot'.trans hroot⟩
      document := by
        intro d c row hrow
        rw [hcapability] at hrow
        obtain ⟨document, hdocument, hle⟩ := hw.document hrow
        obtain ⟨document', hdocument', -, hrevision⟩ := hforward hdocument
        exact ⟨document', hdocument', by rw [hrevision]; exact hle⟩
      edge := by simp only [hcapability, hoperation]; exact hw.edge
      within := by simp only [hcapability, hparent]; exact hw.within
      operations := by simp only [hcapability, hoperation]; exact hw.operations
      operation_capability := by
        simp only [hcapability, hoperation]; exact hw.operation_capability
      receipt := by
        intro receipt hreceipt
        rw [hcontrol] at hreceipt
        exact (hw.receipt hreceipt).mono hp
      revision := by
        intro d document' hdocument'
        obtain ⟨document, hdocument, -, hrevision⟩ := hdocuments hdocument'
        rw [hrevision, receiptCount, hcontrol]
        exact hw.revision hdocument
      createReceipt := by
        intro receipt hreceipt
        rw [hcreate] at hreceipt
        exact (hw.createReceipt hreceipt).mono hp
      createReceipts_length := by rw [hlength, hcreate]; exact hw.createReceipts_length
      childCount_le := fun d p ↦ by
        rw [childCount, hcapabilities]; exact hw.childCount_le d p
      capabilityCount_le := fun d ↦ by
        rw [capabilityCount, hcapabilities]; exact hw.capabilityCount_le d
      capabilities_le := by rw [hcapabilities]; exact hw.capabilities_le
      receiptCount_le := fun d ↦ by rw [receiptCount, hcontrol]; exact hw.receiptCount_le d
      receipts_le := by rw [hcontrol]; exact hw.receipts_le
      documents_le := by rw [hlength]; exact hw.documents_le
      authorityDocumentCount_le := fun i ↦ by
        rw [authorityDocumentCount, hcreate]; exact hw.authorityDocumentCount_le i }

/-- The log depends on its own tables, and on which documents exist. -/
theorem UpdatesWellFormed.congr (hw : UpdatesWellFormed t) (hp : Persists t t')
    (hupdates : t'.updates = t.updates)
    (hsequences : t'.documentAcceptanceSequences = t.documentAcceptanceSequences)
    (hranges : t'.updateLoroRanges = t.updateLoroRanges)
    (hpeers : t'.documentLoroPeers = t.documentLoroPeers) : UpdatesWellFormed t' := by
  have hlog : ∀ d, t'.log d = t.log d := fun d ↦ by rw [Tables.log, hupdates]; rfl
  exact
    { positions := fun d ↦ by rw [hlog]; exact hw.positions d
      record := by rw [hupdates]; exact hw.record
      next := by rw [hsequences]; simp only [hlog]; exact hw.next
      sequence_document := by
        intro d row hrow
        rw [hsequences] at hrow
        obtain ⟨document, hdocument⟩ := Option.isSome_iff_exists.mp (hw.sequence_document hrow)
        obtain ⟨document', hdocument', -⟩ := hp.document hdocument
        rw [hdocument']
        rfl
      sequenced := by rw [hupdates, hsequences]; exact hw.sequenced
      ranges := by rw [hupdates, hranges]; exact hw.ranges
      peers := by simp only [hpeers, hlog]; exact hw.peers
      peerCount_le := fun d ↦ by rw [peerCount, hpeers]; exact hw.peerCount_le d }

namespace Accepted

variable {c : CapabilityId} {a : Authenticator} {update : ImmutableUpdate} {row : UpdateRow}
  (h : Accepted sha256 t t' c a update row)
include h

theorem position_eq (hw : UpdatesWellFormed t) :
    row.acceptanceSequence.get = (t.log update.documentId).length + 1 := by
  rw [h.row_sequence]
  exact hw.nextSequence_eq

/-- **An accepted update goes to the end of its document's log.** -/
theorem log_eq (hw : UpdatesWellFormed t) (d : DocumentId) :
    t'.log d = t.log d ++ if update.documentId = d then [row] else [] := by
  rw [Tables.log, h.updates, List.filter_append]
  by_cases hd : update.documentId = d
  · subst hd
    rw [if_pos rfl, List.filter_singleton, decide_eq_true h.row_document, cond_true]
    refine orderBy_append_singleton ?_ ?_
    · intro x hx y hy hxy
      simp only [List.mem_filter, decide_eq_true_eq] at hx hy
      exact hw.eq_of_position_eq (Tables.mem_log.mpr hx) (Tables.mem_log.mpr hy) hxy
    · intro x hx
      simp only [List.mem_filter, decide_eq_true_eq] at hx
      obtain ⟨i, hi⟩ := List.mem_iff_getElem?.mp (Tables.mem_log.mpr hx)
      have hlt := (List.getElem?_eq_some_iff.mp hi).1
      rw [AcceptanceSequence.lt_def, h.position_eq hw, hw.getElem?_log hi]
      omega
  · rw [if_neg hd, List.filter_singleton,
      decide_eq_false (fun he ↦ hd (h.row_document.symm.trans he)), cond_false,
      List.append_nil, List.append_nil]
    rfl

/-- The peers of a document are those it had and those of the new update. -/
theorem isSome_peer_iff (d : DocumentId) (peer : U64) :
    (t'.documentLoroPeers.find? (d, peer)).isSome = true ↔
      (t.documentLoroPeers.find? (d, peer)).isSome = true ∨
        (update.documentId = d ∧ peer ∈ update.publicLoroRanges.peers) := by
  have hold : (t.documentLoroPeers.find? (d, peer)).isSome = true ↔
      ∃ row ∈ t.documentLoroPeers.rows, Keyed.key row = (d, peer) := Table.isSome_find?_iff
  rw [Table.isSome_find?_iff, h.documentLoroPeers]
  simp only [List.mem_append, peerRows, List.mem_map, newPeers, List.mem_filter]
  constructor
  · rintro ⟨row, hrow | ⟨peer', ⟨hpeer, -⟩, rfl⟩, hkey⟩
    · exact Or.inl (hold.mpr ⟨row, hrow, hkey⟩)
    · obtain ⟨rfl, rfl⟩ := Prod.mk_inj.mp hkey
      exact Or.inr ⟨rfl, List.mem_map.mpr hpeer⟩
  · rintro (hsome | ⟨rfl, hpeer⟩)
    · obtain ⟨row, hrow, hkey⟩ := hold.mp hsome
      exact ⟨row, Or.inl hrow, hkey⟩
    · cases hfind : t.documentLoroPeers.find? (update.documentId, peer) with
      | some row =>
        obtain ⟨hmem, hkey⟩ := Table.find?_eq_some_iff.mp hfind
        exact ⟨row, Or.inl hmem, hkey⟩
      | none =>
        exact ⟨_, Or.inr ⟨peer, ⟨List.mem_map.mp hpeer, by rw [hfind]; rfl⟩, rfl⟩, rfl⟩

theorem peerCount_eq (d : DocumentId) :
    peerCount t' d = peerCount t d + if update.documentId = d then
      (newPeers t update.documentId update.publicLoroRanges.ranges).length else 0 := by
  rw [peerCount, h.documentLoroPeers, List.countP_append, peerRows, List.countP_map, peerCount]
  congr 1
  by_cases hd : update.documentId = d
  · rw [if_pos hd]
    exact List.countP_eq_length.mpr fun _ _ ↦ by simpa using hd
  · rw [if_neg hd]
    exact List.countP_eq_zero.mpr fun _ _ ↦ by simpa using hd

theorem updatesWellFormed (hw : UpdatesWellFormed t) (hrecord : row.update? = some update) :
    UpdatesWellFormed t' := by
  have hlog := h.log_eq hw
  have hposition := h.position_eq hw
  exact
    { positions := by
        intro d
        rw [hlog, List.map_append, hw.positions d]
        by_cases hd : update.documentId = d
        · subst hd
          rw [if_pos rfl, List.map_singleton, hposition, List.length_append, List.length_singleton,
            List.range'_concat, Nat.one_mul, Nat.add_comm 1]
        · rw [if_neg hd, List.map_nil, List.append_nil, List.append_nil]
      record := by
        intro row' hrow'
        rw [h.updates, List.mem_append, List.mem_singleton] at hrow'
        rcases hrow' with hrow' | rfl
        · exact hw.record hrow'
        · exact ⟨update, hrecord, h.row_document.symm, h.row_update.symm⟩
      next := by
        intro d row' hrow'
        rw [h.documentAcceptanceSequences] at hrow'
        rw [hlog]
        split at hrow'
        · rename_i hd
          obtain rfl := Option.some_inj.mp hrow'
          subst hd
          rw [if_pos rfl, List.length_append, List.length_singleton]
          exact congrArg (· + 1) hposition
        · rename_i hd
          rw [if_neg hd, List.append_nil]
          exact hw.next hrow'
      sequence_document := by
        intro d row' hrow'
        rw [Tables.document?, h.documents]
        rw [h.documentAcceptanceSequences] at hrow'
        split at hrow'
        · rename_i hd
          obtain ⟨document, hdocument, -⟩ := document_of_authorize h.authorized
          rw [← hd]
          exact Option.isSome_iff_exists.mpr ⟨document, hdocument⟩
        · exact hw.sequence_document hrow'
      sequenced := by
        intro row' hrow'
        rw [h.documentAcceptanceSequences]
        split
        · rfl
        · rename_i hd
          rw [h.updates, List.mem_append, List.mem_singleton] at hrow'
          rcases hrow' with hrow' | rfl
          · exact hw.sequenced hrow'
          · exact absurd h.row_document.symm hd
      ranges := by
        rw [h.updateLoroRanges, h.updates, List.flatMap_append, List.flatMap_singleton]
        have hrows : row.rangeRows = rangeRows update := by
          rw [UpdateRow.rangeRows, hrecord]
          rfl
        rw [hrows]
        exact hw.ranges.append_right _
      peers := by
        intro d peer
        rw [h.isSome_peer_iff, hw.peers, hlog]
        have hpeers : row.peers = update.publicLoroRanges.peers := by
          rw [UpdateRow.peers, hrecord]
          rfl
        by_cases hd : update.documentId = d
        · simp [hd, or_and_right, exists_or, hpeers]
        · simp [hd]
      peerCount_le := by
        intro d
        rw [h.peerCount_eq]
        split
        · rename_i hd
          subst hd
          exact h.peers_le
        · exact hw.peerCount_le d }

end Accepted

/-! ## Everything together -/

variable {d : DocumentId}

theorem Created.wellFormed {r : CreateCommand} (h : Created sha256 t t' r) (hw : WellFormed t) :
    WellFormed t' where
  control := h.controlWellFormed hw.control
  log := hw.log.congr (h.persists (hw.control.capability?_of_document? h.document_fresh _))
    h.updates h.documentAcceptanceSequences h.updateLoroRanges h.documentLoroPeers

theorem Granted.wellFormed {r : GrantCommand} {revision : ControlRevision}
    (h : Granted sha256 t t' r revision) (hw : WellFormed t) : WellFormed t' where
  control := h.controlWellFormed hw.control
  log := hw.log.congr h.persists h.updates h.documentAcceptanceSequences h.updateLoroRanges
    h.documentLoroPeers

theorem Revoked.wellFormed {r : RevokeCommand} {revision : ControlRevision}
    (h : Revoked sha256 t t' r revision) (hw : WellFormed t) : WellFormed t' where
  control := h.controlWellFormed hw.control
  log := hw.log.congr h.persists h.updates h.documentAcceptanceSequences h.updateLoroRanges
    h.documentLoroPeers

theorem Accepted.wellFormed {c : CapabilityId} {a : Authenticator} {update : ImmutableUpdate}
    {row : UpdateRow} (h : Accepted sha256 t t' c a update row) (hw : WellFormed t)
    (hrecord : row.update? = some update) : WellFormed t' where
  control := hw.control.congr h.persists h.capabilities h.capabilityOperations h.controlReceipts
    h.createReceipts
    (fun {d document} hdocument ↦ ⟨document, by
      rw [Tables.document?, h.documents] at hdocument; exact hdocument, rfl, rfl⟩)
    (by rw [h.documents])
  log := h.updatesWellFormed hw.log hrecord

theorem wellFormed_retireDocument (hw : WellFormed t) : WellFormed (retireDocument t d) where
  control := hw.control.congr (persists_retireDocument t d) rfl rfl rfl rfl
    (fun {d' document'} hdocument' ↦ by
      rw [document?_retireDocument, Option.map_eq_some_iff] at hdocument'
      obtain ⟨document, hdocument, rfl⟩ := hdocument'
      exact ⟨document, hdocument, by simp, by simp⟩)
    (List.length_map _)
  log := hw.log.congr (persists_retireDocument t d) rfl rfl rfl rfl

theorem wellFormed_disableCreateAuthority {i : CreateAuthorityId} (hw : WellFormed t) :
    WellFormed (disableCreateAuthority t i) where
  control := hw.control.congr (persists_disableCreateAuthority t i) rfl rfl rfl rfl
    (fun hdocument ↦ ⟨_, hdocument, rfl, rfl⟩) rfl
  log := hw.log.congr (persists_disableCreateAuthority t i) rfl rfl rfl rfl

theorem wellFormed_provisionCreateAuthority {provision : CreateAuthorityProvision}
    (h : provisionCreateAuthority t provision = .ok t') (hw : WellFormed t) : WellFormed t' := by
  have hp := persists_provisionCreateAuthority h
  obtain ⟨createAuthorities, rfl⟩ := provisionCreateAuthority_eq_ok h
  exact ⟨hw.control.congr hp rfl rfl rfl rfl (fun hdocument ↦ ⟨_, hdocument, rfl, rfl⟩) rfl,
    hw.log.congr hp rfl rfl rfl rfl⟩

/-- A fresh database is well-formed. -/
theorem wellFormed_empty : WellFormed .empty where
  control :=
    { root := fun h ↦ absurd h (by simp [Tables.empty, Tables.document?])
      root_unique := fun h ↦ absurd h (by simp [Tables.empty, Tables.capability?])
      document := fun h ↦ absurd h (by simp [Tables.empty, Tables.capability?])
      edge := fun h ↦ absurd h (by simp [Tables.empty, Tables.capability?])
      within := fun h ↦ absurd h (by simp [Tables.empty, Tables.capability?])
      operations := fun h ↦ absurd h (by simp [Tables.empty, Tables.capability?])
      operation_capability := fun h ↦ absurd h (by simp [Tables.empty, Tables.hasOperation])
      receipt := fun h ↦ absurd h (by simp [Tables.empty])
      revision := fun h ↦ absurd h (by simp [Tables.empty, Tables.document?])
      createReceipt := fun h ↦ absurd h (by simp [Tables.empty])
      createReceipts_length := rfl
      childCount_le := fun _ _ ↦ Nat.zero_le _
      capabilityCount_le := fun _ ↦ Nat.zero_le _
      capabilities_le := Nat.zero_le _
      receiptCount_le := fun _ ↦ Nat.zero_le _
      receipts_le := Nat.zero_le _
      documents_le := Nat.zero_le _
      authorityDocumentCount_le := fun _ ↦ Nat.zero_le _ }
  log :=
    { positions := fun _ ↦ rfl
      record := fun h ↦ absurd h (by simp [Tables.empty])
      next := fun h ↦ absurd h (by simp [Tables.empty])
      sequence_document := fun h ↦ absurd h (by simp [Tables.empty])
      sequenced := fun h ↦ absurd h (by simp [Tables.empty])
      ranges := List.Perm.refl _
      peers := by
        intro d peer
        simp [Tables.empty, Tables.log, orderBy]
      peerCount_le := fun _ ↦ Nat.zero_le _ }

end Effects

end Renee
