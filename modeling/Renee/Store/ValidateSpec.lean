import Renee.Store.WellFormed

/-!
# Well-formed tables pass validation

`validate` stops at the first thing it does not like.  Here each of its loops is shown not to stop,
from the clause of `WellFormed` it checks.

* A lookup among the loaded capabilities of a document is a lookup in the table
  (`findCapability_documentCapabilities`), so the walks and the receipt checks read the clauses off.
* The counting loops carry what is still to come: the count so far and the rows ahead make the
  count the limit is about.
* The scan over the updates carries `Scanned`: the next positions, peers and ranges of the rows
  done so far.
-/

set_option autoImplicit false

namespace Renee

open ByteString Relational Ancestry Guard

variable {t : Tables} {d : DocumentId}

/-! ## Slices of a normalized input -/

/-- A create receipt that agrees with its root passes the comparison of its slices. -/
theorem createInput_slices (d : DocumentId) (c : CapabilityId) (v : VerifierPair) :
    (createInput d c v).take 16 = d.bytes.toList ∧
      ((createInput d c v).drop 16).take 16 = c.bytes.toList ∧
      ((createInput d c v).drop 32).take 32 = v.live.toList ∧
      (createInput d c v).drop 64 = v.receipt.toList := by
  simp [createInput, List.drop_append, Bytes.length_eq, List.drop_eq_nil_of_le,
    identifierLength, verifierLength]

theorem grantInput_slices (c : CapabilityId) (v : VerifierPair) (operations : OperationSet) :
    (grantInput c v operations).take 16 = c.bytes.toList ∧
      ((grantInput c v operations).drop 16).take 32 = v.live.toList ∧
      ((grantInput c v operations).drop 48).take 32 = v.receipt.toList ∧
      (grantInput c v operations).drop 80 = toBe 2 operations.bits.toNat := by
  simp [grantInput, List.drop_append, Bytes.length_eq, List.drop_eq_nil_of_le,
    identifierLength, verifierLength]

theorem fromBits_toBe (operations : OperationSet) :
    OperationSet.fromBits (BitVec.ofNat 16 (ofBe (toBe 2 operations.bits.toNat))) =
      some operations := by
  rw [ofBe_toBe operations.bits.isLt, BitVec.ofNat_toNat, BitVec.setWidth_eq,
    OperationSet.fromBits, dif_pos operations.canonical]

/-! ## Creation -/

theorem root_of_parent_eq_none {row : CapabilityRow} (h : row.parentCapabilityId = none) :
    row.root = true :=
  row.root_iff.mpr h

theorem validateCreateReceiptsFrom_ok {rows : List CreateReceiptRow}
    {counts : CreateAuthorityId → ℕ} (hagree : ∀ row ∈ rows, CreateReceiptAgrees t row)
    (hcounts : ∀ i, counts i + rows.countP (fun row ↦ row.createAuthorityId = i) ≤
      maxDocumentsPerCreateAuthority) :
    validateCreateReceiptsFrom t rows counts = .ok () := by
  induction rows generalizing counts with
  | nil => rfl
  | cons row rows ih =>
    obtain ⟨-, document, root, -, -, hroot, hnone, hinput⟩ := hagree row (List.mem_cons_self ..)
    have hslices := createInput_slices row.documentId row.rootCapabilityId
      ⟨root.liveVerifier, root.receiptVerifier⟩
    rw [← hinput] at hslices
    obtain ⟨h₁, h₂, h₃, h₄⟩ := hslices
    have hcount := hcounts row.createAuthorityId
    rw [List.countP_cons_of_pos (by simp)] at hcount
    have hmax : maxDocumentsPerCreateAuthority < 2 ^ 64 := by decide
    rw [validateCreateReceiptsFrom, if_neg (by rw [hinput, length_createInput]; simp), hroot,
      Option.filter_some_pos (root_of_parent_eq_none hnone)]
    simp only
    rw [if_neg (by simp [h₁, h₂, h₃, h₄]), checkedAdd_eq_some (by omega)]
    simp only
    rw [if_neg (by omega)]
    refine ih (fun row' hrow' ↦ hagree row' (List.mem_cons_of_mem _ hrow')) fun i ↦ ?_
    have hi := hcounts i
    rw [List.countP_cons] at hi
    by_cases heq : i = row.createAuthorityId
    · subst heq
      rw [Function.update_self]
      simpa [Nat.add_assoc, Nat.add_comm 1] using hi
    · rw [Function.update_of_ne heq]
      omega

theorem validateCreateState_ok (h : ControlWellFormed t) : validateCreateState t = .ok () := by
  rw [validateCreateState, bind_eq_ok]
  refine ⟨(), reject_eq_ok.mpr (not_not.mpr h.createReceipts_length), ?_⟩
  rw [bind_eq_ok]
  have hdocuments := h.documents_le
  have hlength := h.createReceipts_length
  have hmax : maxGlobalDocuments ≤ maxGlobalCreateReceipts := by decide
  refine ⟨(), reject_eq_ok.mpr (by omega), validateCreateReceiptsFrom_ok ?_ fun i ↦ ?_⟩
  · exact fun row hrow ↦ h.createReceipt (mem_orderBy.mp hrow)
  · rw [Nat.zero_add, (orderBy_perm _ _).countP_eq]
    exact h.authorityDocumentCount_le i

/-! ## Capabilities -/

theorem mem_documentCapabilities {capability : ValidatedCapability} :
    capability ∈ documentCapabilities t d ↔
      ∃ row, t.capability? d row.capabilityId = some row ∧
        capability = ⟨row, loadOperationSet t d row.capabilityId⟩ := by
  rw [documentCapabilities, List.mem_map]
  simp only [mem_orderBy, List.mem_filter, decide_eq_true_eq, Tables.capability?_eq_some_iff,
    and_true]
  exact exists_congr fun row ↦ and_congr Iff.rfl eq_comm

/-- The capabilities of a document, counted in the table. -/
theorem countP_documentCapabilities (p : CapabilityRow → Bool) :
    (documentCapabilities t d).countP (fun capability ↦ p capability.row) =
      t.capabilities.rows.countP fun row ↦ decide (row.documentId = d) && p row := by
  rw [documentCapabilities, List.countP_map]
  show (orderBy _ _).countP p = _
  rw [(orderBy_perm _ _).countP_eq, List.countP_filter]
  simp only [Bool.and_comm]

/-- **Looking a capability up among those of its document is looking it up in the table.** -/
theorem findCapability_documentCapabilities {c : CapabilityId} {row : CapabilityRow}
    (hrow : t.capability? d c = some row) :
    findCapability (documentCapabilities t d) c = some ⟨row, loadOperationSet t d c⟩ := by
  obtain ⟨-, -, rfl⟩ := Tables.capability?_eq_some_iff.mp hrow
  rw [findCapability]
  cases hfind : (documentCapabilities t d).find? fun capability ↦
      capability.row.capabilityId = row.capabilityId with
  | none =>
    have hno := List.find?_eq_none.mp hfind _ (mem_documentCapabilities.mpr ⟨row, hrow, rfl⟩)
    exact absurd (decide_eq_true rfl) hno
  | some capability =>
    have hc : capability.row.capabilityId = row.capabilityId := by simpa using List.find?_some hfind
    obtain ⟨row', hrow', rfl⟩ := mem_documentCapabilities.mp (List.mem_of_find?_eq_some hfind)
    rw [show row'.capabilityId = row.capabilityId from hc] at hrow' ⊢
    rw [Option.some_inj.mp (hrow.symm.trans hrow')]

theorem ControlWellFormed.loadOperationSet_isEmpty (h : ControlWellFormed t) {c : CapabilityId}
    {row : CapabilityRow} (hrow : t.capability? d c = some row) :
    (loadOperationSet t d c).isEmpty = false := by
  obtain ⟨operation, hop⟩ := h.operations hrow
  rw [← contains_loadOperationSet] at hop
  by_contra hempty
  rw [OperationSet.isEmpty_iff.mp (by simpa using hempty)] at hop
  exact absurd hop (by simp)

theorem loadCapabilities_ok (h : ControlWellFormed t) :
    loadCapabilities t d = .ok (documentCapabilities t d) := by
  rw [loadCapabilities, bind_eq_ok]
  refine ⟨(), forM_eq_ok.mpr fun capability hmem ↦ reject_eq_ok.mpr ?_, rfl⟩
  obtain ⟨row, hrow, rfl⟩ := mem_documentCapabilities.mp hmem
  simp [h.loadOperationSet_isEmpty hrow]

theorem validateFanOut_ok {capabilities : List ValidatedCapability} {counts : CapabilityId → ℕ}
    (hcounts : ∀ p, counts p + capabilities.countP
      (fun capability ↦ capability.row.parentCapabilityId = some p) ≤
        maxDirectCapabilityChildren) :
    validateFanOut capabilities counts = .ok () := by
  induction capabilities generalizing counts with
  | nil => rfl
  | cons capability capabilities ih =>
    rw [validateFanOut]
    split
    · rename_i hnone
      exact ih fun p ↦ by simpa [hnone] using hcounts p
    · rename_i parent hparent
      have hcount := hcounts parent
      rw [List.countP_cons_of_pos (by simpa using hparent)] at hcount
      have hmax : maxDirectCapabilityChildren < 2 ^ 64 := by decide
      rw [checkedAdd_eq_some (by omega)]
      simp only
      rw [if_neg (by omega)]
      refine ih fun p ↦ ?_
      have hp := hcounts p
      rw [List.countP_cons] at hp
      by_cases heq : p = parent
      · subst heq
        rw [Function.update_self]
        simpa [hparent, Nat.add_assoc, Nat.add_comm 1] using hp
      · rw [Function.update_of_ne heq]
        omega

/-- The walk up from a capability finds each parent as the invariant describes it, and never meets
a node again because revisions decrease. -/
theorem validateAncestryFrom_ok (h : ControlWellFormed t) {document : DocumentRow}
    (hdocument : t.document? d = some document) {steps : ℕ} {seen : List CapabilityId}
    {c : CapabilityId} {row : CapabilityRow} (hrow : t.capability? d c = some row)
    (hwithin : Within (t.parent? d) steps c)
    (hseen : ∀ x ∈ seen, ∃ row', t.capability? d x = some row' ∧
      row.createdRevision.get < row'.createdRevision.get) :
    validateAncestryFrom document.rootCapabilityId (documentCapabilities t d) steps seen
      ⟨row, loadOperationSet t d c⟩ = .ok () := by
  induction steps generalizing seen c row with
  | zero => exact absurd hwithin not_within_zero
  | succ steps ih =>
    obtain ⟨-, rfl, rfl⟩ := Tables.capability?_eq_some_iff.mp hrow
    have hnot : row.capabilityId ∉ seen := fun hmem ↦ by
      obtain ⟨row', hrow', hlt⟩ := hseen _ hmem
      rw [Option.some_inj.mp (hrow.symm.trans hrow')] at hlt
      exact absurd hlt (lt_irrefl _)
    rw [validateAncestryFrom, if_neg hnot]
    cases hparent : row.parentCapabilityId with
    | none =>
      obtain ⟨document', hdocument', hroot⟩ := h.root_unique hrow hparent
      obtain rfl := Option.some_inj.mp (hdocument.symm.trans hdocument')
      simp [root_of_parent_eq_none hparent, hroot]
    | some p =>
      have hroot : ¬row.root = true := by rw [row.root_iff, hparent]; simp
      obtain ⟨parent, hparentRow, hlt, hops, hrev⟩ := h.edge hrow hparent
      have hallows : (loadOperationSet t row.documentId p).allows
          (loadOperationSet t row.documentId row.capabilityId) = true := by
        refine OperationSet.allows_iff.mpr ⟨h.loadOperationSet_isEmpty hrow, fun operation ↦ ?_⟩
        rw [contains_loadOperationSet, contains_loadOperationSet]
        exact hops operation
      simp only
      rw [if_neg hroot, findCapability_documentCapabilities hparentRow]
      simp only
      rw [if_neg (Nat.not_le.mpr hlt), hallows, if_neg (by simp), if_neg (by simpa using hrev)]
      refine ih hparentRow
        (within_succ_iff.mp hwithin p ((Tables.parent?_eq hrow).trans hparent)) ?_
      intro x hx
      rcases List.mem_cons.mp hx with rfl | hx
      · exact ⟨row, hrow, hlt⟩
      · obtain ⟨row', hrow', hlt'⟩ := hseen x hx
        exact ⟨row', hrow', hlt.trans hlt'⟩

/-! ## Receipts -/

theorem decodeIdentifier_bytes {kind : IdentifierKind} (i : Identifier kind) :
    decodeIdentifier i.bytes.toList = .ok i := by
  rw [decodeIdentifier, dif_pos i.bytes.length_eq]

theorem validateGrantReceipt_ok (h : ControlWellFormed t) {receipt : ControlReceiptRow}
    {c : CapabilityId} {row : CapabilityRow} (hrow : t.capability? d c = some row)
    (hparent : row.parentCapabilityId = some receipt.issuerCapabilityId)
    (hinput : receipt.normalizedInput = grantInput c ⟨row.liveVerifier, row.receiptVerifier⟩
      (loadOperationSet t d c)) :
    validateGrantReceipt receipt (documentCapabilities t d) = .ok () := by
  have hslices := grantInput_slices c ⟨row.liveVerifier, row.receiptVerifier⟩
    (loadOperationSet t d c)
  rw [← hinput] at hslices
  obtain ⟨h₁, h₂, h₃, h₄⟩ := hslices
  rw [validateGrantReceipt, bind_eq_ok]
  refine ⟨(), reject_eq_ok.mpr (by rw [hinput, length_grantInput]; simp), ?_⟩
  rw [bind_eq_ok]
  refine ⟨c, by rw [h₁, decodeIdentifier_bytes], ?_⟩
  rw [findCapability_documentCapabilities hrow]
  simp only [bind_eq_ok]
  refine ⟨(), reject_eq_ok.mpr (by simp [hparent, h₂, h₃]), ?_⟩
  rw [h₄, fromBits_toBe, Option.filter_some_pos (by simp [h.loadOperationSet_isEmpty hrow])]
  exact reject_eq_ok.mpr (by simp)

theorem validateRevokeReceipt_ok {receipt : ControlReceiptRow} {c : CapabilityId}
    {row : CapabilityRow} (hrow : t.capability? d c = some row) (hrevoked : row.revoked = true)
    (hinput : receipt.normalizedInput = revokeInput c) :
    validateRevokeReceipt receipt (documentCapabilities t d) = .ok () := by
  rw [validateRevokeReceipt, bind_eq_ok]
  refine ⟨(), reject_eq_ok.mpr (by rw [hinput, length_revokeInput]; simp), ?_⟩
  rw [bind_eq_ok]
  refine ⟨c, by rw [hinput, revokeInput, decodeIdentifier_bytes], ?_⟩
  rw [findCapability_documentCapabilities hrow]
  exact reject_eq_ok.mpr (by simp [hrevoked])

theorem validateControlReceipt_ok (h : ControlWellFormed t) {receipt : ControlReceiptRow}
    (hreceipt : receipt ∈ t.controlReceipts.rows) :
    validateControlReceipt (documentCapabilities t receipt.documentId) receipt = .ok () := by
  obtain ⟨⟨issuer, hissuer⟩, hop⟩ := h.receipt hreceipt
  rw [validateControlReceipt, bind_eq_ok]
  refine ⟨(), reject_eq_ok.mpr ?_, ?_⟩
  · rw [findCapability_documentCapabilities hissuer]
    simp
  · split
    · rename_i hgrant
      simp only [hgrant] at hop
      obtain ⟨c, row, hrow, hparent, hinput⟩ := hop
      exact validateGrantReceipt_ok h hrow hparent hinput
    · rename_i hrevoke
      simp only [hrevoke] at hop
      obtain ⟨c, row, hrow, hrevoked, hinput⟩ := hop
      exact validateRevokeReceipt_ok hrow hrevoked hinput

theorem validateControlReceipts_ok (h : ControlWellFormed t) :
    validateControlReceipts t d (documentCapabilities t d) = .ok (receiptCount t d) := by
  rw [validateControlReceipts, bind_eq_ok]
  refine ⟨(), forM_eq_ok.mpr fun receipt hreceipt ↦ ?_, ?_⟩
  · rw [mem_orderBy, List.mem_filter, decide_eq_true_eq] at hreceipt
    obtain ⟨hmem, rfl⟩ := hreceipt
    exact validateControlReceipt_ok h hmem
  · rw [length_orderBy, ← List.countP_eq_length_filter]
    rfl

/-! ## Documents -/

/-- A document has one root. -/
theorem countP_root (h : ControlWellFormed t) {document : DocumentRow}
    (hdocument : t.document? d = some document) :
    (documentCapabilities t d).countP (fun capability ↦ capability.row.root) = 1 := by
  obtain ⟨root, hroot, hnone, -⟩ := h.root hdocument
  obtain ⟨hmem, hd, -⟩ := Tables.capability?_eq_some_iff.mp hroot
  have hunique : ∀ row ∈ t.capabilities.rows,
      (decide (row.documentId = d) && row.root) = true ↔ (row == root) = true := by
    intro row hrow
    rw [Bool.and_eq_true, decide_eq_true_eq, beq_iff_eq]
    constructor
    · rintro ⟨rfl, hr⟩
      have hfind := Tables.capability?_eq_some_iff.mpr ⟨hrow, rfl, rfl⟩
      obtain ⟨document', hdocument', hid⟩ := h.root_unique hfind (row.root_iff.mp hr)
      obtain rfl := Option.some_inj.mp (hdocument.symm.trans hdocument')
      rw [← hid] at hfind
      exact Option.some_inj.mp (hfind.symm.trans hroot)
    · rintro rfl
      exact ⟨hd, root_of_parent_eq_none hnone⟩
  rw [countP_documentCapabilities, List.countP_congr hunique, ← List.count]
  exact List.count_eq_one_of_mem t.capabilities.nodup_rows hmem

theorem validateDocument_ok (h : ControlWellFormed t) {document : DocumentRow}
    (hmem : document ∈ t.documents.rows) : validateDocument t document = .ok () := by
  have hdocument := Tables.document?_eq_some_iff.mpr ⟨hmem, rfl⟩
  obtain ⟨root, hroot, hnone, hinit, hops⟩ := h.root hdocument
  have hrevision := h.revision hdocument
  have hreceipts := h.receiptCount_le document.documentId
  simp only [validateDocument, bind_eq_ok]
  refine ⟨_, loadCapabilities_ok h, (), reject_eq_ok.mpr ?_, (), validateFanOut_ok fun p ↦ ?_, ?_⟩
  · rw [documentCapabilities, List.length_map, length_orderBy, ← List.countP_eq_length_filter]
    exact Nat.not_lt.mpr (h.capabilityCount_le document.documentId)
  · rw [Nat.zero_add, countP_documentCapabilities fun row ↦ row.parentCapabilityId = some p]
    simpa only [childCount, Bool.decide_and] using h.childCount_le document.documentId p
  rw [findCapability_documentCapabilities hroot]
  have hfull : loadOperationSet t document.documentId document.rootCapabilityId = .full :=
    OperationSet.ext_contains fun operation ↦ by
      rw [contains_loadOperationSet, hops operation, OperationSet.contains_full]
  simp only [bind_eq_ok]
  refine ⟨(), reject_eq_ok.mpr ?_, (), reject_eq_ok.mpr ?_, (), reject_eq_ok.mpr ?_, (),
    forM_eq_ok.mpr fun capability hcapability ↦ ?_, _, validateControlReceipts_ok h, (),
    reject_eq_ok.mpr (Nat.not_lt.mpr hreceipts), (), reject_eq_ok.mpr (not_not.mpr hrevision),
    reject_eq_ok.mpr (Nat.not_lt.mpr (documentControlBytes_le h _))⟩
  · rw [countP_root h hdocument, root_of_parent_eq_none hnone, hnone]
    simp
  · rw [hinit, hfull]
    simp [ControlRevision.initial]
  · rw [hinit, ControlRevision.initial]
    simp only
    omega
  · obtain ⟨row, hrow, rfl⟩ := mem_documentCapabilities.mp hcapability
    obtain ⟨document', hdocument', hle⟩ := h.document hrow
    obtain rfl := Option.some_inj.mp (hdocument.symm.trans hdocument')
    rw [validateCapabilityAncestry, bind_eq_ok]
    exact ⟨(), reject_eq_ok.mpr (Nat.not_lt.mpr hle),
      validateAncestryFrom_ok h hdocument hrow (h.within hrow) fun x hx ↦ absurd hx (by simp)⟩

theorem validateCapabilityState_ok (h : ControlWellFormed t) :
    validateCapabilityState t = .ok () := by
  have hcapabilities := h.capabilities_le
  have hreceipts := h.receipts_le
  simp only [validateCapabilityState, bind_eq_ok]
  refine ⟨(), forM_eq_ok.mpr fun document hdocument ↦ ?_, (), reject_eq_ok.mpr (by omega),
    reject_eq_ok.mpr (Nat.not_lt.mpr (globalControlBytes_le h))⟩
  exact validateDocument_ok h (mem_orderBy.mp hdocument)

/-! ## The scan over the updates -/

/-- The range index holds, of an update, exactly the ranges of its record. -/
theorem UpdatesWellFormed.indexed_ranges (h : UpdatesWellFormed t) {row : UpdateRow}
    (hrow : row ∈ t.updates.rows) {update : ImmutableUpdate} (hupdate : row.update? = some update)
    (hd : update.documentId = row.documentId) (hu : update.updateId = row.updateId) :
    orderBy UpdateLoroRangeRow.peerId (t.updateLoroRanges.rows.filter fun range ↦
      range.documentId = row.documentId ∧ range.updateId = row.updateId) = rangeRows update := by
  -- a row of the index belongs to the update its key names
  have hkey : ∀ {row' : UpdateRow} {range : UpdateLoroRangeRow}, row' ∈ t.updates.rows →
      range ∈ row'.rangeRows →
        range.documentId = row'.documentId ∧ range.updateId = row'.updateId := by
    intro row' range hrow' hrange
    obtain ⟨update', hupdate', hd', hu'⟩ := h.record hrow'
    rw [UpdateRow.rangeRows, hupdate', Option.map_some, Option.getD_some, rangeRows,
      List.mem_map] at hrange
    obtain ⟨r, -, rfl⟩ := hrange
    exact ⟨hd', hu'⟩
  have hrows : row.rangeRows = rangeRows update := by
    rw [UpdateRow.rangeRows, hupdate]
    rfl
  have hsorted : (rangeRows update).Pairwise fun x y ↦ x.peerId < y.peerId :=
    List.pairwise_map.mpr update.publicLoroRanges.sorted
  have hperm : (t.updateLoroRanges.rows.filter fun range ↦
      range.documentId = row.documentId ∧ range.updateId = row.updateId).Perm
        (rangeRows update) := by
    refine (List.perm_ext_iff_of_nodup (t.updateLoroRanges.nodup_rows.filter _)
      (hsorted.imp fun hlt heq ↦ absurd (congrArg _ heq) (ne_of_lt hlt))).mpr fun range ↦ ?_
    rw [List.mem_filter, h.ranges.mem_iff, List.mem_flatMap, decide_eq_true_eq, ← hrows]
    constructor
    · rintro ⟨⟨row', hrow', hrange⟩, hrd, hru⟩
      obtain ⟨hrd', hru'⟩ := hkey hrow' hrange
      obtain rfl : row' = row := t.updates.eq_of_key_eq hrow' hrow
        (Prod.ext (hrd'.symm.trans hrd) (hru'.symm.trans hru))
      exact hrange
    · exact fun hrange ↦ ⟨⟨row, hrow, hrange⟩, hkey hrow hrange⟩
  rw [orderBy_eq_of_perm ?_ hperm]
  · exact orderBy_eq_of_pairwise (hsorted.imp le_of_lt)
  · intro x hx y hy hxy
    simp only [List.mem_filter, decide_eq_true_eq] at hx hy
    exact t.updateLoroRanges.eq_of_key_eq hx.1 hy.1 (Prod.ext (hx.2.1.trans hy.2.1.symm)
      (Prod.ext (hx.2.2.trans hy.2.2.symm) hxy))

/-- The peers a scan has found are peers of the table, so there are not too many of them. -/
theorem countP_expectedPeers_le {peers : List (DocumentId × U64)} (hnodup : peers.Nodup)
    (hsub : ∀ peer, (d, peer) ∈ peers → (t.documentLoroPeers.find? (d, peer)).isSome = true) :
    peers.countP (fun x ↦ x.1 = d) ≤ peerCount t d := by
  have hsubset : peers.filter (fun x ↦ decide (x.1 = d)) ⊆
      (t.documentLoroPeers.rows.filter fun row ↦ row.documentId = d).map Keyed.key := by
    intro x hx
    obtain ⟨hmem, hx⟩ := List.mem_filter.mp hx
    obtain rfl : x.1 = d := by simpa using hx
    obtain ⟨row, hrow, hkey⟩ := Table.isSome_find?_iff.mp (hsub x.2 hmem)
    exact List.mem_map.mpr
      ⟨row, List.mem_filter.mpr ⟨hrow, decide_eq_true (congrArg Prod.fst hkey)⟩, hkey⟩
  have hle := (List.subperm_of_subset (hnodup.filter _) hsubset).length_le
  rwa [List.length_map, ← List.countP_eq_length_filter, ← List.countP_eq_length_filter] at hle

/-- What a scan has collected of peers and ranges. -/
structure ScanState.Collected (s : ScanState) (P : DocumentId → U64 → Prop) (n : ℕ) : Prop where
  nodup : s.expectedPeers.Nodup
  mem_iff : ∀ d peer, (d, peer) ∈ s.expectedPeers ↔ P d peer
  counts : ∀ d, s.expectedPeerCounts d = s.expectedPeers.countP fun x ↦ x.1 = d
  ranges : s.expectedRangeCount = n

namespace ScanState.Collected

variable {s : ScanState} {P : DocumentId → U64 → Prop} {n : ℕ}

theorem congr {P' : DocumentId → U64 → Prop} (hs : s.Collected P n)
    (h : ∀ d peer, P d peer ↔ P' d peer) : s.Collected P' n :=
  ⟨hs.nodup, fun d peer ↦ (hs.mem_iff d peer).trans (h d peer), hs.counts, hs.ranges⟩

/-- A range of a peer that is known adds to the ranges only. -/
theorem skip (hs : s.Collected P n) {peer : U64} (hmem : (d, peer) ∈ s.expectedPeers) :
    ({ s with expectedRangeCount := s.expectedRangeCount + 1 } : ScanState).Collected
      (fun d' peer' ↦ P d' peer' ∨ (d' = d ∧ peer' = peer)) (n + 1) where
  nodup := hs.nodup
  mem_iff d' peer' := by
    refine (hs.mem_iff d' peer').trans ⟨Or.inl, ?_⟩
    rintro (hp | ⟨rfl, rfl⟩)
    · exact hp
    · exact (hs.mem_iff _ _).mp hmem
  counts := hs.counts
  ranges := congrArg (· + 1) hs.ranges

/-- A range of a new peer adds to both. -/
theorem push (hs : s.Collected P n) {peer : U64} (hmem : (d, peer) ∉ s.expectedPeers) :
    ({ s with
      expectedRangeCount := s.expectedRangeCount + 1
      expectedPeers := s.expectedPeers ++ [(d, peer)]
      expectedPeerCounts := Function.update s.expectedPeerCounts d
        (s.expectedPeerCounts d + 1) } : ScanState).Collected
      (fun d' peer' ↦ P d' peer' ∨ (d' = d ∧ peer' = peer)) (n + 1) where
  nodup := List.Nodup.append hs.nodup (List.nodup_singleton _) (by simpa using hmem)
  mem_iff d' peer' := by rw [List.mem_append, hs.mem_iff, List.mem_singleton, Prod.mk_inj]
  counts d' := by
    rw [List.countP_append, ← hs.counts]
    by_cases hd : d' = d
    · subst hd
      simp
    · simp [Function.update_of_ne hd, Ne.symm hd]
  ranges := congrArg (· + 1) hs.ranges

end ScanState.Collected

/-- Comparing an update with its rows of the index collects its peers. -/
theorem validateRanges_ok (h : UpdatesWellFormed t) {ranges : List LoroRange} {u : UpdateId}
    {s : ScanState} {P : DocumentId → U64 → Prop} {n : ℕ} (hs : s.Collected P n)
    (hold : ∀ peer, P d peer → (t.documentLoroPeers.find? (d, peer)).isSome = true)
    (hnew : ∀ r ∈ ranges, (t.documentLoroPeers.find? (d, r.peerId)).isSome = true) :
    ∃ s', validateRanges d ranges (ranges.map fun r ↦
        ⟨d, u, r.peerId, r.startCounter, r.endCounter⟩) s = .ok s' ∧
      s'.nextSequences = s.nextSequences ∧ s'.documents = s.documents ∧
      s'.Collected (fun d' peer ↦ P d' peer ∨ (d' = d ∧ peer ∈ ranges.map LoroRange.peerId))
        (n + ranges.length) := by
  induction ranges generalizing s P n with
  | nil => exact ⟨s, rfl, rfl, rfl, by simpa using hs⟩
  | cons r rs ih =>
    have hold' : ∀ peer, (P d peer ∨ (d = d ∧ peer = r.peerId)) →
        (t.documentLoroPeers.find? (d, peer)).isSome = true := fun peer hp ↦
      hp.elim (hold peer) fun hp ↦ hp.2 ▸ hnew r (List.mem_cons_self ..)
    have hpeers : ∀ d' peer, ((P d' peer ∨ (d' = d ∧ peer = r.peerId)) ∨
        (d' = d ∧ peer ∈ rs.map LoroRange.peerId)) ↔
          P d' peer ∨ (d' = d ∧ peer ∈ (r :: rs).map LoroRange.peerId) := fun d' peer ↦ by
      rw [List.map_cons, List.mem_cons, or_assoc, ← and_or_left]
    rw [List.map_cons, validateRanges, if_neg (by simp), List.length_cons, Nat.add_comm rs.length,
      ← Nat.add_assoc]
    by_cases hmem : (d, r.peerId) ∈ s.expectedPeers
    · obtain ⟨s', heq, hnext, hdocs, hs'⟩ := ih (hs.skip hmem) hold' fun r' hr' ↦
        hnew r' (List.mem_cons_of_mem _ hr')
      exact ⟨s', by rw [if_pos hmem]; exact heq, hnext, hdocs, hs'.congr hpeers⟩
    · have hpush := hs.push hmem
      -- the new peer is one of the table, where there are not too many
      have hle := countP_expectedPeers_le (t := t) (d := d) hpush.nodup fun peer hpeer ↦
        hold' peer ((hpush.mem_iff _ _).mp hpeer)
      have hcount : s.expectedPeerCounts d + 1 ≤ peerCount t d := by
        refine le_trans (le_of_eq ?_) hle
        exact (Function.update_self ..).symm.trans (hpush.counts d)
      have hmax := h.peerCount_le d
      rw [if_neg hmem]
      simp only
      rw [if_neg (by omega)]
      obtain ⟨s', heq, hnext, hdocs, hs'⟩ := ih hpush hold' fun r' hr' ↦
        hnew r' (List.mem_cons_of_mem _ hr')
      exact ⟨s', heq, hnext, hdocs, hs'.congr hpeers⟩

/-- The updates of a document among those done so far. -/
def doneCount (done : List UpdateRow) (d : DocumentId) : ℕ :=
  done.countP fun row ↦ row.documentId = d

/-- What the scan has established of the rows done so far. -/
structure Scanned (done : List UpdateRow) (s : ScanState) : Prop where
  fresh : ∀ d, doneCount done d = 0 → s.nextSequences d = none
  next : ∀ d, 0 < doneCount done d →
    ∃ sequence, s.nextSequences d = some sequence ∧ sequence.get = doneCount done d + 1
  documents : ∀ d ∈ s.documents, 0 < doneCount done d
  collected : s.Collected (fun d peer ↦ ∃ row ∈ done, row.documentId = d ∧ peer ∈ row.peers)
    (done.flatMap UpdateRow.rangeRows).length

theorem scanned_initial : Scanned [] .initial where
  fresh _ _ := rfl
  next _ h := absurd h (by simp [doneCount])
  documents _ h := absurd h (by simp [ScanState.initial])
  collected :=
    { nodup := List.nodup_nil
      mem_iff := fun d peer ↦ by simp [ScanState.initial]
      counts := fun d ↦ by simp [ScanState.initial]
      ranges := rfl }

/-- The position the scan expects of a document. -/
theorem Scanned.expected {done : List UpdateRow} {s : ScanState} (hs : Scanned done s)
    (d : DocumentId) : ((s.nextSequences d).getD .first).get = doneCount done d + 1 := by
  rcases Nat.eq_zero_or_pos (doneCount done d) with hz | hpos
  · rw [hs.fresh _ hz, hz]
    rfl
  · obtain ⟨sequence, hsome, hget⟩ := hs.next _ hpos
    rw [hsome]
    exact hget

theorem doneCount_concat (done : List UpdateRow) (row : UpdateRow) (d : DocumentId) :
    doneCount (done ++ [row]) d =
      doneCount done d + if row.documentId = d then 1 else 0 := by
  rw [doneCount, List.countP_append, List.countP_singleton, doneCount]
  simp only [decide_eq_true_eq]

/-- The scan has gone past one more row, which stood at the position it expected. -/
theorem Scanned.concat {done : List UpdateRow} {row : UpdateRow} {s s' : ScanState}
    {next : AcceptanceSequence} (hs : Scanned done s)
    (hposition : row.acceptanceSequence.get = doneCount done row.documentId + 1)
    (hnext : next.get = row.acceptanceSequence.get + 1)
    (hsequences : s'.nextSequences = Function.update s.nextSequences row.documentId (some next))
    (hdocuments : s'.documents = if (s.nextSequences row.documentId).isSome then s.documents
      else s.documents ++ [row.documentId])
    (hcollected : s'.Collected (fun d peer ↦
        (∃ row' ∈ done, row'.documentId = d ∧ peer ∈ row'.peers) ∨
          (d = row.documentId ∧ peer ∈ row.peers))
      ((done.flatMap UpdateRow.rangeRows).length + row.rangeRows.length)) :
    Scanned (done ++ [row]) s' where
  fresh := by
    intro d hz
    rw [doneCount_concat] at hz
    rw [hsequences]
    have hne : row.documentId ≠ d := fun he ↦ by rw [if_pos he] at hz; omega
    rw [if_neg hne] at hz
    exact (Function.update_of_ne hne.symm _ _).trans (hs.fresh d hz)
  next := by
    intro d hpos
    rw [doneCount_concat] at hpos ⊢
    rw [hsequences]
    by_cases hne : row.documentId = d
    · subst hne
      refine ⟨_, Function.update_self .., ?_⟩
      rw [if_pos rfl, hnext, hposition]
    · rw [if_neg hne] at hpos ⊢
      obtain ⟨sequence, hsome, hget⟩ := hs.next d hpos
      exact ⟨sequence, (Function.update_of_ne (Ne.symm hne) _ _).trans hsome, hget⟩
  documents := by
    intro d hmem
    rw [doneCount_concat]
    rw [hdocuments] at hmem
    split at hmem
    · exact Nat.lt_of_lt_of_le (hs.documents d hmem) (Nat.le_add_right _ _)
    · rcases List.mem_append.mp hmem with hmem | hmem
      · exact Nat.lt_of_lt_of_le (hs.documents d hmem) (Nat.le_add_right _ _)
      · rw [if_pos (List.mem_singleton.mp hmem).symm]
        exact Nat.succ_pos _
  collected := by
    rw [List.flatMap_append, List.length_append, List.flatMap_singleton]
    refine hcollected.congr fun d peer ↦ ?_
    simp only [List.mem_append, List.mem_singleton, or_and_right, exists_or, exists_eq_left]
    exact or_congr Iff.rfl (and_congr eq_comm Iff.rfl)

/-- The updates in the order validation goes through them. -/
def scanOrder (t : Tables) : List UpdateRow :=
  orderBy (fun row ↦ toLex (row.documentId, row.acceptanceSequence)) t.updates.rows

/-- Within the scan, the updates of a document come in the order of its log. -/
theorem UpdatesWellFormed.filter_scanOrder (h : UpdatesWellFormed t) (d : DocumentId) :
    (scanOrder t).filter (fun row ↦ row.documentId = d) = t.log d := by
  rw [scanOrder, Tables.log]
  convert filter_orderBy_lex (k := d) fun _ hx _ hy hxd hyd hxy ↦
    h.eq_of_position_eq (Tables.mem_log.mpr ⟨hx, hxd⟩) (Tables.mem_log.mpr ⟨hy, hyd⟩) hxy

/-- **One update of the scan**: its position follows those of its document, its record is its own,
and its ranges are the indexed ones. -/
theorem validateUpdate_ok (h : UpdatesWellFormed t) {done rest : List UpdateRow} {row : UpdateRow}
    {s : ScanState} (hsplit : scanOrder t = done ++ row :: rest) (hs : Scanned done s) :
    ∃ s', validateUpdate t s row = .ok s' ∧ Scanned (done ++ [row]) s' := by
  have hdone : ∀ {row'}, row' ∈ done ++ [row] → row' ∈ t.updates.rows := fun hmem ↦
    mem_orderBy.mp (by
      show _ ∈ scanOrder t
      rw [hsplit, List.append_cons]
      exact List.mem_append_left _ hmem)
  have hrow : row ∈ t.updates.rows := hdone (List.mem_append_right _ (List.mem_singleton_self row))
  obtain ⟨update, hupdate, hd, hu⟩ := h.record hrow
  -- the row stands in the log where the scan has got to
  have hlog : t.log row.documentId = done.filter (fun x ↦ x.documentId = row.documentId) ++
      row :: rest.filter (fun x ↦ x.documentId = row.documentId) := by
    rw [← h.filter_scanOrder, hsplit, List.filter_append, List.filter_cons_of_pos (by simp)]
  have hposition : row.acceptanceSequence.get = doneCount done row.documentId + 1 := by
    rw [doneCount, List.countP_eq_length_filter]
    refine h.getElem?_log (d := row.documentId) ?_
    rw [hlog, List.getElem?_append_right (le_refl _), Nat.sub_self]
    rfl
  have hexpected : (s.nextSequences row.documentId).getD .first = row.acceptanceSequence :=
    AcceptanceSequence.ext ((hs.expected _).trans hposition.symm)
  -- the counter of the document has gone past it
  obtain ⟨counter, hcounter⟩ := Option.isSome_iff_exists.mp (h.sequenced hrow)
  have hlt : row.acceptanceSequence.get + 1 < 2 ^ 64 := by
    have hnext := h.next hcounter
    have hbound := counter.nextSequence.isLt
    rw [hlog, List.length_append, List.length_cons, ← List.countP_eq_length_filter] at hnext
    rw [doneCount] at hposition
    omega
  have hpeersOf : ∀ {row' : UpdateRow} {peer : U64}, row' ∈ t.updates.rows → peer ∈ row'.peers →
      (t.documentLoroPeers.find? (row'.documentId, peer)).isSome = true := fun hmem hpeer ↦
    h.peers.mpr ⟨_, Tables.mem_log.mpr ⟨hmem, rfl⟩, hpeer⟩
  have hpeers : row.peers = update.publicLoroRanges.peers := by
    rw [UpdateRow.peers, hupdate]
    rfl
  have hranges : row.rangeRows = rangeRows update := by
    rw [UpdateRow.rangeRows, hupdate]
    rfl
  have hnext : row.acceptanceSequence.checkedNext =
      some ⟨row.acceptanceSequence.get + 1, hlt⟩ :=
    AcceptanceSequence.checkedNext_eq_some_iff.mpr rfl
  obtain ⟨s', heq, hnext', hdocs, hcollected⟩ := validateRanges_ok h (u := row.updateId)
    (s := { s with
      nextSequences := Function.update s.nextSequences row.documentId
        (some ⟨row.acceptanceSequence.get + 1, hlt⟩)
      documents := if (s.nextSequences row.documentId).isSome then s.documents
        else s.documents ++ [row.documentId] })
    ⟨hs.collected.nodup, hs.collected.mem_iff, hs.collected.counts, hs.collected.ranges⟩
    (d := row.documentId)
    (fun peer ⟨row', hmem, hrd, hpeer⟩ ↦ hrd ▸ hpeersOf
      (hdone (List.mem_append_left _ hmem)) hpeer)
    (fun r (hr : r ∈ update.publicLoroRanges.ranges) ↦
      hpeersOf hrow (hpeers ▸ List.mem_map_of_mem hr))
  refine ⟨s', ?_, hs.concat hposition rfl hnext' hdocs ?_⟩
  · rw [validateUpdate]
    simp only [hexpected, ne_eq, not_true, if_false, hnext,
      UpdateRow.update?_eq_some_iff.mp hupdate, hd, hu, or_self]
    rw [h.indexed_ranges hrow hupdate hd hu, rangeRows, hd, hu]
    exact heq
  · rw [hpeers, hranges, rangeRows, List.length_map]
    exact hcollected

/-- **The log passes validation.** -/
theorem validateLog_ok (h : UpdatesWellFormed t) :
    ∃ s, (scanOrder t).foldlM (validateUpdate t) .initial = .ok s ∧
      t.updateLoroRanges.rows.length = s.expectedRangeCount ∧
      (orderBy (fun row ↦ toLex (row.documentId, row.peerId)) t.documentLoroPeers.rows).map
        (fun row ↦ (row.documentId, row.peerId)) = orderBy toLex s.expectedPeers ∧
      ∀ d ∈ s.documents, t.log d ≠ [] ∧ validateNextSequence t s d = .ok () := by
  obtain ⟨s, hfold, hs⟩ := foldlM_ok (l := scanOrder t) Scanned scanned_initial
    fun done row rest s hsplit hs ↦ validateUpdate_ok h hsplit hs
  have hcount : ∀ d, doneCount (scanOrder t) d = (t.log d).length := fun d ↦ by
    rw [doneCount, List.countP_eq_length_filter, h.filter_scanOrder]
  refine ⟨s, hfold, ?_, ?_, fun d hd ↦ ?_⟩
  · rw [hs.collected.ranges, h.ranges.length_eq]
    exact ((orderBy_perm _ t.updates.rows).symm.flatMap_right UpdateRow.rangeRows).length_eq
  · -- two ascending arrangements of the same pairs
    have hkeys : t.documentLoroPeers.rows.map (fun row ↦ (row.documentId, row.peerId)) =
      t.documentLoroPeers.rows.map Keyed.key := rfl
    have hperm : (t.documentLoroPeers.rows.map fun row ↦ (row.documentId, row.peerId)).Perm
        s.expectedPeers := by
      refine (List.perm_ext_iff_of_nodup (hkeys ▸ t.documentLoroPeers.nodup_keys)
        hs.collected.nodup).mpr fun ⟨d, peer⟩ ↦ ?_
      rw [hs.collected.mem_iff, hkeys, List.mem_map, ← Table.isSome_find?_iff, h.peers]
      simp only [Tables.mem_log, scanOrder, mem_orderBy, and_assoc]
    refine eq_of_perm_of_pairwise toLex (fun x _ y _ hxy ↦ toLex.injective hxy)
      (((orderBy_perm _ _).map _).trans (hperm.trans (orderBy_perm _ _).symm)) ?_
      (pairwise_orderBy _ _)
    exact List.pairwise_map.mpr (pairwise_orderBy _ _)
  · have hpos := hs.documents d hd
    obtain ⟨sequence, hsome, hget⟩ := hs.next d hpos
    rw [hcount] at hpos hget
    obtain ⟨row, hrow⟩ := List.exists_mem_of_length_pos hpos
    obtain ⟨hmem, rfl⟩ := Tables.mem_log.mp hrow
    obtain ⟨counter, hcounter⟩ := Option.isSome_iff_exists.mp (h.sequenced hmem)
    refine ⟨List.ne_nil_of_length_pos hpos, ?_⟩
    rw [validateNextSequence, hcounter]
    refine reject_eq_ok.mpr (not_not.mpr ?_)
    rw [hsome, Option.some_inj]
    exact AcceptanceSequence.ext ((h.next hcounter).trans hget.symm)

/-! ## Everything together -/

/-- **Well-formed tables pass validation.** -/
theorem validate_of_wellFormed (h : WellFormed t) : validate t = .ok () := by
  obtain ⟨s, hfold, hlength, hpeers, hdocuments⟩ := validateLog_ok h.log
  simp only [validate, bind_eq_ok]
  exact ⟨(), validateCreateState_ok h.control, (), validateCapabilityState_ok h.control, s, hfold,
    (), reject_eq_ok.mpr (not_not.mpr hlength), (), reject_eq_ok.mpr (not_not.mpr hpeers),
    forM_eq_ok.mpr fun d hd ↦ (hdocuments d hd).2⟩

/-- Every range belongs to an update. -/
theorem UpdatesWellFormed.find?_of_range (hw : UpdatesWellFormed t) {range : UpdateLoroRangeRow}
    (hrange : range ∈ t.updateLoroRanges.rows) :
    (t.updates.find? (range.documentId, range.updateId)).isSome = true := by
  obtain ⟨row, hrow, hmem⟩ := List.mem_flatMap.mp (hw.ranges.mem_iff.mp hrange)
  obtain ⟨update, hupdate, hd, hu⟩ := hw.record hrow
  rw [UpdateRow.rangeRows, hupdate, Option.map_some, Option.getD_some, rangeRows,
    List.mem_map] at hmem
  obtain ⟨r, -, rfl⟩ := hmem
  rw [hd, hu, show t.updates.find? (row.documentId, row.updateId) = some row from
    Table.find?_key hrow]
  rfl

/-- **And no reference in them dangles.** -/
theorem foreignKeysHold_of_wellFormed (h : WellFormed t) : foreignKeysHold t = true := by
  have hdocument : ∀ {d c row}, t.capability? d c = some row → (t.document? d).isSome = true := by
    intro d c row hrow
    obtain ⟨document, hdocument, -⟩ := h.control.document hrow
    rw [hdocument]
    rfl
  have hlogDocument : ∀ row ∈ t.updates.rows, (t.document? row.documentId).isSome = true := by
    intro row hrow
    obtain ⟨counter, hcounter⟩ := Option.isSome_iff_exists.mp (h.log.sequenced hrow)
    exact h.log.sequence_document hcounter
  simp only [foreignKeysHold, Bool.and_eq_true, List.all_eq_true]
  refine ⟨⟨⟨⟨⟨⟨⟨?_, ?_⟩, ?_⟩, ?_⟩, ?_⟩, fun _ ↦ h.log.sequenced⟩, ?_⟩, ?_⟩
  · intro row hrow
    have hfind := Tables.capability?_eq_some_iff.mpr ⟨hrow, rfl, rfl⟩
    refine ⟨hdocument hfind, ?_⟩
    cases hp : row.parentCapabilityId with
    | none => rfl
    | some p =>
      obtain ⟨parent, hparent, -⟩ := h.control.edge hfind hp
      simp [hparent]
  · intro row hrow
    obtain ⟨capability, hcapability⟩ :=
      h.control.operation_capability (Tables.hasOperation_iff.mpr hrow)
    rw [hcapability]
    rfl
  · intro receipt hreceipt
    obtain ⟨⟨issuer, hissuer⟩, -⟩ := h.control.receipt hreceipt
    rw [hissuer]
    rfl
  · intro receipt hreceipt
    obtain ⟨hauthority, document, -, hdocument, -⟩ := h.control.createReceipt hreceipt
    exact ⟨by rw [hdocument]; rfl, hauthority⟩
  · intro row hrow
    exact h.log.sequence_document (Table.find?_key hrow)
  · exact fun range hrange ↦ h.log.find?_of_range hrange
  · intro row hrow
    have hpeer : (t.documentLoroPeers.find? (row.documentId, row.peerId)).isSome = true := by
      rw [show t.documentLoroPeers.find? (row.documentId, row.peerId) = some row from
        Table.find?_key hrow]
      rfl
    obtain ⟨update, hupdate, -⟩ := h.log.peers.mp hpeer
    obtain ⟨hmem, hd⟩ := Tables.mem_log.mp hupdate
    rw [← hd]
    exact hlogDocument update hmem

/-- **A well-formed database can be opened**, by whoever provisions the verifiers it was
provisioned with or a create authority that is new to it. -/
theorem openTables_of_wellFormed (h : WellFormed t) (provision : CreateAuthorityProvision) :
    openTables t provision = provisionCreateAuthority t provision := by
  have hvalid := validate_of_wellFormed h
  have hforeign := foreignKeysHold_of_wellFormed h
  simp [openTables, hvalid, hforeign, reject, bind, Except.bind]

end Renee
