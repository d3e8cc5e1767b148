import Renee.Store.Locality
import Renee.Store.Run

/-!
# The logical bytes of the control state

Before a grant or a revocation is written, `control_limits_exceeded` adds what it is going to cost
to the bytes in use; the bytes in use are sums over three tables, which opening the store computes
again.  The cost is right: what is written adds exactly so many bytes, to its document and to all of
them together (`grantWrites_growsBy`, `revokeWrites_growsBy`).  So an operation within the limits on
numbers is refused because of its bytes exactly when the tables it would leave would not be accepted
for theirs (`control_bytes_exact`).
-/

set_option autoImplicit false

namespace Renee

open ByteString Relational Guard

variable {sha256 : List UInt8 → Bytes verifierLength} {t t' : Tables} {d : DocumentId} {n : ℕ}

/-! ## Growth -/

/-- An operation on a document adds `n` logical bytes to it, and to all documents together. -/
structure GrowsBy (t t' : Tables) (d : DocumentId) (n : ℕ) : Prop where
  document : documentControlBytes t' d = documentControlBytes t d + n
  global : globalControlBytes t' = globalControlBytes t + n
  others : ∀ d', d' ≠ d → documentControlBytes t' d' = documentControlBytes t d'

theorem GrowsBy.of_where
    (h : ∀ p : DocumentId → Bool, controlBytesWhere t' p = controlBytesWhere t p + if p d then
      n else 0) :
    GrowsBy t t' d n where
  document := by
    rw [documentControlBytes_eq, documentControlBytes_eq, h, decide_eq_true rfl, if_pos rfl]
  global := by
    rw [globalControlBytes_eq, globalControlBytes_eq, h, if_pos rfl]
  others d' hne := by
    rw [documentControlBytes_eq, documentControlBytes_eq, h, decide_eq_false hne.symm,
      if_neg Bool.false_ne_true, Nat.add_zero]

/-- The sum over the rows that a condition picks out, of a table with some more rows of one
document. -/
theorem sum_filter_append {ρ : Type} {document : ρ → DocumentId} {bytes : ρ → ℕ}
    {p : DocumentId → Bool} {rows added : List ρ} (h : ∀ row ∈ added, document row = d) :
    (((rows ++ added).filter fun row ↦ p (document row)).map bytes).sum =
      ((rows.filter fun row ↦ p (document row)).map bytes).sum +
        if p d then (added.map bytes).sum else 0 := by
  rw [List.filter_append, List.map_append, List.sum_append]
  congr 1
  split
  · rename_i hp
    rw [List.filter_eq_self.mpr fun row hrow ↦ by rw [h row hrow, hp]]
  · rename_i hp
    rw [List.filter_eq_nil_iff.mpr fun row hrow ↦ by rwa [h row hrow]]
    rfl

/-- What a grant adds to the tables is what was counted. -/
theorem growsBy_of_grantRows {r : GrantCommand} {revision : ControlRevision}
    (hcapabilities : t'.capabilities.rows = t.capabilities.rows ++
      [r.descendantRow sha256 revision])
    (hoperations : t'.capabilityOperations.rows = t.capabilityOperations.rows ++
      operationRows r.documentId r.descendantCapabilityId r.operations)
    (hreceipts : t'.controlReceipts.rows = t.controlReceipts.rows ++ [r.receiptRow sha256]) :
    GrowsBy t t' r.documentId
      (additionalControlBytes true r.operations.countOnes (r.input sha256).length) := by
  refine .of_where fun p ↦ ?_
  have hcost : ((operationRows r.documentId r.descendantCapabilityId r.operations).map
      CapabilityOperationRow.logicalBytes).sum =
        r.operations.countOnes * (identifierLength * 2 + 1) := by
    rw [← length_operationRows r.documentId r.descendantCapabilityId, ← smul_eq_mul,
      ← List.length_map CapabilityOperationRow.logicalBytes]
    refine List.sum_eq_card_nsmul _ _ fun x hx ↦ ?_
    obtain ⟨row, -, rfl⟩ := List.mem_map.mp hx
    rfl
  rw [controlBytesWhere, hcapabilities, hoperations, hreceipts,
    sum_filter_append (d := r.documentId) fun row hrow ↦ by rw [List.mem_singleton.mp hrow]; rfl,
    sum_filter_append (d := r.documentId) fun row hrow ↦ (mem_operationRows.mp hrow).1,
    sum_filter_append (d := r.documentId) fun row hrow ↦ by rw [List.mem_singleton.mp hrow]; rfl,
    hcost, controlBytesWhere, additionalControlBytes]
  simp only [List.map_cons, List.map_nil, List.sum_cons, List.sum_nil,
    CapabilityRow.logicalBytes, ControlReceiptRow.logicalBytes, GrantCommand.descendantRow,
    GrantCommand.receiptRow, Option.isSome_some, if_true]
  split <;> omega

theorem Granted.growsBy {r : GrantCommand} {revision : ControlRevision}
    (h : Granted sha256 t t' r revision) :
    GrowsBy t t' r.documentId
      (additionalControlBytes true r.operations.countOnes (r.input sha256).length) :=
  growsBy_of_grantRows h.capabilities h.capabilityOperations h.controlReceipts

/-- The document of a new revision is still there. -/
theorem document_of_setControlRevision {revision revision' : ControlRevision}
    (hdocuments : t'.documents.rows = t.documents.rows.map (DocumentRow.setRevision d revision))
    (hrevision : nextControlRevision t d = some revision') :
    ∃ row ∈ t'.documents.rows, row.documentId = d := by
  obtain ⟨document, hdocument, -⟩ := nextControlRevision_eq_some_iff.mp hrevision
  obtain ⟨hmem, rfl⟩ := t.documents.find?_eq_some_iff.mp hdocument
  refine ⟨document.setRevision (Keyed.key document) revision, ?_, DocumentRow.key_setRevision ..⟩
  rw [hdocuments]
  exact List.mem_map_of_mem hmem

theorem grantWrites_growsBy {r : GrantCommand} {revision : ControlRevision}
    (h : grantWrites sha256 r revision t = .ok t') :
    GrowsBy t t' r.documentId
        (additionalControlBytes true r.operations.countOnes (r.input sha256).length) ∧
      t'.documents.rows = t.documents.rows.map (DocumentRow.setRevision r.documentId revision) := by
  simp only [grantWrites, bind_eq_ok] at h
  obtain ⟨t₁, h₁, t₂, h₂, t₃, h₃, h₄⟩ := h
  obtain ⟨-, _, rfl⟩ := Tables.insertCapability_eq_ok_iff.mp h₁
  obtain ⟨_, hrows, rfl⟩ := insertOperations_eq_ok h₂
  obtain ⟨-, _, rfl⟩ := Tables.insertControlReceipt_eq_ok_iff.mp h₃
  obtain rfl := setControlRevision_eq_ok h₄
  exact ⟨growsBy_of_grantRows rfl hrows rfl, rfl⟩

/-- A revocation adds its receipt; that a capability is revoked costs nothing. -/
theorem growsBy_of_revokeRows {r : RevokeCommand} {ids : List CapabilityId}
    (hcapabilities : t'.capabilities.rows =
      t.capabilities.rows.map (CapabilityRow.revokeIn r.documentId ids))
    (hoperations : t'.capabilityOperations = t.capabilityOperations)
    (hreceipts : t'.controlReceipts.rows = t.controlReceipts.rows ++ [r.receiptRow]) :
    GrowsBy t t' r.documentId (additionalControlBytes false 0 r.input.length) := by
  refine .of_where fun p ↦ ?_
  have hdocument : ∀ row : CapabilityRow,
      (row.revokeIn r.documentId ids).documentId = row.documentId := fun row ↦ by
    rw [CapabilityRow.revokeIn]
    split <;> rfl
  have hbytes : CapabilityRow.logicalBytes ∘ CapabilityRow.revokeIn r.documentId ids =
      CapabilityRow.logicalBytes := funext fun row ↦ by
    rw [Function.comp_apply, CapabilityRow.revokeIn]
    split <;> rfl
  have hfilter : ((fun row : CapabilityRow ↦ p row.documentId) ∘
      CapabilityRow.revokeIn r.documentId ids) = fun row ↦ p row.documentId :=
    funext fun row ↦ congrArg p (hdocument row)
  rw [controlBytesWhere, hcapabilities, hoperations, hreceipts,
    sum_filter_append (d := r.documentId) fun row hrow ↦ by rw [List.mem_singleton.mp hrow]; rfl,
    List.filter_map, List.map_map, hbytes, hfilter, controlBytesWhere, additionalControlBytes]
  simp only [List.map_cons, List.map_nil, List.sum_cons, List.sum_nil,
    ControlReceiptRow.logicalBytes, RevokeCommand.receiptRow, Bool.false_eq_true, if_false]
  split <;> omega

theorem Revoked.growsBy {r : RevokeCommand} {revision : ControlRevision}
    (h : Revoked sha256 t t' r revision) :
    GrowsBy t t' r.documentId (additionalControlBytes false 0 r.input.length) :=
  growsBy_of_revokeRows h.capabilities h.capabilityOperations h.controlReceipts

theorem revokeWrites_growsBy {r : RevokeCommand} {revision : ControlRevision}
    (h : revokeWrites r revision t = .ok t') :
    GrowsBy t t' r.documentId (additionalControlBytes false 0 r.input.length) ∧
      t'.documents.rows = t.documents.rows.map (DocumentRow.setRevision r.documentId revision) := by
  simp only [revokeWrites, bind_eq_ok] at h
  obtain ⟨t₁, h₁, h₂⟩ := h
  obtain ⟨-, _, rfl⟩ := Tables.insertControlReceipt_eq_ok_iff.mp h₁
  obtain rfl := setControlRevision_eq_ok h₂
  exact ⟨growsBy_of_revokeRows rfl rfl rfl, rfl⟩

/-! ## Limits -/

/-- The limits on numbers: children, capabilities and receipts. -/
def CountLimitsExceeded (t : Tables) (d : DocumentId) (parent : Option CapabilityId)
    (addsCapability : Bool) : Prop :=
  (∃ p ∈ parent, childCount t d p ≥ maxDirectCapabilityChildren) ∨
  (addsCapability = true ∧ (capabilityCount t d ≥ maxCapabilitiesPerDocument ∨
    t.capabilities.rows.length ≥ maxGlobalCapabilities)) ∨
  receiptCount t d ≥ maxControlReceiptsPerDocument ∨
  t.controlReceipts.rows.length ≥ maxGlobalControlReceipts

/-- Tables that are not accepted because of their logical bytes. -/
def Tables.ControlBytesExceeded (t : Tables) : Prop :=
  (∃ row ∈ t.documents.rows, documentControlBytes t row.documentId > maxDocumentControlBytes) ∨
    globalControlBytes t > maxGlobalControlBytes

/-- An operation within the limits on numbers is judged by its bytes. -/
theorem controlLimitsExceeded_iff_bytes {parent : Option CapabilityId} {addsCapability : Bool}
    {operationCount normalizedInputLength : ℕ}
    (h : ¬CountLimitsExceeded t d parent addsCapability) :
    controlLimitsExceeded t d parent addsCapability operationCount normalizedInputLength = true ↔
      documentControlBytes t d + additionalControlBytes addsCapability operationCount
          normalizedInputLength > maxDocumentControlBytes ∨
        globalControlBytes t + additionalControlBytes addsCapability operationCount
          normalizedInputLength > maxGlobalControlBytes := by
  rw [controlLimitsExceeded_iff, GlobalControlLimitsExceeded]
  rw [CountLimitsExceeded] at h
  grind

/-- The sums of what was written exceed a limit when those of the document or of the store do. -/
theorem GrowsBy.exceeded_iff (hw : ControlWellFormed t) (h : GrowsBy t t' d n)
    (hdocument : ∃ row ∈ t'.documents.rows, row.documentId = d) :
    t'.ControlBytesExceeded ↔ documentControlBytes t d + n > maxDocumentControlBytes ∨
      globalControlBytes t + n > maxGlobalControlBytes := by
  rw [Tables.ControlBytesExceeded, ← h.document, ← h.global]
  refine or_congr ⟨?_, ?_⟩ Iff.rfl
  · rintro ⟨row, -, hbytes⟩
    by_cases hd : row.documentId = d
    · rwa [hd] at hbytes
    · rw [h.others _ hd] at hbytes
      exact absurd (documentControlBytes_le hw row.documentId) (by omega)
  · intro hbytes
    obtain ⟨row, hrow, rfl⟩ := hdocument
    exact ⟨row, hrow, hbytes⟩

/-- What the limits decide is decided by the sums of what would be written. -/
theorem GrowsBy.decides (hw : ControlWellFormed t) {parent : Option CapabilityId}
    {addsCapability : Bool} {operationCount normalizedInputLength : ℕ}
    (h : GrowsBy t t' d
      (additionalControlBytes addsCapability operationCount normalizedInputLength))
    (hdocument : ∃ row ∈ t'.documents.rows, row.documentId = d)
    (hcounts : ¬CountLimitsExceeded t d parent addsCapability)
    {result : Except StoreError StoreControlOutcome × Tables}
    (heq : result =
      if controlLimitsExceeded t d parent addsCapability operationCount normalizedInputLength then
        (.ok .limitExceeded, t)
      else (.ok .inserted, t')) :
    (result.1 = .ok .limitExceeded ↔ t'.ControlBytesExceeded) ∧
      (¬t'.ControlBytesExceeded → result = (.ok .inserted, t')) := by
  have hexceeded := h.exceeded_iff hw hdocument
  subst heq
  refine ⟨?_, fun hnot ↦ if_neg ?_⟩
  · rw [hexceeded, ← controlLimitsExceeded_iff_bytes hcounts]
    split <;> simp_all
  · rwa [controlLimitsExceeded_iff_bytes hcounts, ← hexceeded]

/-- A grant that has been admitted is decided by the limits. -/
theorem GrantAdmitted.grantCapability_eq {r : GrantCommand} {revision : ControlRevision}
    (h : GrantAdmitted sha256 t r revision) (hwrites : grantWrites sha256 r revision t = .ok t') :
    grantCapability sha256 t r =
      if controlLimitsExceeded t r.documentId (some r.issuerCapabilityId) true
        r.operations.countOnes (r.input sha256).length then (.ok .limitExceeded, t)
      else (.ok .inserted, t') := by
  split
  · rename_i hlimits
    refine transaction_rollback ?_
    simp only [grantCapabilityIn, h.operations,
      resolveControlReceipt_eq_none_iff.mpr h.request_fresh, h.authorized, h.next_revision,
      h.attenuated, h.descendant_fresh, h.capacity, hlimits]
    rfl
  · rename_i hlimits
    exact grantCapability_commits h (Bool.eq_false_of_not_eq_true hlimits) hwrites

theorem RevokeAdmitted.revokeCapability_eq {r : RevokeCommand} {revision : ControlRevision}
    (h : RevokeAdmitted sha256 t r revision) (hwrites : revokeWrites r revision t = .ok t') :
    revokeCapability sha256 t r =
      if controlLimitsExceeded t r.documentId none false 0 r.input.length then
        (.ok .limitExceeded, t)
      else (.ok .inserted, t') := by
  split
  · rename_i hlimits
    refine transaction_rollback ?_
    simp only [revokeCapabilityIn, resolveControlReceipt_eq_none_iff.mpr h.request_fresh,
      h.authorized, h.next_revision, h.descendant, hlimits]
    rfl
  · rename_i hlimits
    exact revokeCapability_commits h (Bool.eq_false_of_not_eq_true hlimits) hwrites

/-- **The admission by bytes is exact.**  In every reachable store, a grant or a revocation that
commits adds to the recomputed sums exactly the bytes that were counted for it; one within the
limits on numbers passes the check exactly when the sums with these bytes stay within their limits;
and one that has passed every other check is refused exactly when what it writes would make one of
the recomputed sums exceed its limit. -/
theorem control_bytes_exact (sha256 : List UInt8 → Bytes verifierLength)
    (mutations : List Mutation) :
    (∀ r t', grantCapability sha256 (Tables.empty.run sha256 mutations) r = (.ok .inserted, t') →
      GrowsBy (Tables.empty.run sha256 mutations) t' r.documentId
        (additionalControlBytes true r.operations.countOnes (r.input sha256).length)) ∧
    (∀ r t', revokeCapability sha256 (Tables.empty.run sha256 mutations) r = (.ok .inserted, t') →
      GrowsBy (Tables.empty.run sha256 mutations) t' r.documentId
        (additionalControlBytes false 0 r.input.length)) ∧
    (∀ d parent addsCapability operationCount normalizedInputLength,
      ¬CountLimitsExceeded (Tables.empty.run sha256 mutations) d parent addsCapability →
      (controlLimitsExceeded (Tables.empty.run sha256 mutations) d parent addsCapability
          operationCount normalizedInputLength = true ↔
        documentControlBytes (Tables.empty.run sha256 mutations) d + additionalControlBytes
            addsCapability operationCount normalizedInputLength > maxDocumentControlBytes ∨
          globalControlBytes (Tables.empty.run sha256 mutations) + additionalControlBytes
            addsCapability operationCount normalizedInputLength > maxGlobalControlBytes)) ∧
    (∀ r revision, GrantAdmitted sha256 (Tables.empty.run sha256 mutations) r revision →
      ¬CountLimitsExceeded (Tables.empty.run sha256 mutations) r.documentId
        (some r.issuerCapabilityId) true →
      ∃ t', grantWrites sha256 r revision (Tables.empty.run sha256 mutations) = .ok t' ∧
        ((grantCapability sha256 (Tables.empty.run sha256 mutations) r).1 = .ok .limitExceeded ↔
          t'.ControlBytesExceeded) ∧
        (¬t'.ControlBytesExceeded →
          grantCapability sha256 (Tables.empty.run sha256 mutations) r = (.ok .inserted, t'))) ∧
    ∀ r revision, RevokeAdmitted sha256 (Tables.empty.run sha256 mutations) r revision →
      ¬CountLimitsExceeded (Tables.empty.run sha256 mutations) r.documentId none false →
      ∃ t', revokeWrites r revision (Tables.empty.run sha256 mutations) = .ok t' ∧
        ((revokeCapability sha256 (Tables.empty.run sha256 mutations) r).1 = .ok .limitExceeded ↔
          t'.ControlBytesExceeded) ∧
        (¬t'.ControlBytesExceeded →
          revokeCapability sha256 (Tables.empty.run sha256 mutations) r = (.ok .inserted, t')) := by
  have hrun : WellFormed (Tables.empty.run sha256 mutations) :=
    wellFormed_run wellFormed_empty mutations
  have hw := hrun.control
  generalize Tables.empty.run sha256 mutations = t at hw
  refine ⟨fun r t' h ↦ ?_, fun r t' h ↦ ?_,
    fun d parent addsCapability operationCount normalizedInputLength hcounts ↦
      controlLimitsExceeded_iff_bytes hcounts,
    fun r revision h hcounts ↦ ?_, fun r revision h hcounts ↦ ?_⟩
  · rcases grantCapability_spec h with ⟨-, revision, hgranted⟩ | ⟨hne, -⟩
    · exact hgranted.growsBy
    · exact absurd rfl hne
  · rcases revokeCapability_spec h with ⟨-, revision, hrevoked⟩ | ⟨hne, -⟩
    · exact hrevoked.growsBy
    · exact absurd rfl hne
  · obtain ⟨row, -, hrow, -⟩ := hw.active_of_authorize h.authorized
    obtain ⟨t', hwrites⟩ : ∃ t', grantWrites sha256 r revision t = .ok t' :=
      grantWrites_ok h.request_fresh h.next_revision (Option.isSome_iff_exists.mpr ⟨row, hrow⟩)
        h.descendant_fresh (hw.operation_free h.descendant_fresh)
    obtain ⟨hgrows, hdocuments⟩ := grantWrites_growsBy hwrites
    exact ⟨t', hwrites, hgrows.decides hw
      (document_of_setControlRevision hdocuments h.next_revision) hcounts
      (h.grantCapability_eq hwrites)⟩
  · obtain ⟨row, -, hrow, -⟩ := hw.active_of_authorize h.authorized
    obtain ⟨t', hwrites⟩ := revokeWrites_ok h.request_fresh h.next_revision
      (Option.isSome_iff_exists.mpr ⟨row, hrow⟩)
    obtain ⟨hgrows, hdocuments⟩ := revokeWrites_growsBy hwrites
    exact ⟨t', hwrites, hgrows.decides hw
      (document_of_setControlRevision hdocuments h.next_revision) hcounts
      (h.revokeCapability_eq hwrites)⟩

/-- The child's grant of one operation is admitted and writes what was counted for it, and so does
the revocation of the child after it. -/
theorem control_bytes_exact_sample :
    let t := Tables.empty.run Sha256.hash Sample.setup
    let t' := Tables.empty.run Sha256.hash (Sample.setup ++ [.grant Sample.childGrant])
    (∃ revision written, grantWrites Sha256.hash Sample.childGrant revision t = .ok written ∧
        ¬written.ControlBytesExceeded ∧
        grantCapability Sha256.hash t Sample.childGrant = (.ok .inserted, written) ∧
        GrowsBy t written Sample.document
          (additionalControlBytes true 1 (Sample.childGrant.input Sha256.hash).length)) ∧
      GrowsBy t' (revokeCapability Sha256.hash t' Sample.revoke).2 Sample.document
        (additionalControlBytes false 0 Sample.revoke.input.length) := by
  intro t t'
  have hview : (t.controlReceipts.find? (Sample.document, Sample.child,
        Sample.childGrant.requestId)).isNone = true ∧
      authorize Sha256.hash t Sample.document Sample.child (Sample.secret 3) .grant = true ∧
      (nextControlRevision t Sample.document).isSome = true ∧
      (loadOperationSet t Sample.document Sample.child).allows (.one .read) = true ∧
      (t.capability? Sample.document Sample.childGrant.descendantCapabilityId).isNone = true ∧
      issuerHasDescendantCapacity t Sample.document Sample.child = true ∧
      (childCount t Sample.document Sample.child < maxDirectCapabilityChildren ∧
        capabilityCount t Sample.document < maxCapabilitiesPerDocument ∧
        t.capabilities.rows.length < maxGlobalCapabilities ∧
        receiptCount t Sample.document < maxControlReceiptsPerDocument ∧
        t.controlReceipts.rows.length < maxGlobalControlReceipts) ∧
      (grantCapability Sha256.hash t Sample.childGrant).1 = .ok .inserted ∧
      (revokeCapability Sha256.hash t' Sample.revoke).1 = .ok .inserted := by decide +kernel
  have hbytes := control_bytes_exact Sha256.hash Sample.setup
  have hafter := (control_bytes_exact Sha256.hash (Sample.setup ++ [.grant Sample.childGrant])).2.1
    Sample.revoke
  -- from here on it does not matter what the tables are
  generalize hrun : Tables.empty.run Sha256.hash Sample.setup = u at hbytes
  generalize hrun' : Tables.empty.run Sha256.hash (Sample.setup ++ [.grant Sample.childGrant]) = u'
    at hafter
  have ht : t = u := hrun
  have ht' : t' = u' := hrun'
  clear_value t t'
  subst ht ht'
  obtain ⟨hrequest, hauth, hrevision, hallows, hfresh, hcapacity, hcounts, hgranted, hrevoked⟩ :=
    hview
  obtain ⟨revision, hrevision⟩ := Option.isSome_iff_exists.mp hrevision
  obtain ⟨hgrant, -, -, hadmission, -⟩ := hbytes
  have hadmitted : GrantAdmitted Sha256.hash t Sample.childGrant revision :=
    { operations := by decide
      request_fresh := Option.isNone_iff_eq_none.mp hrequest
      authorized := hauth
      next_revision := hrevision
      attenuated := hallows
      descendant_fresh := Option.isNone_iff_eq_none.mp hfresh
      capacity := hcapacity }
  have hwithin : ¬CountLimitsExceeded t Sample.document (some Sample.child) true := by
    rintro (⟨p, hp, hle⟩ | ⟨-, hle | hle⟩ | hle | hle)
    · rw [← Option.some_inj.mp hp] at hle
      exact absurd hcounts.1 (not_lt.mpr hle)
    · exact absurd hcounts.2.1 (not_lt.mpr hle)
    · exact absurd hcounts.2.2.1 (not_lt.mpr hle)
    · exact absurd hcounts.2.2.2.1 (not_lt.mpr hle)
    · exact absurd hcounts.2.2.2.2 (not_lt.mpr hle)
  obtain ⟨written, hwrites, hexceeded, hcommit⟩ := hadmission _ revision hadmitted hwithin
  have hnot : ¬written.ControlBytesExceeded := fun h ↦
    absurd (hgranted.symm.trans (hexceeded.mpr h)) (by simp)
  exact ⟨⟨revision, written, hwrites, hnot, hcommit hnot, hgrant _ _ (hcommit hnot)⟩,
    hafter _ (Prod.ext hrevoked rfl)⟩

end Renee
