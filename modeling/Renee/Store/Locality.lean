import Renee.Store.AcceptSpec
import Renee.Store.Passes
import Renee.Store.Preservation

/-!
# What a document sees of the tables

All documents share the tables, and only query predicates and key prefixes separate them.
`Tables.restrict t d` is the part of the tables that belongs to `d`, and this file is the proof that
no query is missing its predicate.

* Every statement that reads on behalf of a document reads its part (`capability?_restrict` and its
  siblings), the recursive ones included (`authorizeDocument_restrict`, `mem_subtree_restrict`).
* Every statement that writes commutes with the restriction, failures included
  (`map_insertCapability` and its siblings), and so do the transactions built from them:
  `accept_restrict`, `grantCapability_restrict`, `revokeCapability_restrict`.  Control operations
  also compare global counts with limits; they commute unless that is what refused them.
* A transaction on one document leaves the part of any other alone (`Accepted.restrict_eq` and its
  siblings).
-/

set_option autoImplicit false

namespace Renee

open ByteString Relational Ancestry Guard

/-! ## The part of a document -/

/-- The rows of a document, and the create authorities, which belong to none. -/
def Tables.restrict (t : Tables) (d : DocumentId) : Tables where
  createAuthorities := t.createAuthorities
  documents := t.documents.filter fun row ↦ row.documentId = d
  capabilities := t.capabilities.filter fun row ↦ row.documentId = d
  capabilityOperations := t.capabilityOperations.filter fun row ↦ row.documentId = d
  controlReceipts := t.controlReceipts.filter fun row ↦ row.documentId = d
  createReceipts := t.createReceipts.filter fun row ↦ row.documentId = d
  documentAcceptanceSequences :=
    t.documentAcceptanceSequences.filter fun row ↦ row.documentId = d
  updates := t.updates.filter fun row ↦ row.documentId = d
  updateLoroRanges := t.updateLoroRanges.filter fun row ↦ row.documentId = d
  documentLoroPeers := t.documentLoroPeers.filter fun row ↦ row.documentId = d

/-- The end of a transaction, as a document sees it. -/
def Ending.restrict {ω : Type} (d : DocumentId) : Ending ω → Ending ω
  | .commit outcome tables => .commit outcome (tables.restrict d)
  | .rollback outcome => .rollback outcome

variable {t t' : Tables} {d d' : DocumentId}

/-- A transaction whose body commutes with the restriction does. -/
theorem transaction_restrict {ω : Type} {body : Tables → Except StoreError (Ending ω)}
    (h : (body t).map (Ending.restrict d) = body (t.restrict d)) :
    transaction (t.restrict d) body =
      ((transaction t body).1, (transaction t body).2.restrict d) := by
  rw [transaction, transaction, ← h]
  cases body t with
  | error e => rfl
  | ok ending => cases ending <;> rfl

/-! ## Statements that read -/

namespace Tables

@[simp] theorem document?_restrict (t : Tables) (d : DocumentId) :
    (t.restrict d).document? d = t.document? d :=
  Table.find?_filter fun _ hkey ↦ decide_eq_true hkey

@[simp] theorem capability?_restrict (t : Tables) (d : DocumentId) (c : CapabilityId) :
    (t.restrict d).capability? d c = t.capability? d c :=
  Table.find?_filter fun _ hkey ↦ decide_eq_true (Prod.mk_inj.mp hkey).1

@[simp] theorem parent?_restrict (t : Tables) (d : DocumentId) :
    (t.restrict d).parent? d = t.parent? d := by
  funext c
  rw [parent?, capability?_restrict, parent?]

@[simp] theorem hasOperation_restrict (t : Tables) (d : DocumentId) (c : CapabilityId)
    (operation : Operation) :
    (t.restrict d).hasOperation d c operation = t.hasOperation d c operation :=
  congrArg Option.isSome (Table.find?_filter fun _ hkey ↦ decide_eq_true (Prod.mk_inj.mp hkey).1)

theorem findReceipt_restrict (t : Tables) (d : DocumentId) (c : CapabilityId) (q : RequestId) :
    (t.restrict d).controlReceipts.find? (d, c, q) = t.controlReceipts.find? (d, c, q) :=
  Table.find?_filter fun _ hkey ↦ decide_eq_true (Prod.mk_inj.mp hkey).1

theorem findUpdate_restrict (t : Tables) (d : DocumentId) (u : UpdateId) :
    (t.restrict d).updates.find? (d, u) = t.updates.find? (d, u) :=
  Table.find?_filter fun _ hkey ↦ decide_eq_true (Prod.mk_inj.mp hkey).1

theorem findSequence_restrict (t : Tables) (d : DocumentId) :
    (t.restrict d).documentAcceptanceSequences.find? d =
      t.documentAcceptanceSequences.find? d :=
  Table.find?_filter fun _ hkey ↦ decide_eq_true hkey

/-- A query with a predicate for the document sees its rows. -/
theorem filter_restrict {ρ : Type} {rows : List ρ} {document : ρ → DocumentId} {p : ρ → Bool}
    (h : ∀ row, p row = true → document row = d) :
    (rows.filter fun row ↦ decide (document row = d)).filter p = rows.filter p := by
  rw [List.filter_filter]
  refine List.filter_congr fun row _ ↦ ?_
  cases hp : p row with
  | false => rfl
  | true => rw [decide_eq_true (h row hp), Bool.true_and]

theorem countP_restrict {ρ : Type} {rows : List ρ} {document : ρ → DocumentId} {p : ρ → Bool}
    (h : ∀ row, p row = true → document row = d) :
    (rows.filter fun row ↦ decide (document row = d)).countP p = rows.countP p := by
  rw [List.countP_eq_length_filter, filter_restrict h, List.countP_eq_length_filter]

@[simp] theorem log_restrict (t : Tables) (d : DocumentId) : (t.restrict d).log d = t.log d := by
  rw [log, restrict, Table.rows_filter, filter_restrict fun _ ↦ of_decide_eq_true, log]

end Tables

@[simp] theorem documentAuthorization_restrict (t : Tables) (d : DocumentId) :
    documentAuthorization (t.restrict d) d = documentAuthorization t d := by
  rw [documentAuthorization, Tables.document?_restrict, documentAuthorization]

@[simp] theorem isActiveDescendant_restrict (t : Tables) (d : DocumentId)
    (issuer target : CapabilityId) :
    isActiveDescendant (t.restrict d) d issuer target = isActiveDescendant t d issuer target := by
  have hfrom : ∀ steps current, isActiveDescendantFrom (t.restrict d) d issuer steps current =
      isActiveDescendantFrom t d issuer steps current := by
    intro steps
    induction steps with
    | zero => exact fun _ ↦ rfl
    | succ steps ih =>
      intro current
      simp only [isActiveDescendantFrom, Tables.capability?_restrict, ih]
  exact hfrom _ _

@[simp] theorem issuerHasDescendantCapacity_restrict (t : Tables) (d : DocumentId)
    (issuer : CapabilityId) :
    issuerHasDescendantCapacity (t.restrict d) d issuer =
      issuerHasDescendantCapacity t d issuer := by
  have hfrom : ∀ steps current, issuerHasDescendantCapacityFrom (t.restrict d) d steps current =
      issuerHasDescendantCapacityFrom t d steps current := by
    intro steps
    induction steps with
    | zero => exact fun _ ↦ rfl
    | succ steps ih =>
      intro current
      simp only [issuerHasDescendantCapacityFrom, Tables.capability?_restrict, ih]
  exact hfrom _ _

@[simp] theorem loadOperationSet_restrict (t : Tables) (d : DocumentId) (c : CapabilityId) :
    loadOperationSet (t.restrict d) d c = loadOperationSet t d c := by
  rw [loadOperationSet, Tables.restrict, Table.rows_filter,
    Tables.filter_restrict fun _ hp ↦ (of_decide_eq_true hp).1, loadOperationSet]

@[simp] theorem nextControlRevision_restrict (t : Tables) (d : DocumentId) :
    nextControlRevision (t.restrict d) d = nextControlRevision t d := by
  rw [nextControlRevision, Tables.document?_restrict, nextControlRevision]

@[simp] theorem nextSequence_restrict (t : Tables) (d : DocumentId) :
    nextSequence (t.restrict d) d = nextSequence t d := by
  rw [nextSequence, Tables.findSequence_restrict, nextSequence]

@[simp] theorem peerCount_restrict (t : Tables) (d : DocumentId) :
    peerCount (t.restrict d) d = peerCount t d :=
  Tables.countP_restrict fun _ ↦ of_decide_eq_true

@[simp] theorem fetchIn_restrict (t : Tables) (d : DocumentId) (u : UpdateId) :
    fetchIn (t.restrict d) d u = fetchIn t d u := by
  rw [fetchIn, Tables.findUpdate_restrict, fetchIn]

@[simp] theorem highWaterSequenceIn_restrict (t : Tables) (d : DocumentId) :
    highWaterSequenceIn (t.restrict d) d = highWaterSequenceIn t d := by
  rw [highWaterSequenceIn, Tables.log_restrict, highWaterSequenceIn]

@[simp] theorem updateAt?_restrict (t : Tables) (d : DocumentId) (sequence : AcceptanceSequence) :
    updateAt? (t.restrict d) d sequence = updateAt? t d sequence := by
  rw [updateAt?, Tables.restrict, Table.rows_filter, List.find?_filter, updateAt?]
  refine congrArg (List.find? · t.updates.rows) (funext fun row ↦ ?_)
  by_cases h : row.documentId = d <;> simp [h]

@[simp] theorem enumerateIn_restrict (t : Tables) (d : DocumentId)
    (lower terminal : AcceptanceSequence) (nextOrdinal limit : ℕ) :
    enumerateIn (t.restrict d) d lower terminal nextOrdinal limit =
      enumerateIn t d lower terminal nextOrdinal limit := by
  have hentry : ∀ lower ordinal, pageEntry (t.restrict d) d lower ordinal =
      pageEntry t d lower ordinal := by
    intro lower ordinal
    simp only [pageEntry, updateAt?_restrict]
  have hfrom : ∀ lower n ordinal used, enumerateFrom (t.restrict d) d lower limit n ordinal used =
      enumerateFrom t d lower limit n ordinal used := by
    intro lower n
    induction n with
    | zero => exact fun _ _ ↦ rfl
    | succ n ih =>
      intro ordinal used
      simp only [enumerateFrom, hentry, ih]
  simp only [enumerateIn, hfrom]

@[simp] theorem vectorBackfillIn_restrict (t : Tables) (d : DocumentId)
    (position terminal : AcceptanceSequence) (v : LoroOplogVersion) (limit : ℕ) :
    vectorBackfillIn (t.restrict d) d position terminal v limit =
      vectorBackfillIn t d position terminal v limit := by
  simp only [vectorBackfillIn, vectorRows, updateAt?_restrict, Tables.log_restrict]

section Hash

variable (sha256 : List UInt8 → Bytes verifierLength)

@[simp] theorem authorizeDocument_restrict (t : Tables) (d : DocumentId) (c : CapabilityId)
    (a : Authenticator) (operation : Operation) :
    authorizeDocument sha256 (t.restrict d) d c a operation =
      authorizeDocument sha256 t d c a operation := by
  have hfrom : ∀ steps current, authorizeFrom sha256 (t.restrict d) d c a operation steps current =
      authorizeFrom sha256 t d c a operation steps current := by
    intro steps
    induction steps with
    | zero => exact fun _ ↦ rfl
    | succ steps ih =>
      intro current
      simp only [authorizeFrom, Tables.capability?_restrict, Tables.hasOperation_restrict,
        documentAuthorization_restrict, ih]
  exact hfrom _ _

@[simp] theorem authorize_restrict (t : Tables) (d : DocumentId) (c : CapabilityId)
    (a : Authenticator) (operation : Operation) :
    authorize sha256 (t.restrict d) d c a operation = authorize sha256 t d c a operation := by
  rw [authorize, authorizeDocument_restrict, authorize]

@[simp] theorem resolveControlReceipt_restrict (t : Tables) (d : DocumentId)
    (issuer : CapabilityId) (a : Authenticator) (requestId : RequestId)
    (operation : ControlOperation) (input : List UInt8) :
    resolveControlReceipt sha256 (t.restrict d) d issuer a requestId operation input =
      resolveControlReceipt sha256 t d issuer a requestId operation input := by
  simp only [resolveControlReceipt, Tables.findReceipt_restrict, Tables.capability?_restrict]

theorem fetchAuthorized_restrict (t : Tables) (d : DocumentId) (u : UpdateId) (c : CapabilityId)
    (a : Authenticator) :
    fetchAuthorized sha256 (t.restrict d) d u c a = fetchAuthorized sha256 t d u c a := by
  simp only [fetchAuthorized, authorize_restrict, fetchIn_restrict]

end Hash

/-! ## Statements that write -/

namespace Tables

theorem map_ofConstraint_insert {ρ κ : Type} [Keyed ρ κ] [DecidableEq κ] {table : Table ρ} {row : ρ}
    {p : ρ → Bool} {put put' : Table ρ → Tables} {c c' : Prop} [Decidable c] [Decidable c']
    (hc : c' ↔ c) (hp : ∀ other, Keyed.key other = Keyed.key row → p other = true)
    (hput : ∀ table, (put table).restrict d = put' (table.filter p)) :
    (ofConstraint c ((table.insert? row).map put)).map (restrict · d) =
      ofConstraint c' (((table.filter p).insert? row).map put') := by
  rw [Table.insert?_filter _ hp, Option.map_map]
  by_cases h : c
  · simp only [ofConstraint, if_pos h, if_pos (hc.mpr h)]
    cases table.insert? row with
    | none => rfl
    | some table => exact congrArg Except.ok (hput table)
  · simp only [ofConstraint, if_neg h, if_neg (mt hc.mp h)]
    rfl

theorem map_insertCapability (t : Tables) {row : CapabilityRow} (h : row.documentId = d) :
    (t.insertCapability row).map (restrict · d) = (t.restrict d).insertCapability row := by
  subst h
  refine map_ofConstraint_insert ?_ (fun _ hkey ↦ decide_eq_true (Prod.mk_inj.mp hkey).1)
    fun _ ↦ rfl
  rw [document?_restrict]
  simp only [capability?_restrict]
  simp only [restrict, Table.rows_filter, List.mem_filter, decide_eq_true_eq, and_assoc,
    and_self_left]

theorem map_insertCapabilityOperation (t : Tables) {row : CapabilityOperationRow}
    (h : row.documentId = d) : (t.insertCapabilityOperation row).map (restrict · d) =
      (t.restrict d).insertCapabilityOperation row := by
  subst h
  refine map_ofConstraint_insert ?_ (fun _ hkey ↦ decide_eq_true (Prod.mk_inj.mp hkey).1)
    fun _ ↦ rfl
  rw [capability?_restrict]

theorem map_insertControlReceipt (t : Tables) {row : ControlReceiptRow} (h : row.documentId = d) :
    (t.insertControlReceipt row).map (restrict · d) = (t.restrict d).insertControlReceipt row := by
  subst h
  refine map_ofConstraint_insert ?_ (fun _ hkey ↦ decide_eq_true (Prod.mk_inj.mp hkey).1)
    fun _ ↦ rfl
  rw [capability?_restrict]

theorem map_insertUpdate (t : Tables) {row : UpdateRow} (h : row.documentId = d) :
    (t.insertUpdate row).map (restrict · d) = (t.restrict d).insertUpdate row := by
  subst h
  refine map_ofConstraint_insert ?_ (fun _ hkey ↦ decide_eq_true (Prod.mk_inj.mp hkey).1)
    fun _ ↦ rfl
  rw [findSequence_restrict]
  simp only [restrict, Table.rows_filter, List.mem_filter, decide_eq_true_eq, and_assoc,
    and_self_left]

theorem map_insertUpdateLoroRange (t : Tables) {row : UpdateLoroRangeRow}
    (h : row.documentId = d) : (t.insertUpdateLoroRange row).map (restrict · d) =
      (t.restrict d).insertUpdateLoroRange row := by
  subst h
  refine map_ofConstraint_insert ?_ (fun _ hkey ↦ decide_eq_true (Prod.mk_inj.mp hkey).1)
    fun _ ↦ rfl
  rw [findUpdate_restrict]

theorem map_upsertAcceptanceSequence (t : Tables) {row : AcceptanceSequenceRow}
    (h : row.documentId = d) : (t.upsertAcceptanceSequence row).map (restrict · d) =
      (t.restrict d).upsertAcceptanceSequence row := by
  subst h
  have hinsert : (t.restrict row.documentId).documentAcceptanceSequences.insert? row = _ :=
    Table.insert?_filter t.documentAcceptanceSequences fun _ hkey ↦ decide_eq_true hkey
  rw [upsertAcceptanceSequence, upsertAcceptanceSequence, document?_restrict, hinsert]
  split
  · cases t.documentAcceptanceSequences.insert? row with
    | some table => rfl
    | none =>
      refine congrArg Except.ok (Tables.ext rfl rfl rfl rfl rfl rfl ?_ rfl rfl rfl)
      have hdocument : ∀ old : AcceptanceSequenceRow,
          (if old.documentId = row.documentId then row else old).documentId = old.documentId := by
        intro old
        split
        · rename_i heq
          exact heq.symm
        · rfl
      exact Table.filter_update hdocument hdocument (fun old ↦ by rw [hdocument]) fun _ _ _ ↦ rfl
  · rfl

theorem map_insertOrIgnoreDocumentLoroPeer (t : Tables) {row : DocumentLoroPeerRow}
    (h : row.documentId = d) :
    (t.insertOrIgnoreDocumentLoroPeer row).map (Prod.map id (restrict · d)) =
      (t.restrict d).insertOrIgnoreDocumentLoroPeer row := by
  subst h
  have hinsert : (t.restrict row.documentId).documentLoroPeers.insert? row = _ :=
    Table.insert?_filter t.documentLoroPeers fun _ hkey ↦ decide_eq_true (Prod.mk_inj.mp hkey).1
  rw [insertOrIgnoreDocumentLoroPeer, insertOrIgnoreDocumentLoroPeer, document?_restrict, hinsert]
  cases t.documentLoroPeers.insert? row with
  | none => rfl
  | some table =>
    simp only [Option.map_some]
    split <;> rfl

end Tables

theorem map_insertOperations (t : Tables) (d : DocumentId) (c : CapabilityId)
    (operations : OperationSet) : (insertOperations t d c operations).map (Tables.restrict · d) =
      insertOperations (t.restrict d) d c operations :=
  map_foldlM (fun tx _ ↦ tx.map_insertCapabilityOperation rfl) _ t

theorem map_setControlRevision (t : Tables) (d : DocumentId) (revision : ControlRevision) :
    (setControlRevision t d revision).map (Tables.restrict · d) =
      setControlRevision (t.restrict d) d revision := by
  rw [setControlRevision, setControlRevision, Tables.document?_restrict]
  split
  · rfl
  split
  · rfl
  refine congrArg Except.ok (Tables.ext rfl ?_ rfl rfl rfl rfl rfl rfl rfl rfl)
  refine Table.filter_update (DocumentRow.key_setRevision d revision)
    (DocumentRow.key_setRevision d revision) (fun row ↦ ?_) fun _ _ _ ↦ rfl
  rw [DocumentRow.setRevision]
  split <;> rfl

theorem Tables.Forest.restrict (h : t.Forest d) : (t.restrict d).Forest d where
  parent := fun hrow hp ↦ by
    rw [capability?_restrict] at hrow
    simpa only [capability?_restrict] using h.parent hrow hp
  within := fun hrow ↦ by
    rw [capability?_restrict] at hrow
    rw [parent?_restrict]
    exact h.within hrow

/-- The recursive query of a revocation stays within the document. -/
theorem mem_subtree_restrict (h : t.Forest d) {c target : CapabilityId} {row : CapabilityRow}
    (hrow : t.capability? d c = some row) :
    c ∈ subtree (t.restrict d) d target ↔ c ∈ subtree t d target := by
  rw [h.mem_subtree_iff hrow, h.restrict.mem_subtree_iff ((t.capability?_restrict d c).trans hrow),
    Tables.parent?_restrict]

theorem restrict_revokeSubtree (h : t.Forest d) (target : CapabilityId) :
    (revokeSubtree t d target).restrict d = revokeSubtree (t.restrict d) d target := by
  refine Tables.ext rfl rfl ?_ rfl rfl rfl rfl rfl rfl rfl
  refine Table.filter_update (CapabilityRow.key_revokeIn d _) (CapabilityRow.key_revokeIn d _)
    (fun row ↦ ?_) fun row hrow hd ↦ ?_
  · rw [CapabilityRow.revokeIn]
    split <;> rfl
  · have hfind : t.capability? d row.capabilityId = some row :=
      Tables.capability?_eq_some_iff.mpr ⟨hrow, of_decide_eq_true hd, rfl⟩
    simp only [CapabilityRow.revokeIn, mem_subtree_restrict h hfind]

theorem map_insertPeersFrom (d : DocumentId) (ranges : List LoroRange) (count : ℕ) (t : Tables) :
    (insertPeersFrom d ranges count t).map (Prod.map id (Tables.restrict · d)) =
      insertPeersFrom d ranges count (t.restrict d) := by
  induction ranges generalizing count t with
  | nil => rfl
  | cons range ranges ih =>
    have hinsert := @Tables.map_insertOrIgnoreDocumentLoroPeer d t ⟨d, range.peerId⟩ rfl
    rw [insertPeersFrom, insertPeersFrom, ← hinsert]
    cases t.insertOrIgnoreDocumentLoroPeer ⟨d, range.peerId⟩ with
    | error e => rfl
    | ok inserted =>
      simp only [Except.map, Prod.map, id]
      cases checkedAdd 64 count inserted.1 with
      | none => rfl
      | some count =>
        by_cases hlimit : count > maxLoroPeers
        · simp only [if_pos hlimit]
        · simp only [if_neg hlimit]
          exact ih count inserted.2

theorem map_insertDocumentLoroPeers (t : Tables) (update : ImmutableUpdate) :
    (insertDocumentLoroPeers t update).map (Prod.map id (Tables.restrict · update.documentId)) =
      insertDocumentLoroPeers (t.restrict update.documentId) update := by
  rw [insertDocumentLoroPeers, insertDocumentLoroPeers, peerCount_restrict]
  split
  · rfl
  · exact map_insertPeersFrom _ _ _ _

theorem map_insertUpdateRanges (t : Tables) (update : ImmutableUpdate) :
    (insertUpdateRanges t update).map (Tables.restrict · update.documentId) =
      insertUpdateRanges (t.restrict update.documentId) update := by
  rw [insertUpdateRanges, insertUpdateRanges, rangeRows, List.foldlM_map, List.foldlM_map]
  exact map_foldlM (fun tx _ ↦ tx.map_insertUpdateLoroRange rfl) _ t

theorem map_insertUpdateRecord (t : Tables) (d : DocumentId) (u : UpdateId)
    (sequence : AcceptanceSequence) (encodedRecord : List UInt8) :
    (insertUpdateRecord t d u sequence encodedRecord).map (Tables.restrict · d) =
      insertUpdateRecord (t.restrict d) d u sequence encodedRecord := by
  rw [insertUpdateRecord, insertUpdateRecord]
  split
  · exact t.map_insertUpdate rfl
  · rfl

/-! ## The limits of the control operations -/

/-- The part of `control_limits_exceeded` that looks at all documents. -/
def GlobalControlLimitsExceeded (t : Tables) (addsCapability : Bool)
    (operationCount normalizedInputLength : ℕ) : Prop :=
  (addsCapability = true ∧ t.capabilities.rows.length ≥ maxGlobalCapabilities) ∨
    t.controlReceipts.rows.length ≥ maxGlobalControlReceipts ∨
    globalControlBytes t + additionalControlBytes addsCapability operationCount
      normalizedInputLength > maxGlobalControlBytes

instance (t : Tables) (addsCapability : Bool) (operationCount normalizedInputLength : ℕ) :
    Decidable (GlobalControlLimitsExceeded t addsCapability operationCount normalizedInputLength) :=
  inferInstanceAs (Decidable (_ ∨ _ ∨ _))

/-- The limits are those of the document and those of all documents. -/
theorem controlLimitsExceeded_iff {parent : Option CapabilityId} {addsCapability : Bool}
    {operationCount normalizedInputLength : ℕ} :
    controlLimitsExceeded t d parent addsCapability operationCount normalizedInputLength = true ↔
      ((∃ p ∈ parent, childCount t d p ≥ maxDirectCapabilityChildren) ∨
        (addsCapability = true ∧ capabilityCount t d ≥ maxCapabilitiesPerDocument) ∨
        receiptCount t d ≥ maxControlReceiptsPerDocument ∨
        documentControlBytes t d + additionalControlBytes addsCapability operationCount
          normalizedInputLength > maxDocumentControlBytes) ∨
      GlobalControlLimitsExceeded t addsCapability operationCount normalizedInputLength := by
  rw [controlLimitsExceeded, GlobalControlLimitsExceeded]
  simp only [Option.any_eq_true, decide_eq_true_eq, Bool.if_true_left, Bool.or_eq_true,
    Option.mem_def]
  grind

theorem documentControlBytes_restrict (t : Tables) (d : DocumentId) :
    documentControlBytes (t.restrict d) d = documentControlBytes t d := by
  simp only [documentControlBytes, Tables.restrict, Table.rows_filter,
    Tables.filter_restrict fun _ ↦ of_decide_eq_true]

/-- A document has no more rows than there are. -/
theorem GlobalControlLimitsExceeded.of_restrict {addsCapability : Bool}
    {operationCount normalizedInputLength : ℕ} (h : GlobalControlLimitsExceeded (t.restrict d)
      addsCapability operationCount normalizedInputLength) :
    GlobalControlLimitsExceeded t addsCapability operationCount normalizedInputLength := by
  have hle : ∀ {ρ : Type} (rows : List ρ) (p : ρ → Bool), (rows.filter p).length ≤ rows.length :=
    fun rows p ↦ List.length_filter_le p rows
  have hsum : ∀ {ρ : Type} (rows : List ρ) (p : ρ → Bool) (f : ρ → ℕ),
      ((rows.filter p).map f).sum ≤ (rows.map f).sum :=
    fun rows p f ↦ (List.filter_sublist.map f).sum_le_sum fun _ _ ↦ Nat.zero_le _
  have hbytes : globalControlBytes (t.restrict d) ≤ globalControlBytes t :=
    Nat.add_le_add (Nat.add_le_add (hsum ..) (hsum ..)) (hsum ..)
  rcases h with ⟨hadds, hcapabilities⟩ | hreceipts | htotal
  · exact Or.inl ⟨hadds, Nat.le_trans hcapabilities (hle ..)⟩
  · exact Or.inr (Or.inl (Nat.le_trans hreceipts (hle ..)))
  · exact Or.inr (Or.inr (Nat.lt_of_lt_of_le htotal (Nat.add_le_add_right hbytes _)))

/-- **The limits are those of the document, unless it is the others that exceed them.** -/
theorem controlLimitsExceeded_restrict {parent : Option CapabilityId} {addsCapability : Bool}
    {operationCount normalizedInputLength : ℕ}
    (h : ¬GlobalControlLimitsExceeded t addsCapability operationCount normalizedInputLength) :
    controlLimitsExceeded (t.restrict d) d parent addsCapability operationCount
        normalizedInputLength =
      controlLimitsExceeded t d parent addsCapability operationCount normalizedInputLength := by
  have hchildren : ∀ p, childCount (t.restrict d) d p = childCount t d p := fun p ↦
    Tables.countP_restrict fun _ hp ↦ (of_decide_eq_true hp).1
  have hcapabilities : capabilityCount (t.restrict d) d = capabilityCount t d :=
    Tables.countP_restrict fun _ ↦ of_decide_eq_true
  have hreceipts : receiptCount (t.restrict d) d = receiptCount t d :=
    Tables.countP_restrict fun _ ↦ of_decide_eq_true
  rw [Bool.eq_iff_iff, controlLimitsExceeded_iff, controlLimitsExceeded_iff,
    documentControlBytes_restrict, hcapabilities, hreceipts]
  simp only [hchildren]
  exact or_congr_right (iff_of_false (fun hr ↦ h hr.of_restrict) h)

/-! ## Transactions -/

section Hash

variable {sha256 : List UInt8 → Bytes verifierLength}

/-- **Accepting an update is a matter of its document.** -/
theorem accept_restrict (t : Tables) (c : CapabilityId) (a : Authenticator)
    (update : ImmutableUpdate) (encodedRecord : List UInt8) :
    accept sha256 (t.restrict update.documentId) c a update encodedRecord =
      ((accept sha256 t c a update encodedRecord).1,
        (accept sha256 t c a update encodedRecord).2.restrict update.documentId) := by
  refine transaction_restrict ?_
  simp only [acceptIn, authorize_restrict, Tables.findUpdate_restrict, nextSequence_restrict]
  split
  · rfl
  split
  · split <;> rfl
  split
  · rfl
  refine map_bind (map_insertDocumentLoroPeers t update) ?_
  rintro ⟨fits, tx⟩
  simp only [Prod.map, id]
  split
  · rfl
  refine map_bind (tx.map_upsertAcceptanceSequence rfl) fun tx ↦ ?_
  refine map_bind (map_insertUpdateRecord tx _ _ _ _) fun tx ↦ ?_
  exact map_bind (map_insertUpdateRanges tx update) fun tx ↦ rfl

/-- A grant is refused by a bound on all documents. -/
def GrantCommand.Bounded (sha256 : List UInt8 → Bytes verifierLength) (r : GrantCommand)
    (t : Tables) : Prop :=
  (grantCapability sha256 t r).1 = .ok .limitExceeded ∧
    GlobalControlLimitsExceeded t true r.operations.countOnes (r.input sha256).length

/-- A revocation is refused by a bound on all documents. -/
def RevokeCommand.Bounded (sha256 : List UInt8 → Bytes verifierLength) (r : RevokeCommand)
    (t : Tables) : Prop :=
  (revokeCapability sha256 t r).1 = .ok .limitExceeded ∧
    GlobalControlLimitsExceeded t false 0 r.input.length

/-- **So is granting a capability.** -/
theorem grantCapability_restrict {r : GrantCommand} (h : ¬r.Bounded sha256 t) :
    grantCapability sha256 (t.restrict r.documentId) r = ((grantCapability sha256 t r).1,
      (grantCapability sha256 t r).2.restrict r.documentId) := by
  refine transaction_restrict ?_
  simp only [grantCapabilityIn, resolveControlReceipt_restrict, authorize_restrict,
    nextControlRevision_restrict, loadOperationSet_restrict, Tables.capability?_restrict,
    issuerHasDescendantCapacity_restrict]
  split
  · rfl
  rename_i hempty
  split
  · rfl
  rename_i hreceipt
  split
  · rfl
  rename_i hauth
  split
  · rfl
  rename_i revision hrevision
  split
  · rfl
  rename_i hallows
  split
  · rfl
  rename_i hfresh
  -- whatever the global limits refuse has come this far
  have hglobal : ¬GlobalControlLimitsExceeded t true r.operations.countOnes
      (r.input sha256).length := by
    refine fun hglobal ↦ h ⟨?_, hglobal⟩
    simp only [grantCapability, transaction, grantCapabilityIn, if_neg hempty, hreceipt,
      if_neg hauth, hrevision, if_neg hallows, if_neg hfresh,
      controlLimitsExceeded_iff.mpr (Or.inr hglobal), Bool.or_true, if_true]
  rw [controlLimitsExceeded_restrict hglobal]
  split
  · rfl
  refine map_bind (t.map_insertCapability rfl) fun tx ↦ ?_
  refine map_bind (map_insertOperations tx _ _ _) fun tx ↦ ?_
  refine map_bind (tx.map_insertControlReceipt rfl) fun tx ↦ ?_
  exact map_bind (map_setControlRevision tx _ _) fun tx ↦ rfl

/-- **So is revoking one.** -/
theorem revokeCapability_restrict {r : RevokeCommand} (hforest : t.Forest r.documentId)
    (h : ¬r.Bounded sha256 t) :
    revokeCapability sha256 (t.restrict r.documentId) r = ((revokeCapability sha256 t r).1,
      (revokeCapability sha256 t r).2.restrict r.documentId) := by
  refine transaction_restrict ?_
  simp only [revokeCapabilityIn, resolveControlReceipt_restrict, authorize_restrict,
    nextControlRevision_restrict, isActiveDescendant_restrict]
  split
  · rfl
  rename_i hreceipt
  split
  · rfl
  rename_i hauth
  split
  · rfl
  rename_i revision hrevision
  split
  · rfl
  rename_i htarget
  have hglobal : ¬GlobalControlLimitsExceeded t false 0 r.input.length := by
    refine fun hglobal ↦ h ⟨?_, hglobal⟩
    simp only [revokeCapability, transaction, revokeCapabilityIn, hreceipt, if_neg hauth,
      hrevision, if_neg htarget, controlLimitsExceeded_iff.mpr (Or.inr hglobal), if_true]
  rw [controlLimitsExceeded_restrict hglobal]
  split
  · rfl
  rw [← restrict_revokeSubtree hforest]
  refine map_bind (Tables.map_insertControlReceipt _ rfl) fun tx ↦ ?_
  exact map_bind (map_setControlRevision tx _ _) fun tx ↦ rfl

end Hash

/-! ## The frame -/

theorem Table.filter_append_of_ne {ρ κ : Type} [Keyed ρ κ] {table table' : Table ρ} {new : List ρ}
    {document : ρ → DocumentId} (hrows : table'.rows = table.rows ++ new)
    (h : ∀ row ∈ new, document row = d') (hne : d' ≠ d) :
    (table'.filter fun row ↦ decide (document row = d)) =
      table.filter fun row ↦ decide (document row = d) := by
  have hnew : (new.filter fun row ↦ decide (document row = d)) = [] :=
    List.filter_eq_nil_iff.mpr fun row hrow ↦ by simpa [h row hrow] using hne
  refine Table.ext ?_
  rw [Table.rows_filter, hrows, List.filter_append, hnew, List.append_nil, Table.rows_filter]

theorem Table.filter_map_of_ne {ρ κ : Type} [Keyed ρ κ] {table table' : Table ρ} {f : ρ → ρ}
    {document : ρ → DocumentId} (hrows : table'.rows = table.rows.map f)
    (hdocument : ∀ row, document (f row) = document row)
    (h : ∀ row, document row = d → f row = row) :
    (table'.filter fun row ↦ decide (document row = d)) =
      table.filter fun row ↦ decide (document row = d) := by
  refine Table.ext ?_
  rw [Table.rows_filter, hrows, List.filter_map, Table.rows_filter]
  simp only [Function.comp_def, hdocument]
  refine (List.map_congr_left fun row hrow ↦ ?_).trans (List.map_id _)
  exact h row (of_decide_eq_true (List.mem_filter.mp hrow).2)

theorem DocumentRow.documentId_setRevision (d : DocumentId) (revision : ControlRevision)
    (row : DocumentRow) : (row.setRevision d revision).documentId = row.documentId :=
  row.key_setRevision d revision

theorem CapabilityRow.documentId_revokeIn (d : DocumentId) (ids : List CapabilityId)
    (row : CapabilityRow) : (row.revokeIn d ids).documentId = row.documentId :=
  (Prod.mk_inj.mp (row.key_revokeIn d ids)).1

variable {sha256 : List UInt8 → Bytes verifierLength}

/-- **An accept leaves the other documents alone.** -/
theorem Accepted.restrict_eq {c : CapabilityId} {a : Authenticator} {update : ImmutableUpdate}
    {row : UpdateRow} (h : Accepted sha256 t t' c a update row) (hne : update.documentId ≠ d) :
    t'.restrict d = t.restrict d := by
  have hsequences : (t'.documentAcceptanceSequences.filter fun row ↦ row.documentId = d) =
      t.documentAcceptanceSequences.filter fun row ↦ row.documentId = d := by
    refine Table.ext ((Table.filter_key_eq _ d).trans ?_)
    rw [h.documentAcceptanceSequences, if_neg hne]
    exact (Table.filter_key_eq _ d).symm
  refine Tables.ext h.createAuthorities ?_ ?_ ?_ ?_ ?_ hsequences ?_ ?_ ?_
  · exact congrArg (Table.filter · _) h.documents
  · exact congrArg (Table.filter · _) h.capabilities
  · exact congrArg (Table.filter · _) h.capabilityOperations
  · exact congrArg (Table.filter · _) h.controlReceipts
  · exact congrArg (Table.filter · _) h.createReceipts
  · exact Table.filter_append_of_ne h.updates (by simp [h.row_document]) hne
  · exact Table.filter_append_of_ne h.updateLoroRanges (by simp [rangeRows]) hne
  · exact Table.filter_append_of_ne h.documentLoroPeers (by simp [peerRows]) hne

/-- **So does a grant.** -/
theorem Granted.restrict_eq {r : GrantCommand} {revision : ControlRevision}
    (h : Granted sha256 t t' r revision) (hne : r.documentId ≠ d) :
    t'.restrict d = t.restrict d := by
  refine Tables.ext h.createAuthorities ?_ ?_ ?_ ?_ ?_ ?_ ?_ ?_ ?_
  · exact Table.filter_map_of_ne h.documents (DocumentRow.documentId_setRevision _ _)
      fun row hrow ↦ DocumentRow.setRevision_of_ne fun heq ↦ hne (heq.symm.trans hrow)
  · exact Table.filter_append_of_ne h.capabilities (by simp [GrantCommand.descendantRow]) hne
  · exact Table.filter_append_of_ne h.capabilityOperations
      (fun row hrow ↦ (mem_operationRows.mp hrow).1) hne
  · exact Table.filter_append_of_ne h.controlReceipts (by simp [GrantCommand.receiptRow]) hne
  · exact congrArg (Table.filter · _) h.createReceipts
  · exact congrArg (Table.filter · _) h.documentAcceptanceSequences
  · exact congrArg (Table.filter · _) h.updates
  · exact congrArg (Table.filter · _) h.updateLoroRanges
  · exact congrArg (Table.filter · _) h.documentLoroPeers

/-- **And a revocation.** -/
theorem Revoked.restrict_eq {r : RevokeCommand} {revision : ControlRevision}
    (h : Revoked sha256 t t' r revision) (hne : r.documentId ≠ d) :
    t'.restrict d = t.restrict d := by
  refine Tables.ext h.createAuthorities ?_ ?_ ?_ ?_ ?_ ?_ ?_ ?_ ?_
  · exact Table.filter_map_of_ne h.documents (DocumentRow.documentId_setRevision _ _)
      fun row hrow ↦ DocumentRow.setRevision_of_ne fun heq ↦ hne (heq.symm.trans hrow)
  · refine Table.filter_map_of_ne h.capabilities (CapabilityRow.documentId_revokeIn _ _)
      fun row hrow ↦ ?_
    rw [CapabilityRow.revokeIn, if_neg fun hin ↦ hne (hin.1.symm.trans hrow)]
  · exact congrArg (Table.filter · _) h.capabilityOperations
  · exact Table.filter_append_of_ne h.controlReceipts (by simp [RevokeCommand.receiptRow]) hne
  · exact congrArg (Table.filter · _) h.createReceipts
  · exact congrArg (Table.filter · _) h.documentAcceptanceSequences
  · exact congrArg (Table.filter · _) h.updates
  · exact congrArg (Table.filter · _) h.updateLoroRanges
  · exact congrArg (Table.filter · _) h.documentLoroPeers

end Renee
