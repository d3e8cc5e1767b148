import Renee.Store.Locality
import Renee.Store.Readable
import Renee.Store.ValidateComplete

/-!
# Idle counters are not looked at

A document's acceptance counter is read by one request, an accept that gets as far as taking the
next position.  Everything else does the same whatever the counter of an idle document is.

* Every statement that reads ignores the counters (`authorizeDocument_settle` and its siblings), and
  every statement that writes commutes with settling them, failures included
  (`map_insertCapability_settle` and its siblings).
* So does every transaction; an accept does when the counter of its own document is left alone
  (`accept_settle`).
* `Tables.Skewed` says that a document is idle and its counter is off, and
  `DurableUpdateStore.StartsSkewed` that a request takes a position from such a counter.
  **Every other request commutes with settling** (`execute_settled`).
-/

set_option autoImplicit false

namespace Renee

open ByteString Relational Ancestry Guard

variable {t t' : Tables} {idle : DocumentId → Bool} {d : DocumentId}

/-! ## Statements that read -/

/-- The end of a transaction, with its counters settled. -/
def Ending.settle {ω : Type} (idle : DocumentId → Bool) : Ending ω → Ending ω
  | .commit outcome tables => .commit outcome (tables.settle idle)
  | .rollback outcome => .rollback outcome

/-- A transaction whose body commutes with settling does. -/
theorem transaction_settle {ω : Type} {body : Tables → Except StoreError (Ending ω)}
    (h : (body t).map (Ending.settle idle) = body (t.settle idle)) :
    transaction (t.settle idle) body =
      ((transaction t body).1, (transaction t body).2.settle idle) := by
  rw [transaction, transaction, ← h]
  cases body t with
  | error e => rfl
  | ok ending => cases ending <;> rfl

@[simp] theorem document?_settle (t : Tables) (idle : DocumentId → Bool) (d : DocumentId) :
    (t.settle idle).document? d = t.document? d := rfl

@[simp] theorem capability?_settle (t : Tables) (idle : DocumentId → Bool) (d : DocumentId)
    (c : CapabilityId) : (t.settle idle).capability? d c = t.capability? d c := rfl

@[simp] theorem parent?_settle (t : Tables) (idle : DocumentId → Bool) (d : DocumentId) :
    (t.settle idle).parent? d = t.parent? d := rfl

@[simp] theorem log_settle (t : Tables) (idle : DocumentId → Bool) (d : DocumentId) :
    (t.settle idle).log d = t.log d := rfl

@[simp] theorem issuerHasDescendantCapacity_settle (t : Tables) (idle : DocumentId → Bool)
    (d : DocumentId) (issuer : CapabilityId) :
    issuerHasDescendantCapacity (t.settle idle) d issuer =
      issuerHasDescendantCapacity t d issuer := by
  have hfrom : ∀ steps current, issuerHasDescendantCapacityFrom (t.settle idle) d steps current =
      issuerHasDescendantCapacityFrom t d steps current := by
    intro steps
    induction steps with
    | zero => exact fun _ ↦ rfl
    | succ steps ih =>
      intro current
      simp only [issuerHasDescendantCapacityFrom, capability?_settle, ih]
  exact hfrom _ _

@[simp] theorem enumerateIn_settle (t : Tables) (idle : DocumentId → Bool) (d : DocumentId)
    (lower terminal : AcceptanceSequence) (nextOrdinal limit : ℕ) :
    enumerateIn (t.settle idle) d lower terminal nextOrdinal limit =
      enumerateIn t d lower terminal nextOrdinal limit := by
  have hentry : ∀ lower ordinal, pageEntry (t.settle idle) d lower ordinal =
      pageEntry t d lower ordinal := fun _ _ ↦ rfl
  have hfrom : ∀ lower n ordinal used,
      enumerateFrom (t.settle idle) d lower limit n ordinal used =
        enumerateFrom t d lower limit n ordinal used := by
    intro lower n
    induction n with
    | zero => exact fun _ _ ↦ rfl
    | succ n ih =>
      intro ordinal used
      simp only [enumerateFrom, hentry, ih]
  simp only [enumerateIn, hfrom]

section Hash

variable (sha256 : List UInt8 → Bytes verifierLength)

@[simp] theorem authorizeDocument_settle (t : Tables) (idle : DocumentId → Bool) (d : DocumentId)
    (c : CapabilityId) (a : Authenticator) (operation : Operation) :
    authorizeDocument sha256 (t.settle idle) d c a operation =
      authorizeDocument sha256 t d c a operation := by
  have hoperation : (t.settle idle).hasOperation d c operation = t.hasOperation d c operation := rfl
  have hdocument : documentAuthorization (t.settle idle) d = documentAuthorization t d := rfl
  have hfrom : ∀ steps current,
      authorizeFrom sha256 (t.settle idle) d c a operation steps current =
        authorizeFrom sha256 t d c a operation steps current := by
    intro steps
    induction steps with
    | zero => exact fun _ ↦ rfl
    | succ steps ih =>
      intro current
      simp only [authorizeFrom, capability?_settle, hoperation, hdocument, ih]
  exact hfrom _ _

@[simp] theorem authorize_settle (t : Tables) (idle : DocumentId → Bool) (d : DocumentId)
    (c : CapabilityId) (a : Authenticator) (operation : Operation) :
    authorize sha256 (t.settle idle) d c a operation = authorize sha256 t d c a operation := by
  rw [authorize, authorizeDocument_settle, authorize]

theorem fetchAuthorized_settle (t : Tables) (idle : DocumentId → Bool) (d : DocumentId)
    (u : UpdateId) (c : CapabilityId) (a : Authenticator) :
    fetchAuthorized sha256 (t.settle idle) d u c a = fetchAuthorized sha256 t d u c a := by
  have hfetch : fetchIn (t.settle idle) d u = fetchIn t d u := rfl
  simp only [fetchAuthorized, authorize_settle, hfetch]

end Hash

/-! ## Statements that write -/

theorem map_ofConstraint_insert_settle {ρ κ : Type} [Keyed ρ κ] [DecidableEq κ] {table : Table ρ}
    {row : ρ} {put put' : Table ρ → Tables} {c : Prop} [Decidable c]
    (hput : ∀ table, (put table).settle idle = put' table) :
    (Tables.ofConstraint c ((table.insert? row).map put)).map (Tables.settle · idle) =
      Tables.ofConstraint c ((table.insert? row).map put') := by
  by_cases h : c
  · simp only [Tables.ofConstraint, if_pos h]
    cases table.insert? row with
    | none => rfl
    | some table => exact congrArg Except.ok (hput table)
  · simp only [Tables.ofConstraint, if_neg h]
    rfl

theorem map_insertDocument_settle (t : Tables) (row : DocumentRow) :
    (t.insertDocument row).map (Tables.settle · idle) = (t.settle idle).insertDocument row :=
  map_ofConstraint_insert_settle fun _ ↦ rfl

theorem map_insertCapability_settle (t : Tables) (row : CapabilityRow) :
    (t.insertCapability row).map (Tables.settle · idle) = (t.settle idle).insertCapability row :=
  map_ofConstraint_insert_settle fun _ ↦ rfl

theorem map_insertCapabilityOperation_settle (t : Tables) (row : CapabilityOperationRow) :
    (t.insertCapabilityOperation row).map (Tables.settle · idle) =
      (t.settle idle).insertCapabilityOperation row :=
  map_ofConstraint_insert_settle fun _ ↦ rfl

theorem map_insertControlReceipt_settle (t : Tables) (row : ControlReceiptRow) :
    (t.insertControlReceipt row).map (Tables.settle · idle) =
      (t.settle idle).insertControlReceipt row :=
  map_ofConstraint_insert_settle fun _ ↦ rfl

theorem map_insertCreateReceipt_settle (t : Tables) (row : CreateReceiptRow) :
    (t.insertCreateReceipt row).map (Tables.settle · idle) =
      (t.settle idle).insertCreateReceipt row :=
  map_ofConstraint_insert_settle fun _ ↦ rfl

theorem map_insertCreateAuthority_settle (t : Tables) (row : CreateAuthorityRow) :
    (t.insertCreateAuthority row).map (Tables.settle · idle) =
      (t.settle idle).insertCreateAuthority row :=
  map_ofConstraint_insert_settle fun _ ↦ rfl

theorem map_insertUpdateLoroRange_settle (t : Tables) (row : UpdateLoroRangeRow) :
    (t.insertUpdateLoroRange row).map (Tables.settle · idle) =
      (t.settle idle).insertUpdateLoroRange row :=
  map_ofConstraint_insert_settle fun _ ↦ rfl

theorem map_insertUpdate_settle (t : Tables) (row : UpdateRow) :
    (t.insertUpdate row).map (Tables.settle · idle) = (t.settle idle).insertUpdate row := by
  have hsequence : ((t.settle idle).documentAcceptanceSequences.find? row.documentId).isSome =
      (t.documentAcceptanceSequences.find? row.documentId).isSome := by
    rw [find?_settle, Option.isSome_map]
  rw [Tables.insertUpdate, Tables.insertUpdate, hsequence]
  exact map_ofConstraint_insert_settle fun _ ↦ rfl

theorem map_insertOperations_settle (t : Tables) (d : DocumentId) (c : CapabilityId)
    (operations : OperationSet) : (insertOperations t d c operations).map (Tables.settle · idle) =
      insertOperations (t.settle idle) d c operations :=
  map_foldlM (fun tx operation ↦ map_insertCapabilityOperation_settle tx ⟨d, c, operation⟩) _ t

theorem map_setControlRevision_settle (t : Tables) (d : DocumentId) (revision : ControlRevision) :
    (setControlRevision t d revision).map (Tables.settle · idle) =
      setControlRevision (t.settle idle) d revision := by
  rw [setControlRevision, setControlRevision, document?_settle]
  split
  · rfl
  split <;> rfl

theorem map_insertPeersFrom_settle (d : DocumentId) (ranges : List LoroRange) (count : ℕ)
    (t : Tables) : (insertPeersFrom d ranges count t).map (Prod.map id (Tables.settle · idle)) =
      insertPeersFrom d ranges count (t.settle idle) := by
  induction ranges generalizing count t with
  | nil => rfl
  | cons range ranges ih =>
    have hinsert : (t.insertOrIgnoreDocumentLoroPeer ⟨d, range.peerId⟩).map
        (Prod.map id (Tables.settle · idle)) =
          (t.settle idle).insertOrIgnoreDocumentLoroPeer ⟨d, range.peerId⟩ := by
      have hpeers : (t.settle idle).documentLoroPeers = t.documentLoroPeers := rfl
      rw [Tables.insertOrIgnoreDocumentLoroPeer, Tables.insertOrIgnoreDocumentLoroPeer,
        document?_settle, hpeers]
      cases t.documentLoroPeers.insert? ⟨d, range.peerId⟩ with
      | none => rfl
      | some table =>
        simp only
        split <;> rfl
    rw [insertPeersFrom, insertPeersFrom, ← hinsert]
    cases t.insertOrIgnoreDocumentLoroPeer ⟨d, range.peerId⟩ with
    | error e => rfl
    | ok inserted =>
      simp only [Except.map, Prod.map, id]
      cases checkedAdd 64 count inserted.1 with
      | none => rfl
      | some count =>
        by_cases hlimit : count > maxLoroPeers
        · simp only [if_pos hlimit]
        · simp only [if_neg hlimit]
          exact ih count inserted.2

/-- A counter that is written is not one of those settled. -/
theorem map_upsertAcceptanceSequence_settle (t : Tables) {row : AcceptanceSequenceRow}
    (h : idle row.documentId = false) :
    (t.upsertAcceptanceSequence row).map (Tables.settle · idle) =
      (t.settle idle).upsertAcceptanceSequence row := by
  have hrow : row.settle idle = row := by
    rw [AcceptanceSequenceRow.settle, h, if_neg (by simp)]
  have hinsert : (t.settle idle).documentAcceptanceSequences.insert? row = _ :=
    Table.insert?_update t.documentAcceptanceSequences (AcceptanceSequenceRow.key_settle idle) hrow
  rw [Tables.upsertAcceptanceSequence, Tables.upsertAcceptanceSequence, document?_settle, hinsert]
  split
  · cases t.documentAcceptanceSequences.insert? row with
    | some table => rfl
    | none =>
      refine congrArg Except.ok (Tables.ext rfl rfl rfl rfl rfl rfl ?_ rfl rfl rfl)
      have hdocument : ∀ old : AcceptanceSequenceRow,
          (if old.documentId = row.documentId then row else old).documentId = old.documentId := by
        intro old
        split
        · rename_i heq
          exact heq.symm
        · rfl
      refine Table.update_comm _ (AcceptanceSequenceRow.key_settle idle) hdocument fun old ↦ ?_
      have hkey : (old.settle idle).documentId = old.documentId :=
        AcceptanceSequenceRow.key_settle idle old
      rw [hkey]
      split
      · exact hrow
      · rfl
  · rfl

theorem map_insertDocumentLoroPeers_settle (t : Tables) (update : ImmutableUpdate) :
    (insertDocumentLoroPeers t update).map (Prod.map id (Tables.settle · idle)) =
      insertDocumentLoroPeers (t.settle idle) update := by
  have hcount : peerCount (t.settle idle) update.documentId = peerCount t update.documentId := rfl
  rw [insertDocumentLoroPeers, insertDocumentLoroPeers, hcount]
  split
  · rfl
  · exact map_insertPeersFrom_settle _ _ _ _

theorem map_insertUpdateRecord_settle (t : Tables) (d : DocumentId) (u : UpdateId)
    (sequence : AcceptanceSequence) (encodedRecord : List UInt8) :
    (insertUpdateRecord t d u sequence encodedRecord).map (Tables.settle · idle) =
      insertUpdateRecord (t.settle idle) d u sequence encodedRecord := by
  rw [insertUpdateRecord, insertUpdateRecord]
  split
  · exact map_insertUpdate_settle t _
  · rfl

theorem map_insertUpdateRanges_settle (t : Tables) (update : ImmutableUpdate) :
    (insertUpdateRanges t update).map (Tables.settle · idle) =
      insertUpdateRanges (t.settle idle) update :=
  map_foldlM (fun tx row ↦ map_insertUpdateLoroRange_settle tx row) _ t

/-! ## Transactions -/

section Hash

variable {sha256 : List UInt8 → Bytes verifierLength}

theorem createDocument_settle (t : Tables) (idle : DocumentId → Bool) (r : CreateCommand) :
    createDocument sha256 (t.settle idle) r =
      ((createDocument sha256 t r).1, (createDocument sha256 t r).2.settle idle) := by
  refine transaction_settle ?_
  have hauthority : (t.settle idle).createAuthorities = t.createAuthorities := rfl
  have hreceipts : (t.settle idle).createReceipts = t.createReceipts := rfl
  have hroot : ∀ d root, verifyRootReceipt sha256 (t.settle idle) d root r.rootAuthenticator =
      verifyRootReceipt sha256 t d root r.rootAuthenticator := fun _ _ ↦ rfl
  have hlimits : createLimitsExceeded (t.settle idle) r.createAuthorityId =
      createLimitsExceeded t r.createAuthorityId := rfl
  simp only [createDocumentIn, hauthority, hreceipts, hroot, hlimits, document?_settle]
  split
  · rfl
  split
  · rfl
  split
  · split
    · rfl
    split
    · rfl
    split <;> rfl
  split
  · rfl
  split
  · split <;> rfl
  split
  · rfl
  refine map_bind (map_insertDocument_settle t _) fun tx ↦ ?_
  refine map_bind (map_insertCapability_settle tx _) fun tx ↦ ?_
  refine map_bind (map_insertOperations_settle tx _ _ _) fun tx ↦ ?_
  exact map_bind (map_insertCreateReceipt_settle tx _) fun tx ↦ rfl

theorem grantCapability_settle (t : Tables) (idle : DocumentId → Bool) (r : GrantCommand) :
    grantCapability sha256 (t.settle idle) r =
      ((grantCapability sha256 t r).1, (grantCapability sha256 t r).2.settle idle) := by
  refine transaction_settle ?_
  have hreceipt : ∀ operation input, resolveControlReceipt sha256 (t.settle idle) r.documentId
      r.issuerCapabilityId r.issuerAuthenticator r.requestId operation input =
        resolveControlReceipt sha256 t r.documentId r.issuerCapabilityId r.issuerAuthenticator
          r.requestId operation input := fun _ _ ↦ rfl
  have hrevision : nextControlRevision (t.settle idle) r.documentId =
      nextControlRevision t r.documentId := rfl
  have hoperations : ∀ c, loadOperationSet (t.settle idle) r.documentId c =
      loadOperationSet t r.documentId c := fun _ ↦ rfl
  have hlimits : ∀ n m, controlLimitsExceeded (t.settle idle) r.documentId
      (some r.issuerCapabilityId) true n m =
        controlLimitsExceeded t r.documentId (some r.issuerCapabilityId) true n m :=
    fun _ _ ↦ rfl
  simp only [grantCapabilityIn, hreceipt, hrevision, hoperations, hlimits, authorize_settle,
    capability?_settle, issuerHasDescendantCapacity_settle]
  split
  · rfl
  split
  · rfl
  split
  · rfl
  split
  · rfl
  split
  · rfl
  split
  · rfl
  split
  · rfl
  refine map_bind (map_insertCapability_settle t _) fun tx ↦ ?_
  refine map_bind (map_insertOperations_settle tx _ _ _) fun tx ↦ ?_
  refine map_bind (map_insertControlReceipt_settle tx _) fun tx ↦ ?_
  exact map_bind (map_setControlRevision_settle tx _ _) fun tx ↦ rfl

theorem revokeCapability_settle (t : Tables) (idle : DocumentId → Bool) (r : RevokeCommand) :
    revokeCapability sha256 (t.settle idle) r =
      ((revokeCapability sha256 t r).1, (revokeCapability sha256 t r).2.settle idle) := by
  refine transaction_settle ?_
  have hreceipt : ∀ operation input, resolveControlReceipt sha256 (t.settle idle) r.documentId
      r.issuerCapabilityId r.issuerAuthenticator r.requestId operation input =
        resolveControlReceipt sha256 t r.documentId r.issuerCapabilityId r.issuerAuthenticator
          r.requestId operation input := fun _ _ ↦ rfl
  have hrevision : nextControlRevision (t.settle idle) r.documentId =
      nextControlRevision t r.documentId := rfl
  have htarget : ∀ c c', isActiveDescendant (t.settle idle) r.documentId c c' =
      isActiveDescendant t r.documentId c c' := fun _ _ ↦ rfl
  have hlimits : ∀ n m, controlLimitsExceeded (t.settle idle) r.documentId none false n m =
      controlLimitsExceeded t r.documentId none false n m := fun _ _ ↦ rfl
  have hsubtree : revokeSubtree (t.settle idle) r.documentId r.targetCapabilityId =
      (revokeSubtree t r.documentId r.targetCapabilityId).settle idle := rfl
  simp only [revokeCapabilityIn, hreceipt, hrevision, htarget, hlimits, hsubtree,
    authorize_settle]
  split
  · rfl
  split
  · rfl
  split
  · rfl
  split
  · rfl
  split
  · rfl
  refine map_bind (map_insertControlReceipt_settle _ _) fun tx ↦ ?_
  exact map_bind (map_setControlRevision_settle tx _ _) fun tx ↦ rfl

/-- **An accept commutes with settling the counters of other documents.** -/
theorem accept_settle (t : Tables) {idle : DocumentId → Bool} (c : CapabilityId)
    (a : Authenticator) {update : ImmutableUpdate} (encodedRecord : List UInt8)
    (h : idle update.documentId = false) :
    accept sha256 (t.settle idle) c a update encodedRecord =
      ((accept sha256 t c a update encodedRecord).1,
        (accept sha256 t c a update encodedRecord).2.settle idle) := by
  refine transaction_settle ?_
  have hupdates : (t.settle idle).updates = t.updates := rfl
  have hnext : nextSequence (t.settle idle) update.documentId =
      nextSequence t update.documentId := by
    rw [nextSequence, find?_settle_of_not h, nextSequence]
  simp only [acceptIn, authorize_settle, hupdates, hnext]
  split
  · rfl
  split
  · split <;> rfl
  split
  · rfl
  refine map_bind (map_insertDocumentLoroPeers_settle t update) ?_
  rintro ⟨fits, tx⟩
  simp only [Prod.map, id]
  split
  · rfl
  refine map_bind (map_upsertAcceptanceSequence_settle tx h) fun tx ↦ ?_
  refine map_bind (map_insertUpdateRecord_settle tx _ _ _ _) fun tx ↦ ?_
  exact map_bind (map_insertUpdateRanges_settle tx update) fun tx ↦ rfl

/-! ## Idle documents -/

theorem Tables.idle_iff : t.idle d = true ↔ ∀ row ∈ t.updates.rows, row.documentId ≠ d := by
  rw [idle, List.isEmpty_iff, List.eq_nil_iff_forall_not_mem]
  exact ⟨fun h row hrow hd ↦ h row (mem_log.mpr ⟨hrow, hd⟩),
    fun h row hrow ↦ h row (mem_log.mp hrow).1 (mem_log.mp hrow).2⟩

theorem Tables.idle_congr (h : t'.updates = t.updates) : t'.idle = t.idle := by
  refine funext fun d ↦ Bool.eq_iff_iff.mpr ?_
  rw [idle_iff, idle_iff, h]

theorem settle_congr {idle' : DocumentId → Bool}
    (h : ∀ row ∈ t.documentAcceptanceSequences.rows, row.settle idle = row.settle idle') :
    t.settle idle = t.settle idle' :=
  Tables.ext rfl rfl rfl rfl rfl rfl (Table.ext (List.map_congr_left h)) rfl rfl rfl

theorem createDocument_settled (t : Tables) (r : CreateCommand) :
    createDocument sha256 t.settled r =
      ((createDocument sha256 t r).1, (createDocument sha256 t r).2.settled) := by
  have hidle : (createDocument sha256 t r).2.idle = t.idle := by
    rcases createDocument_spec (Prod.eta (createDocument sha256 t r)).symm with ⟨-, h⟩ | ⟨-, h⟩
    · exact Tables.idle_congr h.updates
    · rw [h]
  rw [Tables.settled, createDocument_settle, Tables.settled, hidle]

theorem grantCapability_settled (t : Tables) (r : GrantCommand) :
    grantCapability sha256 t.settled r =
      ((grantCapability sha256 t r).1, (grantCapability sha256 t r).2.settled) := by
  have hidle : (grantCapability sha256 t r).2.idle = t.idle := by
    rcases grantCapability_spec (Prod.eta (grantCapability sha256 t r)).symm with
      ⟨-, _, h⟩ | ⟨-, h⟩
    · exact Tables.idle_congr h.updates
    · rw [h]
  rw [Tables.settled, grantCapability_settle, Tables.settled, hidle]

theorem revokeCapability_settled (t : Tables) (r : RevokeCommand) :
    revokeCapability sha256 t.settled r =
      ((revokeCapability sha256 t r).1, (revokeCapability sha256 t r).2.settled) := by
  have hidle : (revokeCapability sha256 t r).2.idle = t.idle := by
    rcases revokeCapability_spec (Prod.eta (revokeCapability sha256 t r)).symm with
      ⟨-, _, h⟩ | ⟨-, h⟩
    · exact Tables.idle_congr h.updates
    · rw [h]
  rw [Tables.settled, revokeCapability_settle, Tables.settled, hidle]

end Hash

/-- An idle document whose counter is not at the first position. -/
def Tables.Skewed (t : Tables) (d : DocumentId) : Prop :=
  t.idle d = true ∧ nextSequence t d ≠ .first

instance (t : Tables) (d : DocumentId) : Decidable (t.Skewed d) :=
  inferInstanceAs (Decidable (_ ∧ _))

section Hash

variable {sha256 : List UInt8 → Bytes verifierLength}

/-- **An accept on a document whose counter is as it should be commutes with settling.** -/
theorem accept_settled (t : Tables) (c : CapabilityId) (a : Authenticator)
    {update : ImmutableUpdate} (encodedRecord : List UInt8) (h : ¬t.Skewed update.documentId) :
    accept sha256 t.settled c a update encodedRecord =
      ((accept sha256 t c a update encodedRecord).1,
        (accept sha256 t c a update encodedRecord).2.settled) := by
  -- the counter of the document may be left out of the settling
  let others : DocumentId → Bool := fun d ↦ t.idle d && decide (d ≠ update.documentId)
  have hothers : t.settled = t.settle others := by
    refine settle_congr fun row hrow ↦ ?_
    by_cases hd : row.documentId = update.documentId
    · have hnext : row.settle t.idle = row := by
        rw [AcceptanceSequenceRow.settle]
        split
        · rename_i hidle
          have hfirst : nextSequence t update.documentId = .first := by
            by_contra hne
            exact h ⟨hd ▸ hidle, hne⟩
          have hfind : t.documentAcceptanceSequences.find? update.documentId = some row :=
            hd ▸ Table.find?_key hrow
          rw [nextSequence, hfind] at hfirst
          exact AcceptanceSequenceRow.ext rfl hfirst.symm
        · rfl
      rw [hnext, AcceptanceSequenceRow.settle, if_neg (by simp [others, hd])]
    · rw [AcceptanceSequenceRow.settle, AcceptanceSequenceRow.settle]
      simp only [others, decide_eq_true (show row.documentId ≠ update.documentId from hd),
        Bool.and_true]
  have hsettle := @accept_settle sha256 t others c a update encodedRecord (by simp [others])
  rw [hothers, hsettle]
  refine congrArg (Prod.mk _) ?_
  rcases accept_spec (Prod.eta (accept sha256 t c a update encodedRecord)).symm with
    ⟨-, row, -, haccepted⟩ | ⟨-, hsame⟩
  · -- the document is not idle any more, and the others are as they were
    refine settle_congr fun old _ ↦ ?_
    have hidle : ∀ d, (accept sha256 t c a update encodedRecord).2.idle d = others d := by
      intro d
      rw [Bool.eq_iff_iff, Tables.idle_iff, haccepted.updates, List.forall_mem_append,
        ← Tables.idle_iff]
      simp only [List.mem_singleton, forall_eq, haccepted.row_document, others, Bool.and_eq_true,
        decide_eq_true_eq]
      exact and_congr Iff.rfl ne_comm
    rw [AcceptanceSequenceRow.settle, AcceptanceSequenceRow.settle, hidle]
  · rw [hsame, hothers]

/-! ## Passes -/

theorem enumeratePasses_settled (t : Tables) (generation : StoreGeneration) (r : EnumerateRequest)
    (m : Moment enumerationContinuationLength) (passes : List EnumerationPass) :
    enumeratePasses t.settled generation r m passes = enumeratePasses t generation r m passes := by
  have hhigh : ∀ d, highWaterSequenceIn t.settled d = highWaterSequenceIn t d := fun _ ↦ rfl
  have hpage : ∀ d lower terminal n limit, enumerateIn t.settled d lower terminal n limit =
      enumerateIn t d lower terminal n limit := enumerateIn_settle t t.idle
  have hselect : ∀ d pass mode, selectEnumerationWindow t.settled d pass mode =
      selectEnumerationWindow t d pass mode := by
    intro d pass mode
    cases mode <;> rfl
  simp only [enumeratePasses, enumerateOrigin, enumerateToken, hhigh, hpage, hselect]

theorem vectorBackfillPasses_settled (t : Tables) (r : VectorBackfillRequest)
    (m : Moment vectorContinuationLength) (passes : List VectorBackfillPass) :
    vectorBackfillPasses t.settled r m passes = vectorBackfillPasses t r m passes := by
  have hhigh : ∀ d, highWaterSequenceIn t.settled d = highWaterSequenceIn t d := fun _ ↦ rfl
  have hpage : ∀ d position terminal v limit,
      vectorBackfillIn t.settled d position terminal v limit =
        vectorBackfillIn t d position terminal v limit := fun _ _ _ _ _ ↦ rfl
  simp only [vectorBackfillPasses, vectorBackfillOrigin, vectorBackfillToken, hhigh, hpage]

/-! ## Requests -/

namespace DurableUpdateStore

/-- The store with the counter of every idle document at the first position. -/
def settled (s : DurableUpdateStore) : DurableUpdateStore := { s with tables := s.tables.settled }

variable (sha256) in
/-- A request that takes a position from the counter of an idle document that is off. -/
def StartsSkewed (s : DurableUpdateStore) : Request → Prop
  | .accept r => s.tables.Skewed r.update.documentId ∧
    authorize sha256 s.tables r.update.documentId r.capabilityId r.authenticator .update = true ∧
    (nextSequence s.tables r.update.documentId).checkedNext.isSome = true
  | _ => False

variable {s : DurableUpdateStore}

/-- An accept on a skewed document that takes no position changes nothing. -/
theorem accept_of_skewed {r : AcceptCommand} (hskewed : s.tables.Skewed r.update.documentId)
    (h : ¬s.StartsSkewed sha256 (.accept r)) :
    ∃ o, s.execute sha256 (.accept r) = (.accepted (.ok o), s) := by
  have hrollback : ∀ {o}, o ≠ .inserted → acceptIn sha256 r.capabilityId r.authenticator r.update
      r.encodedRecord s.tables = .ok (.rollback o) →
        s.execute sha256 (.accept r) = (.accepted (.ok o), s) := by
    intro o ho hbody
    simp only [execute, accept, Renee.accept, transaction_rollback hbody]
    rw [if_neg (by simpa using ho)]
  by_cases hauth : authorize sha256 s.tables r.update.documentId r.capabilityId r.authenticator
      .update = true
  · have hnone : s.tables.updates.find? (r.update.documentId, r.update.updateId) = none := by
      refine Table.find?_eq_none_iff.mpr fun row hrow hkey ↦ ?_
      exact Tables.idle_iff.mp hskewed.1 row hrow (Prod.mk_inj.mp hkey).1
    have hlast : (nextSequence s.tables r.update.documentId).checkedNext = none := by
      rw [← Option.not_isSome_iff_eq_none]
      exact fun hsome ↦ h ⟨hskewed, hauth, hsome⟩
    refine ⟨.counterExhausted, hrollback (by simp) ?_⟩
    simp only [acceptIn, hauth, hnone, hlast, Bool.not_true, Bool.false_eq_true, if_false]
  · refine ⟨.authorizationDenied, hrollback (by simp) ?_⟩
    simp only [acceptIn, hauth, Bool.not_false, if_true]

/-- **A request that does not take a position from a skewed counter commutes with settling, or
changes nothing.** -/
theorem execute_settled (sha256 : List UInt8 → Bytes verifierLength) (s : DurableUpdateStore)
    {request : Request} (h : ¬s.StartsSkewed sha256 request)
    (hreopen : ∀ p g b, request ≠ .reopen p g b) :
    s.settled.execute sha256 request =
        ((s.execute sha256 request).1, (s.execute sha256 request).2.settled) ∨
      ∃ o, s.execute sha256 request = (.accepted (.ok o), s) := by
  cases request with
  | create r =>
    left
    simp only [execute, createDocument, settled, createDocument_settled]
  | grant r =>
    left
    simp only [execute, grantCapability, settled, grantCapability_settled]
  | preflightRevoke r =>
    left
    simp only [execute, preflightRevokeCapability, settled, Tables.settled, authorize_settle]
    rfl
  | revoke r =>
    left
    simp only [execute, revokeCapability, settled, revokeCapability_settled]
    split <;> rfl
  | accept r =>
    by_cases hskewed : s.tables.Skewed r.update.documentId
    · exact Or.inr (accept_of_skewed hskewed h)
    · left
      simp only [execute, accept, settled, accept_settled _ _ _ _ hskewed]
      split <;> rfl
  | fetch r =>
    left
    simp only [execute, settled, Tables.settled, fetchAuthorized_settle]
  | enumerate r m =>
    left
    have hauth : authorizeDocument sha256 s.tables.settled r.documentId r.capabilityId
        r.authenticator .read = authorizeDocument sha256 s.tables r.documentId r.capabilityId
          r.authenticator .read := authorizeDocument_settle ..
    simp only [execute, enumerateAuthorized, settled, hauth, enumeratePasses_settled]
    split
    · rfl
    split <;> rfl
  | vectorBackfill r m =>
    left
    have hauth : authorizeDocument sha256 s.tables.settled r.documentId r.capabilityId
        r.authenticator .read = authorizeDocument sha256 s.tables r.documentId r.capabilityId
          r.authenticator .read := authorizeDocument_settle ..
    simp only [execute, vectorBackfillAuthorized, settled, hauth, vectorBackfillPasses_settled]
    split
    · rfl
    split <;> rfl
  | subscribe r =>
    left
    have hauth : authorize sha256 s.tables.settled r.documentId r.capabilityId r.authenticator
        .read = authorize sha256 s.tables r.documentId r.capabilityId r.authenticator .read :=
      authorize_settle ..
    simp only [execute, subscribeUpdates, settled, hauth]
    split
    · rfl
    split
    · rfl
    split <;> rfl
  | openChannel => exact Or.inl rfl
  | closeChannel channel =>
    left
    cases hchannel : s.subscriptions.recognizes channel with
    | false => simp [execute, closeBrokerChannel, settled, hchannel]
    | true => simp [execute, closeBrokerChannel, settled, hchannel]
  | next channelId subscriptionId => exact Or.inl rfl
  | cancel subscriptionId => exact Or.inl rfl
  | publishRetirement d =>
    left
    have hdocument : s.tables.settled.document? d = s.tables.document? d := rfl
    cases hretired : (s.tables.document? d).any DocumentRow.retired with
    | false => simp [execute, publishCommittedRetirement, settled, hdocument, hretired]
    | true => simp [execute, publishCommittedRetirement, settled, hdocument, hretired]
  | retire d => exact Or.inl rfl
  | disableCreateAuthority i => exact Or.inl rfl
  | reopen p g b => exact absurd rfl (hreopen p g b)

end DurableUpdateStore

end Hash

end Renee
