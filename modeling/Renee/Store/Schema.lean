import Renee.Library.Guard
import Renee.Library.OrderBy
import Renee.Library.Table
import Renee.Types

/-!
# The schema of the store

The ten tables of schema version 4, with the constraints SQLite enforces on them.

* Columns have the types their `CHECK` clauses describe: an identifier column holds an identifier,
  a `state` column a flag, an `operation` column an operation.  A constraint between the columns of
  one row is a field of the row.
* Primary keys are the keys of the tables (`Relational.Table`).
* What remains are the constraints between rows: foreign keys, the unique index on root
  capabilities and the unique acceptance position.  The insertions below check them, and fail with
  `StoreError.sqlite` where SQLite would; `insertCapability_eq_ok_iff` and its siblings say when
  each insertion succeeds and what it leaves.

A transaction is a function on `Tables`.  `transaction` runs one: what it returns is committed only
when the body says so, and dropped otherwise.
-/

set_option autoImplicit false

namespace Renee

open ByteString Relational

/-! ## Limits -/

def maxCapabilityDepth : ℕ := 64
def maxDirectCapabilityChildren : ℕ := 64
def maxCapabilitiesPerDocument : ℕ := 1024
def maxControlReceiptsPerDocument : ℕ := 4096
def maxGlobalCapabilities : ℕ := 0x4000
def maxGlobalControlReceipts : ℕ := 0x00010000
def maxDocumentControlBytes : ℕ := 0x00100000
def maxGlobalControlBytes : ℕ := 0x01000000
def maxDocumentsPerCreateAuthority : ℕ := 4096
def maxGlobalDocuments : ℕ := 0x4000
def maxGlobalCreateReceipts : ℕ := 0x00010000

/-- Bytes of a stored verifier. -/
def verifierLength : ℕ := 32

/-- Why an operation of the store failed. -/
inductive StoreError
  /-- SQLite refused a statement. -/
  | sqlite
  /-- The durable state contradicts itself. -/
  | corrupt (message : String)
  /-- A position lies outside the window it is used in. -/
  | invalidCursor
  /-- The random source failed. -/
  | entropyUnavailable
deriving DecidableEq

/-! ## Rows -/

/-- A control revision: a nonzero `u64`. -/
@[ext] structure ControlRevision where
  /-- The counter. -/
  get : ℕ
  /-- It is not zero. -/
  pos : 0 < get
  /-- It is a `u64`. -/
  isLt : get < 2 ^ 64

instance : DecidableEq ControlRevision := fun _ _ ↦ decidable_of_iff' _ ControlRevision.ext_iff

/-- The revision of a document that has just been created. -/
def ControlRevision.initial : ControlRevision := ⟨1, Nat.one_pos, AcceptanceSequence.first.isLt⟩

/-- The kind of a control receipt. -/
inductive ControlOperation
  | grant
  | revoke
deriving DecidableEq

@[ext] structure CreateAuthorityRow where
  createAuthorityId : CreateAuthorityId
  liveVerifier : Bytes verifierLength
  receiptVerifier : Bytes verifierLength
  /-- `state = 1`. -/
  disabled : Bool
deriving DecidableEq

@[ext] structure DocumentRow where
  documentId : DocumentId
  /-- `state = 1`. -/
  retired : Bool
  controlRevision : ControlRevision
  rootCapabilityId : CapabilityId
deriving DecidableEq

@[ext] structure CapabilityRow where
  documentId : DocumentId
  capabilityId : CapabilityId
  parentCapabilityId : Option CapabilityId
  root : Bool
  liveVerifier : Bytes verifierLength
  receiptVerifier : Bytes verifierLength
  /-- `state = 1`. -/
  revoked : Bool
  createdRevision : ControlRevision
  /-- A root is what has no parent. -/
  root_iff : root = true ↔ parentCapabilityId = none
deriving DecidableEq

@[ext] structure CapabilityOperationRow where
  documentId : DocumentId
  capabilityId : CapabilityId
  operation : Operation
deriving DecidableEq

@[ext] structure ControlReceiptRow where
  documentId : DocumentId
  issuerCapabilityId : CapabilityId
  requestId : RequestId
  operation : ControlOperation
  normalizedInput : List UInt8
  input_ne_nil : normalizedInput ≠ []
deriving DecidableEq

@[ext] structure CreateReceiptRow where
  createAuthorityId : CreateAuthorityId
  requestId : RequestId
  documentId : DocumentId
  rootCapabilityId : CapabilityId
  normalizedInput : List UInt8
  input_ne_nil : normalizedInput ≠ []
deriving DecidableEq

@[ext] structure AcceptanceSequenceRow where
  documentId : DocumentId
  nextSequence : AcceptanceSequence
deriving DecidableEq

@[ext] structure UpdateRow where
  documentId : DocumentId
  updateId : UpdateId
  acceptanceSequence : AcceptanceSequence
  encodedRecord : List UInt8
  sequence_pos : 0 < acceptanceSequence.get
  record_length : 0 < encodedRecord.length ∧ encodedRecord.length ≤ 4024
deriving DecidableEq

@[ext] structure UpdateLoroRangeRow where
  documentId : DocumentId
  updateId : UpdateId
  peerId : U64
  startCounter : ℕ
  endCounter : ℕ
deriving DecidableEq

@[ext] structure DocumentLoroPeerRow where
  documentId : DocumentId
  peerId : U64
deriving DecidableEq

instance : Keyed CreateAuthorityRow CreateAuthorityId := ⟨CreateAuthorityRow.createAuthorityId⟩
instance : Keyed DocumentRow DocumentId := ⟨DocumentRow.documentId⟩
instance : Keyed CapabilityRow (DocumentId × CapabilityId) :=
  ⟨fun row ↦ (row.documentId, row.capabilityId)⟩
instance : Keyed CapabilityOperationRow (DocumentId × CapabilityId × Operation) :=
  ⟨fun row ↦ (row.documentId, row.capabilityId, row.operation)⟩
instance : Keyed ControlReceiptRow (DocumentId × CapabilityId × RequestId) :=
  ⟨fun row ↦ (row.documentId, row.issuerCapabilityId, row.requestId)⟩
instance : Keyed CreateReceiptRow (CreateAuthorityId × RequestId) :=
  ⟨fun row ↦ (row.createAuthorityId, row.requestId)⟩
instance : Keyed AcceptanceSequenceRow DocumentId := ⟨AcceptanceSequenceRow.documentId⟩
instance : Keyed UpdateRow (DocumentId × UpdateId) := ⟨fun row ↦ (row.documentId, row.updateId)⟩
instance : Keyed UpdateLoroRangeRow (DocumentId × UpdateId × U64) :=
  ⟨fun row ↦ (row.documentId, row.updateId, row.peerId)⟩
instance : Keyed DocumentLoroPeerRow (DocumentId × U64) :=
  ⟨fun row ↦ (row.documentId, row.peerId)⟩

/-! ## Tables -/

/-- The durable state. -/
@[ext] structure Tables where
  createAuthorities : Table CreateAuthorityRow
  documents : Table DocumentRow
  capabilities : Table CapabilityRow
  capabilityOperations : Table CapabilityOperationRow
  controlReceipts : Table ControlReceiptRow
  createReceipts : Table CreateReceiptRow
  documentAcceptanceSequences : Table AcceptanceSequenceRow
  updates : Table UpdateRow
  updateLoroRanges : Table UpdateLoroRangeRow
  documentLoroPeers : Table DocumentLoroPeerRow

namespace Tables

/-- A fresh database. -/
def empty : Tables :=
  ⟨.empty, .empty, .empty, .empty, .empty, .empty, .empty, .empty, .empty, .empty⟩

variable {t t' : Tables}

/-! ## Statements that read -/

/-- The row of a document. -/
def document? (t : Tables) (d : DocumentId) : Option DocumentRow := t.documents.find? d

/-- The row of a capability. -/
def capability? (t : Tables) (d : DocumentId) (c : CapabilityId) : Option CapabilityRow :=
  t.capabilities.find? (d, c)

/-- The parent column of a capability; nothing also where there is no row. -/
def parent? (t : Tables) (d : DocumentId) (c : CapabilityId) : Option CapabilityId :=
  (t.capability? d c).bind CapabilityRow.parentCapabilityId

/-- Whether a capability has an operation. -/
def hasOperation (t : Tables) (d : DocumentId) (c : CapabilityId) (operation : Operation) : Bool :=
  (t.capabilityOperations.find? (d, c, operation)).isSome

/-- The updates of a document in the order of their acceptance positions. -/
def log (t : Tables) (d : DocumentId) : List UpdateRow :=
  orderBy UpdateRow.acceptanceSequence (t.updates.rows.filter fun row ↦ row.documentId = d)

theorem capability?_eq_some_iff {d : DocumentId} {c : CapabilityId} {row : CapabilityRow} :
    t.capability? d c = some row ↔
      row ∈ t.capabilities.rows ∧ row.documentId = d ∧ row.capabilityId = c :=
  Table.find?_eq_some_iff.trans (and_congr Iff.rfl Prod.mk_inj)

theorem document?_eq_some_iff {d : DocumentId} {row : DocumentRow} :
    t.document? d = some row ↔ row ∈ t.documents.rows ∧ row.documentId = d :=
  Table.find?_eq_some_iff

theorem hasOperation_iff {d : DocumentId} {c : CapabilityId} {operation : Operation} :
    t.hasOperation d c operation = true ↔
      (⟨d, c, operation⟩ : CapabilityOperationRow) ∈ t.capabilityOperations.rows := by
  rw [hasOperation, Table.isSome_find?_iff]
  constructor
  · rintro ⟨row, hrow, hkey⟩
    obtain ⟨rfl, rfl, rfl⟩ : row.documentId = d ∧ row.capabilityId = c ∧
        row.operation = operation := by simpa [Keyed.key] using hkey
    exact hrow
  · exact fun h ↦ ⟨_, h, rfl⟩

theorem mem_log {d : DocumentId} {row : UpdateRow} :
    row ∈ t.log d ↔ row ∈ t.updates.rows ∧ row.documentId = d := by
  rw [log, mem_orderBy, List.mem_filter, decide_eq_true_eq]

theorem log_perm (t : Tables) (d : DocumentId) :
    (t.log d).Perm (t.updates.rows.filter fun row ↦ row.documentId = d) :=
  orderBy_perm _ _

/-! ## Statements that write -/

/-- A statement succeeds when its constraints hold and its primary key is free. -/
def ofConstraint {α : Type} (c : Prop) [Decidable c] (inserted : Option α) : Except StoreError α :=
  if c then
    match inserted with
    | some a => .ok a
    | none => .error .sqlite
  else .error .sqlite

theorem ofConstraint_eq_ok_iff {α : Type} {c : Prop} [Decidable c] {inserted : Option α} {a : α} :
    ofConstraint c inserted = .ok a ↔ c ∧ inserted = some a := by
  by_cases hc : c
  · cases inserted <;> simp [ofConstraint, hc]
  · simp [ofConstraint, hc]

theorem ofConstraint_insert_eq_ok_iff {ρ κ : Type} [Keyed ρ κ] [DecidableEq κ] {table : Table ρ}
    {row : ρ} {put : Table ρ → Tables} {c : Prop} [Decidable c] :
    ofConstraint c ((table.insert? row).map put) = .ok t' ↔
      c ∧ ∃ h : table.find? (Keyed.key row) = none, t' = put (table.insert row h) := by
  rw [ofConstraint_eq_ok_iff]
  refine and_congr Iff.rfl ?_
  simp only [Option.map_eq_some_iff, Table.insert?_eq_some_iff]
  constructor
  · rintro ⟨_, ⟨h, rfl⟩, rfl⟩
    exact ⟨h, rfl⟩
  · rintro ⟨h, rfl⟩
    exact ⟨_, ⟨h, rfl⟩, rfl⟩

/-- `INSERT INTO create_authorities`. -/
def insertCreateAuthority (t : Tables) (row : CreateAuthorityRow) : Except StoreError Tables :=
  ofConstraint True ((t.createAuthorities.insert? row).map
    fun createAuthorities ↦ { t with createAuthorities })

/-- `INSERT INTO documents`. -/
def insertDocument (t : Tables) (row : DocumentRow) : Except StoreError Tables :=
  ofConstraint True ((t.documents.insert? row).map fun documents ↦ { t with documents })

/-- `INSERT INTO capabilities`: the document exists, the parent exists, and there is no second
root. -/
def insertCapability (t : Tables) (row : CapabilityRow) : Except StoreError Tables :=
  ofConstraint ((t.document? row.documentId).isSome ∧
      (∀ parent ∈ row.parentCapabilityId,
        parent = row.capabilityId ∨ (t.capability? row.documentId parent).isSome) ∧
      ¬(row.root = true ∧
        ∃ other ∈ t.capabilities.rows, other.documentId = row.documentId ∧ other.root = true))
    ((t.capabilities.insert? row).map fun capabilities ↦ { t with capabilities })

/-- `INSERT INTO capability_operations`. -/
def insertCapabilityOperation (t : Tables) (row : CapabilityOperationRow) :
    Except StoreError Tables :=
  ofConstraint ((t.capability? row.documentId row.capabilityId).isSome = true)
    ((t.capabilityOperations.insert? row).map
      fun capabilityOperations ↦ { t with capabilityOperations })

/-- `INSERT INTO control_receipts`. -/
def insertControlReceipt (t : Tables) (row : ControlReceiptRow) : Except StoreError Tables :=
  ofConstraint ((t.capability? row.documentId row.issuerCapabilityId).isSome = true)
    ((t.controlReceipts.insert? row).map fun controlReceipts ↦ { t with controlReceipts })

/-- `INSERT INTO create_receipts`. -/
def insertCreateReceipt (t : Tables) (row : CreateReceiptRow) : Except StoreError Tables :=
  ofConstraint ((t.createAuthorities.find? row.createAuthorityId).isSome = true ∧
      (t.document? row.documentId).isSome = true)
    ((t.createReceipts.insert? row).map fun createReceipts ↦ { t with createReceipts })

/-- `INSERT INTO document_acceptance_sequences … ON CONFLICT DO UPDATE`. -/
def upsertAcceptanceSequence (t : Tables) (row : AcceptanceSequenceRow) :
    Except StoreError Tables :=
  if (t.document? row.documentId).isSome then
    match t.documentAcceptanceSequences.insert? row with
    | some documentAcceptanceSequences => .ok { t with documentAcceptanceSequences }
    | none =>
      .ok { t with
        documentAcceptanceSequences := t.documentAcceptanceSequences.update
          (fun old ↦ if old.documentId = row.documentId then row else old)
          (fun old ↦ by
            show (if old.documentId = row.documentId then row else old).documentId = old.documentId
            split <;> simp_all) }
  else .error .sqlite

/-- `INSERT INTO updates`: the document has a sequence, and no other update its position. -/
def insertUpdate (t : Tables) (row : UpdateRow) : Except StoreError Tables :=
  ofConstraint ((t.documentAcceptanceSequences.find? row.documentId).isSome = true ∧
      ¬∃ other ∈ t.updates.rows, other.documentId = row.documentId ∧
        other.acceptanceSequence = row.acceptanceSequence)
    ((t.updates.insert? row).map fun updates ↦ { t with updates })

/-- `INSERT INTO update_loro_ranges`. -/
def insertUpdateLoroRange (t : Tables) (row : UpdateLoroRangeRow) : Except StoreError Tables :=
  ofConstraint ((t.updates.find? (row.documentId, row.updateId)).isSome = true)
    ((t.updateLoroRanges.insert? row).map fun updateLoroRanges ↦ { t with updateLoroRanges })

/-- `INSERT OR IGNORE INTO document_loro_peers`, with the number of rows it inserted.  A primary key
conflict is ignored; a foreign key conflict is not. -/
def insertOrIgnoreDocumentLoroPeer (t : Tables) (row : DocumentLoroPeerRow) :
    Except StoreError (ℕ × Tables) :=
  match t.documentLoroPeers.insert? row with
  | none => .ok (0, t)
  | some documentLoroPeers =>
    if (t.document? row.documentId).isSome then .ok (1, { t with documentLoroPeers })
    else .error .sqlite

theorem insertCreateAuthority_eq_ok_iff {row : CreateAuthorityRow} :
    t.insertCreateAuthority row = .ok t' ↔
      ∃ h : t.createAuthorities.find? row.createAuthorityId = none,
        t' = { t with createAuthorities := t.createAuthorities.insert row h } :=
  ofConstraint_insert_eq_ok_iff.trans (Iff.of_eq (true_and _))

theorem insertDocument_eq_ok_iff {row : DocumentRow} :
    t.insertDocument row = .ok t' ↔
      ∃ h : t.document? row.documentId = none,
        t' = { t with documents := t.documents.insert row h } :=
  ofConstraint_insert_eq_ok_iff.trans (Iff.of_eq (true_and _))

theorem insertCapability_eq_ok_iff {row : CapabilityRow} :
    t.insertCapability row = .ok t' ↔
      ((t.document? row.documentId).isSome ∧
        (∀ parent ∈ row.parentCapabilityId,
          parent = row.capabilityId ∨ (t.capability? row.documentId parent).isSome) ∧
        ¬(row.root = true ∧
          ∃ other ∈ t.capabilities.rows, other.documentId = row.documentId ∧ other.root = true)) ∧
      ∃ h : t.capability? row.documentId row.capabilityId = none,
        t' = { t with capabilities := t.capabilities.insert row h } :=
  ofConstraint_insert_eq_ok_iff

theorem insertCapabilityOperation_eq_ok_iff {row : CapabilityOperationRow} :
    t.insertCapabilityOperation row = .ok t' ↔
      (t.capability? row.documentId row.capabilityId).isSome = true ∧
      ∃ h : t.capabilityOperations.find? (row.documentId, row.capabilityId, row.operation) = none,
        t' = { t with capabilityOperations := t.capabilityOperations.insert row h } :=
  ofConstraint_insert_eq_ok_iff

theorem insertControlReceipt_eq_ok_iff {row : ControlReceiptRow} :
    t.insertControlReceipt row = .ok t' ↔
      (t.capability? row.documentId row.issuerCapabilityId).isSome = true ∧
      ∃ h : t.controlReceipts.find? (row.documentId, row.issuerCapabilityId, row.requestId) = none,
        t' = { t with controlReceipts := t.controlReceipts.insert row h } :=
  ofConstraint_insert_eq_ok_iff

theorem insertCreateReceipt_eq_ok_iff {row : CreateReceiptRow} :
    t.insertCreateReceipt row = .ok t' ↔
      ((t.createAuthorities.find? row.createAuthorityId).isSome = true ∧
        (t.document? row.documentId).isSome = true) ∧
      ∃ h : t.createReceipts.find? (row.createAuthorityId, row.requestId) = none,
        t' = { t with createReceipts := t.createReceipts.insert row h } :=
  ofConstraint_insert_eq_ok_iff

theorem insertUpdate_eq_ok_iff {row : UpdateRow} :
    t.insertUpdate row = .ok t' ↔
      ((t.documentAcceptanceSequences.find? row.documentId).isSome = true ∧
        ¬∃ other ∈ t.updates.rows, other.documentId = row.documentId ∧
          other.acceptanceSequence = row.acceptanceSequence) ∧
      ∃ h : t.updates.find? (row.documentId, row.updateId) = none,
        t' = { t with updates := t.updates.insert row h } :=
  ofConstraint_insert_eq_ok_iff

theorem insertUpdateLoroRange_eq_ok_iff {row : UpdateLoroRangeRow} :
    t.insertUpdateLoroRange row = .ok t' ↔
      (t.updates.find? (row.documentId, row.updateId)).isSome = true ∧
      ∃ h : t.updateLoroRanges.find? (row.documentId, row.updateId, row.peerId) = none,
        t' = { t with updateLoroRanges := t.updateLoroRanges.insert row h } :=
  ofConstraint_insert_eq_ok_iff

end Tables

/-! ## Transactions -/

/-- How the body of a transaction ends: with the tables it leaves, or without them. -/
inductive Ending (ω : Type)
  | commit (outcome : ω) (tables : Tables)
  | rollback (outcome : ω)

/-- Run a transaction.  What the body did is kept only when it commits; a transaction that is
dropped because of a return or an error leaves the tables as they were. -/
def transaction {ω : Type} (t : Tables) (body : Tables → Except StoreError (Ending ω)) :
    Except StoreError ω × Tables :=
  match body t with
  | .ok (.commit outcome tables) => (.ok outcome, tables)
  | .ok (.rollback outcome) => (.ok outcome, t)
  | .error e => (.error e, t)

end Renee
