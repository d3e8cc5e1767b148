import Renee.Store.Accept
import Renee.Store.Control

/-!
# Validation

What the store checks of a database before it opens it: `validate`, loop by loop and message by
message, and the foreign key check that goes before it.

Selections are ordered, so each loop runs over `orderBy` of its rows.  The ordered maps and sets the
loops accumulate are functions and lists: `ScanState.nextSequences` with the documents it has an
entry for, `ScanState.expectedPeers` in the order of their discovery.  Counts of rows that a table
holds are natural numbers, since a table never holds as many as a `usize` counts; where the source
compares a count with a limit, the comparison is made.
-/

set_option autoImplicit false

namespace Renee

open ByteString Relational Guard

/-! ## Creation -/

/-- Walk over the create receipts, counting the documents of each authority. -/
def validateCreateReceiptsFrom (t : Tables) :
    List CreateReceiptRow → (CreateAuthorityId → ℕ) → Except StoreError Unit
  | [], _ => .ok ()
  | row :: rows, counts =>
    if row.normalizedInput.length ≠ 96 then
      .error (.corrupt "create receipt input has invalid length")
    else match (t.capability? row.documentId row.rootCapabilityId).filter CapabilityRow.root with
    | none => .error (.corrupt "create receipt root is absent")
    | some root =>
      if row.normalizedInput.take 16 ≠ row.documentId.bytes.toList ∨
          (row.normalizedInput.drop 16).take 16 ≠ row.rootCapabilityId.bytes.toList ∨
          (row.normalizedInput.drop 32).take 32 ≠ root.liveVerifier.toList ∨
          row.normalizedInput.drop 64 ≠ root.receiptVerifier.toList then
        .error (.corrupt "create receipt disagrees with its root")
      else match checkedAdd 64 (counts row.createAuthorityId) 1 with
      | none => .error (.corrupt "create authority count cannot advance")
      | some count =>
        if count > maxDocumentsPerCreateAuthority then
          .error (.corrupt "create authority document count exceeds configured limit")
        else validateCreateReceiptsFrom t rows (Function.update counts row.createAuthorityId count)

/-- `validate_create_state`. -/
def validateCreateState (t : Tables) : Except StoreError Unit := do
  reject (t.documents.rows.length ≠ t.createReceipts.rows.length)
    (.corrupt "documents and retained create receipts disagree")
  reject (t.documents.rows.length > maxGlobalDocuments ∨
      t.createReceipts.rows.length > maxGlobalCreateReceipts)
    (.corrupt "global creation state exceeds configured limits")
  validateCreateReceiptsFrom t
    (orderBy (fun row ↦ toLex (row.createAuthorityId, row.requestId)) t.createReceipts.rows)
    fun _ ↦ 0

/-! ## Capabilities -/

/-- A capability together with its operations. -/
structure ValidatedCapability where
  row : CapabilityRow
  operations : OperationSet
deriving DecidableEq

/-- The capabilities of a document in the order of their identifiers. -/
def documentCapabilities (t : Tables) (d : DocumentId) : List ValidatedCapability :=
  (orderBy CapabilityRow.capabilityId
    (t.capabilities.rows.filter fun row ↦ row.documentId = d)).map
      fun row ↦ ⟨row, loadOperationSet t d row.capabilityId⟩

/-- `load_capabilities`. -/
def loadCapabilities (t : Tables) (d : DocumentId) :
    Except StoreError (List ValidatedCapability) := do
  forM (documentCapabilities t d) fun capability ↦
    reject (capability.operations.isEmpty = true) (.corrupt "capability operation set is empty")
  pure (documentCapabilities t d)

/-- Look a capability up among those of its document. -/
def findCapability (capabilities : List ValidatedCapability) (c : CapabilityId) :
    Option ValidatedCapability :=
  capabilities.find? fun capability ↦ capability.row.capabilityId = c

/-- Walk over the capabilities, counting the children of each. -/
def validateFanOut : List ValidatedCapability → (CapabilityId → ℕ) → Except StoreError Unit
  | [], _ => .ok ()
  | capability :: capabilities, counts =>
    match capability.row.parentCapabilityId with
    | none => validateFanOut capabilities counts
    | some parent =>
      match checkedAdd 64 (counts parent) 1 with
      | none => .error (.corrupt "capability fan-out cannot advance")
      | some count =>
        if count > maxDirectCapabilityChildren then
          .error (.corrupt "capability fan-out exceeds the configured limit")
        else validateFanOut capabilities (Function.update counts parent count)

/-- Walk up from a capability, `steps` nodes from the end of the bound. -/
def validateAncestryFrom (root : CapabilityId) (capabilities : List ValidatedCapability) :
    ℕ → List CapabilityId → ValidatedCapability → Except StoreError Unit
  | 0, _, _ => .error (.corrupt "capability ancestry exceeds the depth limit")
  | steps + 1, seen, current =>
    if current.row.capabilityId ∈ seen then
      .error (.corrupt "capability ancestry contains a cycle")
    else match current.row.parentCapabilityId with
    | none =>
      if current.row.root = false ∨ current.row.capabilityId ≠ root then
        .error (.corrupt "capability ancestry reaches a non-root")
      else .ok ()
    | some parentId =>
      if current.row.root then .error (.corrupt "root capability has a parent")
      else match findCapability capabilities parentId with
      | none => .error (.corrupt "capability parent is absent")
      | some parent =>
        if parent.row.createdRevision.get ≥ current.row.createdRevision.get then
          .error (.corrupt "capability revisions do not follow ancestry")
        else if !parent.operations.allows current.operations then
          .error (.corrupt "descendant capability is not attenuated")
        else if parent.row.revoked && !current.row.revoked then
          .error (.corrupt "revoked capability has an active descendant")
        else validateAncestryFrom root capabilities steps (current.row.capabilityId :: seen) parent

/-- `validate_capability_ancestry`. -/
def validateCapabilityAncestry (capability : ValidatedCapability) (root : CapabilityId)
    (controlRevision : ControlRevision) (capabilities : List ValidatedCapability) :
    Except StoreError Unit := do
  reject (capability.row.createdRevision.get > controlRevision.get)
    (.corrupt "capability creation revision is invalid")
  validateAncestryFrom root capabilities maxCapabilityDepth [] capability

/-! ## Receipts -/

/-- `decode_identifier`. -/
def decodeIdentifier {kind : IdentifierKind} (encoded : List UInt8) :
    Except StoreError (Identifier kind) :=
  if h : encoded.length = identifierLength then .ok ⟨⟨encoded, h⟩⟩
  else .error (.corrupt "stored identifier has invalid length")

/-- Check one grant receipt against the capability it created. -/
def validateGrantReceipt (row : ControlReceiptRow) (capabilities : List ValidatedCapability) :
    Except StoreError Unit := do
  reject (row.normalizedInput.length ≠ 82) (.corrupt "grant receipt input has invalid length")
  let descendantId ← decodeIdentifier (row.normalizedInput.take 16)
  match findCapability capabilities descendantId with
  | none => .error (.corrupt "grant receipt descendant is absent")
  | some descendant => do
    reject (descendant.row.parentCapabilityId ≠ some row.issuerCapabilityId ∨
        (row.normalizedInput.drop 16).take 32 ≠ descendant.row.liveVerifier.toList ∨
        (row.normalizedInput.drop 48).take 32 ≠ descendant.row.receiptVerifier.toList)
      (.corrupt "grant receipt disagrees with descendant")
    match (OperationSet.fromBits (BitVec.ofNat 16 (ofBe (row.normalizedInput.drop 80)))).filter
        fun operations ↦ !operations.isEmpty with
    | none => .error (.corrupt "grant receipt operation set is invalid")
    | some operations =>
      reject (operations ≠ descendant.operations) (.corrupt "grant receipt operations disagree")

/-- Check one revoke receipt against the capability it revoked. -/
def validateRevokeReceipt (row : ControlReceiptRow) (capabilities : List ValidatedCapability) :
    Except StoreError Unit := do
  reject (row.normalizedInput.length ≠ 16) (.corrupt "revoke receipt input has invalid length")
  let targetId ← decodeIdentifier row.normalizedInput
  match findCapability capabilities targetId with
  | none => .error (.corrupt "revoke receipt target is absent")
  | some target =>
    reject (target.row.revoked = false) (.corrupt "revoke receipt target remains active")

/-- Check one receipt. -/
def validateControlReceipt (capabilities : List ValidatedCapability) (row : ControlReceiptRow) :
    Except StoreError Unit := do
  reject ((findCapability capabilities row.issuerCapabilityId).isNone = true)
    (.corrupt "control receipt issuer is absent")
  match row.operation with
  | .grant => validateGrantReceipt row capabilities
  | .revoke => validateRevokeReceipt row capabilities

/-- `validate_control_receipts`. -/
def validateControlReceipts (t : Tables) (d : DocumentId)
    (capabilities : List ValidatedCapability) : Except StoreError ℕ := do
  let rows := orderBy (fun row ↦ toLex (row.issuerCapabilityId, row.requestId))
    (t.controlReceipts.rows.filter fun row ↦ row.documentId = d)
  forM rows (validateControlReceipt capabilities)
  pure rows.length

/-! ## Documents -/

/-- Check the control state of one document. -/
def validateDocument (t : Tables) (document : DocumentRow) : Except StoreError Unit := do
  let d := document.documentId
  let capabilities ← loadCapabilities t d
  reject (capabilities.length > maxCapabilitiesPerDocument)
    (.corrupt "document capability count exceeds the configured limit")
  validateFanOut capabilities fun _ ↦ 0
  match findCapability capabilities document.rootCapabilityId with
  | none => .error (.corrupt "document root capability is absent")
  | some root => do
    reject (capabilities.countP (fun capability ↦ capability.row.root) ≠ 1 ∨
        root.row.root = false ∨ root.row.parentCapabilityId.isSome = true)
      (.corrupt "document root capability is not unique")
    reject (root.row.createdRevision.get ≠ 1 ∨ root.operations ≠ .full)
      (.corrupt "root capability is not canonical")
    reject (document.controlRevision.get < root.row.createdRevision.get)
      (.corrupt "document control revision precedes its root")
    forM capabilities fun capability ↦
      validateCapabilityAncestry capability document.rootCapabilityId document.controlRevision
        capabilities
    let receiptCount ← validateControlReceipts t d capabilities
    reject (receiptCount > maxControlReceiptsPerDocument)
      (.corrupt "document receipt count exceeds the configured limit")
    reject (document.controlRevision.get ≠ receiptCount + 1)
      (.corrupt "document control revision disagrees with retained receipts")
    reject (documentControlBytes t d > maxDocumentControlBytes)
      (.corrupt "document control state exceeds the configured logical-byte limit")

/-- `validate_capability_state`. -/
def validateCapabilityState (t : Tables) : Except StoreError Unit := do
  forM (orderBy DocumentRow.documentId t.documents.rows) (validateDocument t)
  reject (t.capabilities.rows.length > maxGlobalCapabilities ∨
      t.controlReceipts.rows.length > maxGlobalControlReceipts)
    (.corrupt "global capability state exceeds configured limits")
  reject (globalControlBytes t > maxGlobalControlBytes)
    (.corrupt "global control state exceeds the configured logical-byte limit")

/-! ## Updates -/

/-- What the scan over the updates accumulates. -/
structure ScanState where
  /-- The position expected next, of every document met so far. -/
  nextSequences : DocumentId → Option AcceptanceSequence
  /-- The documents met so far. -/
  documents : List DocumentId
  /-- How many peers each document has. -/
  expectedPeerCounts : DocumentId → ℕ
  /-- The peers of every document. -/
  expectedPeers : List (DocumentId × U64)
  /-- How many ranges there are. -/
  expectedRangeCount : ℕ

def ScanState.initial : ScanState := ⟨fun _ ↦ none, [], fun _ ↦ 0, [], 0⟩

/-- Compare the ranges of an update with its rows in the index, and collect its peers. -/
def validateRanges (d : DocumentId) :
    List LoroRange → List UpdateLoroRangeRow → ScanState → Except StoreError ScanState
  | [], [], s => .ok s
  | [], _ :: _, _ | _ :: _, [], _ =>
    .error (.corrupt "stored Loro range index disagrees with update records")
  | expected :: ranges, row :: rows, s =>
    if (row.peerId, row.startCounter, row.endCounter) ≠
        (expected.peerId, expected.startCounter, expected.endCounter) then
      .error (.corrupt "stored Loro range index disagrees with update records")
    else
      let s := { s with expectedRangeCount := s.expectedRangeCount + 1 }
      if (d, expected.peerId) ∈ s.expectedPeers then validateRanges d ranges rows s
      else
        let count := s.expectedPeerCounts d + 1
        if count > maxLoroPeers then
          .error (.corrupt "stored document Loro peer union exceeds the configured limit")
        else validateRanges d ranges rows { s with
          expectedPeers := s.expectedPeers ++ [(d, expected.peerId)]
          expectedPeerCounts := Function.update s.expectedPeerCounts d count }

/-- Check one update: its position, its record, its ranges. -/
def validateUpdate (t : Tables) (s : ScanState) (row : UpdateRow) :
    Except StoreError ScanState :=
  let d := row.documentId
  let expected := (s.nextSequences d).getD .first
  if row.acceptanceSequence ≠ expected then
    .error (.corrupt "stored acceptance positions are not contiguous")
  else match row.acceptanceSequence.checkedNext with
  | none => .error (.corrupt "stored acceptance sequence cannot advance")
  | some next =>
    match decodeUpdateRecord row.encodedRecord with
    | .error _ => .error (.corrupt "stored update record is invalid")
    | .ok update =>
      if update.documentId ≠ d ∨ update.updateId ≠ row.updateId then
        .error (.corrupt "stored update identity disagrees with index")
      else
        validateRanges d update.publicLoroRanges.ranges
          (orderBy UpdateLoroRangeRow.peerId (t.updateLoroRanges.rows.filter fun range ↦
            range.documentId = d ∧ range.updateId = row.updateId))
          { s with
            nextSequences := Function.update s.nextSequences d (some next)
            documents := if (s.nextSequences d).isSome then s.documents else s.documents ++ [d] }

/-- Check that a document's next position follows its updates. -/
def validateNextSequence (t : Tables) (s : ScanState) (d : DocumentId) : Except StoreError Unit :=
  match t.documentAcceptanceSequences.find? d with
  | none => .error .sqlite
  | some row =>
    reject (some row.nextSequence ≠ s.nextSequences d)
      (.corrupt "document acceptance counter does not exactly follow stored rows")

/-- `validate`. -/
def validate (t : Tables) : Except StoreError Unit := do
  validateCreateState t
  validateCapabilityState t
  let s ← (orderBy (fun row ↦ toLex (row.documentId, row.acceptanceSequence))
    t.updates.rows).foldlM (validateUpdate t) .initial
  reject (t.updateLoroRanges.rows.length ≠ s.expectedRangeCount)
    (.corrupt "stored Loro range index disagrees with update records")
  reject ((orderBy (fun row ↦ toLex (row.documentId, row.peerId)) t.documentLoroPeers.rows).map
      (fun row ↦ (row.documentId, row.peerId)) ≠ orderBy toLex s.expectedPeers)
    (.corrupt "stored document Loro peer union disagrees with update records")
  forM s.documents (validateNextSequence t s)

/-! ## Opening -/

/-- Every reference between the tables is good. -/
def foreignKeysHold (t : Tables) : Bool :=
  (t.capabilities.rows.all fun row ↦ (t.document? row.documentId).isSome &&
    row.parentCapabilityId.all fun p ↦ (t.capability? row.documentId p).isSome) &&
  (t.capabilityOperations.rows.all fun row ↦
    (t.capability? row.documentId row.capabilityId).isSome) &&
  (t.controlReceipts.rows.all fun row ↦
    (t.capability? row.documentId row.issuerCapabilityId).isSome) &&
  (t.createReceipts.rows.all fun row ↦ (t.document? row.documentId).isSome &&
    (t.createAuthorities.find? row.createAuthorityId).isSome) &&
  (t.documentAcceptanceSequences.rows.all fun row ↦ (t.document? row.documentId).isSome) &&
  (t.updates.rows.all fun row ↦
    (t.documentAcceptanceSequences.find? row.documentId).isSome) &&
  (t.updateLoroRanges.rows.all fun row ↦
    (t.updates.find? (row.documentId, row.updateId)).isSome) &&
  t.documentLoroPeers.rows.all fun row ↦ (t.document? row.documentId).isSome

/-- Operator-provisioned deployment creation verifier material. -/
structure CreateAuthorityProvision where
  createAuthorityId : CreateAuthorityId
  liveVerifier : Bytes verifierLength
  receiptVerifier : Bytes verifierLength
deriving DecidableEq

/-- `provision_create_authority`. -/
def provisionCreateAuthority (t : Tables) (provision : CreateAuthorityProvision) :
    Except StoreError Tables :=
  match t.createAuthorities.find? provision.createAuthorityId with
  | some existing =>
    if existing.liveVerifier ≠ provision.liveVerifier ∨
        existing.receiptVerifier ≠ provision.receiptVerifier then
      .error (.corrupt "configured create authority disagrees with durable provisioning")
    else .ok t
  | none => t.insertCreateAuthority
      ⟨provision.createAuthorityId, provision.liveVerifier, provision.receiptVerifier, false⟩

/-- Open a database: check it, then provision the create authority. -/
def openTables (t : Tables) (provision : CreateAuthorityProvision) : Except StoreError Tables := do
  reject (foreignKeysHold t = false) (.corrupt "SQLite foreign key check failed")
  validate t
  provisionCreateAuthority t provision

end Renee
