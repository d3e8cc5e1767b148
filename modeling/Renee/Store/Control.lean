import Renee.Store.Authorization

/-!
# The control operations

`create_document`, `grant_capability` and `revoke_capability` as transactions on the tables.

Each of them is written in the order of the source: receipts first, then live authority, then the
checks that can refuse the request, then the writes.  The rows a command writes are definitions of
their own, `CreateCommand.rootRow` and its siblings, because receipts and validation compare them
later.
-/

set_option autoImplicit false

namespace Renee

open ByteString Relational Ancestry

/-! ## Commands and outcomes -/

/-- Durable root-document creation result. -/
inductive StoreCreateOutcome
  | inserted
  | alreadyPresent
  | authorizationDenied
  | identifierConflict
  | requestConflict
  | limitExceeded
deriving DecidableEq

/-- Durable grant or revoke result. -/
inductive StoreControlOutcome
  | inserted
  | alreadyPresent
  | authorizationDenied
  | identifierConflict
  | requestConflict
  | counterExhausted
  | limitExceeded
deriving DecidableEq

/-- The arguments of `create_document`. -/
@[ext] structure CreateCommand where
  createAuthorityId : CreateAuthorityId
  createAuthenticator : Authenticator
  requestId : RequestId
  documentId : DocumentId
  rootCapabilityId : CapabilityId
  rootAuthenticator : Authenticator
deriving DecidableEq

/-- The arguments of `grant_capability`. -/
@[ext] structure GrantCommand where
  documentId : DocumentId
  issuerCapabilityId : CapabilityId
  issuerAuthenticator : Authenticator
  requestId : RequestId
  descendantCapabilityId : CapabilityId
  descendantAuthenticator : Authenticator
  operations : OperationSet
deriving DecidableEq

/-- The arguments of `revoke_capability`. -/
@[ext] structure RevokeCommand where
  documentId : DocumentId
  issuerCapabilityId : CapabilityId
  issuerAuthenticator : Authenticator
  requestId : RequestId
  targetCapabilityId : CapabilityId
deriving DecidableEq

/-! ## Normalized input -/

/-- The input a create receipt binds. -/
def createInput (d : DocumentId) (root : CapabilityId) (verifiers : VerifierPair) : List UInt8 :=
  d.bytes.toList ++ (root.bytes.toList ++ (verifiers.live.toList ++ verifiers.receipt.toList))

/-- The input a grant receipt binds. -/
def grantInput (descendant : CapabilityId) (verifiers : VerifierPair) (operations : OperationSet) :
    List UInt8 :=
  descendant.bytes.toList ++ (verifiers.live.toList ++ (verifiers.receipt.toList ++
    toBe 2 operations.bits.toNat))

/-- The input a revoke receipt binds. -/
def revokeInput (target : CapabilityId) : List UInt8 := target.bytes.toList

theorem length_createInput (d : DocumentId) (root : CapabilityId) (verifiers : VerifierPair) :
    (createInput d root verifiers).length = 96 := by
  simp [createInput, Bytes.length_eq, identifierLength, verifierLength]

theorem length_grantInput (descendant : CapabilityId) (verifiers : VerifierPair)
    (operations : OperationSet) : (grantInput descendant verifiers operations).length = 82 := by
  simp [grantInput, Bytes.length_eq, identifierLength, verifierLength]

theorem length_revokeInput (target : CapabilityId) : (revokeInput target).length = 16 :=
  target.bytes.length_eq

theorem createInput_ne_nil (d : DocumentId) (root : CapabilityId) (verifiers : VerifierPair) :
    createInput d root verifiers ≠ [] :=
  List.ne_nil_of_length_pos (by rw [length_createInput]; decide)

theorem grantInput_ne_nil (descendant : CapabilityId) (verifiers : VerifierPair)
    (operations : OperationSet) : grantInput descendant verifiers operations ≠ [] :=
  List.ne_nil_of_length_pos (by rw [length_grantInput]; decide)

theorem revokeInput_ne_nil (target : CapabilityId) : revokeInput target ≠ [] :=
  List.ne_nil_of_length_pos (by rw [length_revokeInput]; decide)

/-- **A grant receipt binds every argument.** -/
theorem grantInput_injective {c c' : CapabilityId} {v v' : VerifierPair} {s s' : OperationSet}
    (h : grantInput c v s = grantInput c' v' s') : c = c' ∧ v = v' ∧ s = s' := by
  obtain ⟨hc, h₁⟩ := List.append_inj h (by rw [c.bytes.length_eq, c'.bytes.length_eq])
  obtain ⟨hl, h₂⟩ := List.append_inj h₁ (by rw [v.live.length_eq, v'.live.length_eq])
  obtain ⟨hr, hs⟩ := List.append_inj h₂ (by rw [v.receipt.length_eq, v'.receipt.length_eq])
  have hbits := congrArg ofBe hs
  rw [ofBe_toBe s.bits.isLt, ofBe_toBe s'.bits.isLt] at hbits
  exact ⟨Identifier.ext (Bytes.ext hc), VerifierPair.ext (Bytes.ext hl) (Bytes.ext hr),
    OperationSet.ext (BitVec.eq_of_toNat_eq hbits)⟩

theorem createInput_injective {d d' : DocumentId} {c c' : CapabilityId} {v v' : VerifierPair}
    (h : createInput d c v = createInput d' c' v') : d = d' ∧ c = c' ∧ v = v' := by
  obtain ⟨hd, h₁⟩ := List.append_inj h (by rw [d.bytes.length_eq, d'.bytes.length_eq])
  obtain ⟨hc, h₂⟩ := List.append_inj h₁ (by rw [c.bytes.length_eq, c'.bytes.length_eq])
  obtain ⟨hl, hr⟩ := List.append_inj h₂ (by rw [v.live.length_eq, v'.live.length_eq])
  exact ⟨Identifier.ext (Bytes.ext hd), Identifier.ext (Bytes.ext hc),
    VerifierPair.ext (Bytes.ext hl) (Bytes.ext hr)⟩

theorem revokeInput_injective {c c' : CapabilityId} (h : revokeInput c = revokeInput c') : c = c' :=
  Identifier.ext (Bytes.ext h)

/-! ## Limits -/

/-- The documents an authority has created. -/
def authorityDocumentCount (t : Tables) (i : CreateAuthorityId) : ℕ :=
  t.createReceipts.rows.countP fun row ↦ row.createAuthorityId = i

/-- The capabilities of a document. -/
def capabilityCount (t : Tables) (d : DocumentId) : ℕ :=
  t.capabilities.rows.countP fun row ↦ row.documentId = d

/-- The direct children of a capability. -/
def childCount (t : Tables) (d : DocumentId) (parent : CapabilityId) : ℕ :=
  t.capabilities.rows.countP fun row ↦ row.documentId = d ∧ row.parentCapabilityId = some parent

/-- The control receipts of a document. -/
def receiptCount (t : Tables) (d : DocumentId) : ℕ :=
  t.controlReceipts.rows.countP fun row ↦ row.documentId = d

/-- `create_limits_exceeded`. -/
def createLimitsExceeded (t : Tables) (createAuthorityId : CreateAuthorityId) : Bool :=
  decide (authorityDocumentCount t createAuthorityId ≥ maxDocumentsPerCreateAuthority) ||
    decide (t.documents.rows.length ≥ maxGlobalDocuments) ||
    decide (t.createReceipts.rows.length ≥ maxGlobalCreateReceipts) ||
    decide (t.capabilities.rows.length ≥ maxGlobalCapabilities)

/-- The logical bytes of a capability. -/
def CapabilityRow.logicalBytes (row : CapabilityRow) : ℕ :=
  identifierLength + (if row.parentCapabilityId.isSome then identifierLength else 0) +
    verifierLength + verifierLength + 8 + 2

/-- The logical bytes of one operation of a capability. -/
def CapabilityOperationRow.logicalBytes (_ : CapabilityOperationRow) : ℕ :=
  identifierLength + identifierLength + 1

/-- The logical bytes of a receipt. -/
def ControlReceiptRow.logicalBytes (row : ControlReceiptRow) : ℕ :=
  identifierLength + identifierLength + row.normalizedInput.length + 1

/-- `DOCUMENT_CONTROL_LOGICAL_BYTES_QUERY`. -/
def documentControlBytes (t : Tables) (d : DocumentId) : ℕ :=
  ((t.capabilities.rows.filter fun row ↦ row.documentId = d).map CapabilityRow.logicalBytes).sum +
  ((t.capabilityOperations.rows.filter fun row ↦ row.documentId = d).map
    CapabilityOperationRow.logicalBytes).sum +
  ((t.controlReceipts.rows.filter fun row ↦ row.documentId = d).map
    ControlReceiptRow.logicalBytes).sum

/-- `GLOBAL_CONTROL_LOGICAL_BYTES_QUERY`. -/
def globalControlBytes (t : Tables) : ℕ :=
  (t.capabilities.rows.map CapabilityRow.logicalBytes).sum +
  (t.capabilityOperations.rows.map CapabilityOperationRow.logicalBytes).sum +
  (t.controlReceipts.rows.map ControlReceiptRow.logicalBytes).sum

/-- What a control operation adds to the logical bytes. -/
def additionalControlBytes (addsCapability : Bool) (operationCount normalizedInputLength : ℕ) : ℕ :=
  let capabilityBytes :=
    if addsCapability then
      identifierLength * 2 + verifierLength * 2 + 8 + 2 +
        operationCount * (identifierLength * 2 + 1)
    else 0
  capabilityBytes + (identifierLength * 2 + 1) + normalizedInputLength

/-- `control_limits_exceeded`. -/
def controlLimitsExceeded (t : Tables) (d : DocumentId) (parent : Option CapabilityId)
    (addsCapability : Bool) (operationCount normalizedInputLength : ℕ) : Bool :=
  if parent.any fun parent ↦ decide (childCount t d parent ≥ maxDirectCapabilityChildren) then true
  else if (addsCapability = true ∧ (capabilityCount t d ≥ maxCapabilitiesPerDocument ∨
        t.capabilities.rows.length ≥ maxGlobalCapabilities)) ∨
      receiptCount t d ≥ maxControlReceiptsPerDocument ∨
      t.controlReceipts.rows.length ≥ maxGlobalControlReceipts then true
  else
    let additionalBytes :=
      additionalControlBytes addsCapability operationCount normalizedInputLength
    decide (documentControlBytes t d + additionalBytes > maxDocumentControlBytes) ||
      decide (globalControlBytes t + additionalBytes > maxGlobalControlBytes)

/-- What a control operation that is within its limits may rely on. -/
theorem controlLimitsExceeded_eq_false {t : Tables} {d : DocumentId} {parent : Option CapabilityId}
    {addsCapability : Bool} {operationCount normalizedInputLength : ℕ}
    (h : controlLimitsExceeded t d parent addsCapability operationCount normalizedInputLength =
      false) :
    (∀ p ∈ parent, childCount t d p < maxDirectCapabilityChildren) ∧
      (addsCapability = true → capabilityCount t d < maxCapabilitiesPerDocument ∧
        t.capabilities.rows.length < maxGlobalCapabilities) ∧
      receiptCount t d < maxControlReceiptsPerDocument ∧
      t.controlReceipts.rows.length < maxGlobalControlReceipts := by
  rw [controlLimitsExceeded] at h
  split at h
  · exact absurd h (by simp)
  rename_i hparent
  split at h
  · exact absurd h (by simp)
  rename_i hcounts
  refine ⟨fun p hp ↦ ?_, fun ha ↦ ?_, by omega, by omega⟩
  · obtain rfl := Option.mem_def.mp hp
    simpa using hparent
  · simp only [ha, true_and] at hcounts
    omega

/-! ## Revisions and receipts -/

/-- The following revision, if there is one. -/
def ControlRevision.checkedNext (revision : ControlRevision) : Option ControlRevision :=
  if h : revision.get + 1 < 2 ^ 64 then some ⟨revision.get + 1, Nat.succ_pos _, h⟩ else none

theorem ControlRevision.checkedNext_eq_some_iff {revision next : ControlRevision} :
    revision.checkedNext = some next ↔ next.get = revision.get + 1 := by
  rw [checkedNext]
  constructor
  · intro h
    split at h
    · rw [Option.some_inj] at h; rw [← h]
    · exact absurd h (by simp)
  · intro h
    rw [dif_pos (h ▸ next.isLt), Option.some_inj]
    exact ControlRevision.ext h.symm

/-- The revision after the current one, of a document that is active. -/
def nextControlRevision (t : Tables) (d : DocumentId) : Option ControlRevision :=
  match t.document? d with
  | none => none
  | some document => if document.retired then none else document.controlRevision.checkedNext

theorem nextControlRevision_eq_some_iff {t : Tables} {d : DocumentId} {revision : ControlRevision} :
    nextControlRevision t d = some revision ↔ ∃ document, t.document? d = some document ∧
      document.retired = false ∧ revision.get = document.controlRevision.get + 1 := by
  rw [nextControlRevision]
  cases t.document? d with
  | none => simp
  | some document =>
    cases hr : document.retired <;> simp [hr, ControlRevision.checkedNext_eq_some_iff]

/-- The row of a document, at a new revision. -/
def DocumentRow.setRevision (d : DocumentId) (revision : ControlRevision) (row : DocumentRow) :
    DocumentRow :=
  if row.documentId = d then { row with controlRevision := revision } else row

theorem DocumentRow.key_setRevision (d : DocumentId) (revision : ControlRevision)
    (row : DocumentRow) : Keyed.key (row.setRevision d revision) = Keyed.key row := by
  rw [setRevision]
  split <;> rfl

/-- Write the revision of an active document. -/
def setControlRevision (t : Tables) (d : DocumentId) (revision : ControlRevision) :
    Except StoreError Tables :=
  match t.document? d with
  | none => .error (.corrupt "active document revision update affected wrong row count")
  | some document =>
    if document.retired then
      .error (.corrupt "active document revision update affected wrong row count")
    else .ok { t with
      documents := t.documents.update (DocumentRow.setRevision d revision)
        (DocumentRow.key_setRevision d revision) }

/-- Insert the operations of a capability, one row each. -/
def insertOperations (t : Tables) (d : DocumentId) (c : CapabilityId) (operations : OperationSet) :
    Except StoreError Tables :=
  (Operation.all.filter operations.contains).foldlM
    (fun tx operation ↦ tx.insertCapabilityOperation ⟨d, c, operation⟩) t

/-- The rows of a capability and everything below it: the recursive query of a revocation.  A forest
has no chain longer than its table, so that many levels are all of them. -/
def subtree (t : Tables) (d : DocumentId) (target : CapabilityId) : List CapabilityId :=
  below (fun c ↦ (t.capabilities.rows.filter fun row ↦
      row.documentId = d ∧ row.parentCapabilityId = some c).map CapabilityRow.capabilityId)
    t.capabilities.rows.length [target]

/-- The row of a capability, revoked if it is among those named. -/
def CapabilityRow.revokeIn (d : DocumentId) (ids : List CapabilityId) (row : CapabilityRow) :
    CapabilityRow :=
  if row.documentId = d ∧ row.capabilityId ∈ ids then { row with revoked := true } else row

theorem CapabilityRow.key_revokeIn (d : DocumentId) (ids : List CapabilityId)
    (row : CapabilityRow) : Keyed.key (row.revokeIn d ids) = Keyed.key row := by
  rw [revokeIn]
  split <;> rfl

/-- Revoke a capability and everything below it. -/
def revokeSubtree (t : Tables) (d : DocumentId) (target : CapabilityId) : Tables :=
  { t with
    capabilities := t.capabilities.update (CapabilityRow.revokeIn d (subtree t d target))
      (CapabilityRow.key_revokeIn d (subtree t d target)) }

section Hash

variable (sha256 : List UInt8 → Bytes verifierLength)

/-- What a named request that is already durable answers. -/
def resolveControlReceipt (t : Tables) (d : DocumentId) (issuer : CapabilityId) (a : Authenticator)
    (requestId : RequestId) (operation : ControlOperation) (normalizedInput : List UInt8) :
    Option StoreControlOutcome :=
  match t.controlReceipts.find? (d, issuer, requestId) with
  | none => none
  | some receipt =>
    match t.capability? d issuer with
    | none => some .authorizationDenied
    | some row =>
      if ¬verifyReceipt sha256 row.receiptVerifier d issuer a = true then some .authorizationDenied
      else if receipt.operation = operation ∧ receipt.normalizedInput = normalizedInput then
        some .alreadyPresent
      else some .requestConflict

/-! ## The rows that are written -/

def CreateCommand.documentRow (r : CreateCommand) : DocumentRow :=
  ⟨r.documentId, false, .initial, r.rootCapabilityId⟩

def CreateCommand.verifiers (r : CreateCommand) : VerifierPair :=
  derive sha256 r.documentId r.rootCapabilityId r.rootAuthenticator

def CreateCommand.input (r : CreateCommand) : List UInt8 :=
  createInput r.documentId r.rootCapabilityId (r.verifiers sha256)

def CreateCommand.rootRow (r : CreateCommand) : CapabilityRow :=
  ⟨r.documentId, r.rootCapabilityId, none, true, (r.verifiers sha256).live,
    (r.verifiers sha256).receipt, false, .initial, by simp⟩

def CreateCommand.receiptRow (r : CreateCommand) : CreateReceiptRow :=
  ⟨r.createAuthorityId, r.requestId, r.documentId, r.rootCapabilityId, r.input sha256,
    createInput_ne_nil _ _ _⟩

def GrantCommand.verifiers (r : GrantCommand) : VerifierPair :=
  derive sha256 r.documentId r.descendantCapabilityId r.descendantAuthenticator

def GrantCommand.input (r : GrantCommand) : List UInt8 :=
  grantInput r.descendantCapabilityId (r.verifiers sha256) r.operations

def GrantCommand.descendantRow (r : GrantCommand) (revision : ControlRevision) : CapabilityRow :=
  ⟨r.documentId, r.descendantCapabilityId, some r.issuerCapabilityId, false,
    (r.verifiers sha256).live, (r.verifiers sha256).receipt, false, revision, by simp⟩

def GrantCommand.receiptRow (r : GrantCommand) : ControlReceiptRow :=
  ⟨r.documentId, r.issuerCapabilityId, r.requestId, .grant, r.input sha256,
    grantInput_ne_nil _ _ _⟩

def RevokeCommand.input (r : RevokeCommand) : List UInt8 := revokeInput r.targetCapabilityId

def RevokeCommand.receiptRow (r : RevokeCommand) : ControlReceiptRow :=
  ⟨r.documentId, r.issuerCapabilityId, r.requestId, .revoke, r.input, revokeInput_ne_nil _⟩

/-! ## The operations -/

/-- Whether a secret retrieves the receipt of the root capability of a document. -/
def verifyRootReceipt (t : Tables) (d : DocumentId) (root : CapabilityId) (a : Authenticator) :
    Bool :=
  match t.capability? d root with
  | some row => row.root && verifyReceipt sha256 row.receiptVerifier d root a
  | none => false

/-- `create_document_internal`. -/
def createDocumentIn (r : CreateCommand) (tx : Tables) :
    Except StoreError (Ending StoreCreateOutcome) :=
  match tx.createAuthorities.find? r.createAuthorityId with
  | none => .ok (.rollback .authorizationDenied)
  | some authority =>
    let liveAuthorized := !authority.disabled &&
      verifyCreateLive sha256 authority.liveVerifier r.createAuthorityId r.createAuthenticator
    let receiptAuthorized :=
      verifyCreateReceipt sha256 authority.receiptVerifier r.createAuthorityId
        r.createAuthenticator
    if !liveAuthorized && !receiptAuthorized then .ok (.rollback .authorizationDenied)
    else match tx.createReceipts.find? (r.createAuthorityId, r.requestId) with
    | some receipt =>
      if !receiptAuthorized then .ok (.rollback .authorizationDenied)
      else
        let rootAuthorized := verifyRootReceipt sha256 tx receipt.documentId
          receipt.rootCapabilityId r.rootAuthenticator
        if !rootAuthorized then .ok (.rollback .authorizationDenied)
        else if receipt.normalizedInput = r.input sha256 then .ok (.rollback .alreadyPresent)
        else .ok (.rollback .requestConflict)
    | none =>
      if !liveAuthorized then .ok (.rollback .authorizationDenied)
      else match tx.document? r.documentId with
      | some document =>
        let rootAuthorized := verifyRootReceipt sha256 tx r.documentId document.rootCapabilityId
          r.rootAuthenticator
        if rootAuthorized then .ok (.rollback .identifierConflict)
        else .ok (.rollback .authorizationDenied)
      | none =>
        if createLimitsExceeded tx r.createAuthorityId then .ok (.rollback .limitExceeded)
        else do
          let tx ← tx.insertDocument r.documentRow
          let tx ← tx.insertCapability (r.rootRow sha256)
          let tx ← insertOperations tx r.documentId r.rootCapabilityId .full
          let tx ← tx.insertCreateReceipt (r.receiptRow sha256)
          pure (.commit .inserted tx)

/-- `grant_capability_internal`. -/
def grantCapabilityIn (r : GrantCommand) (tx : Tables) :
    Except StoreError (Ending StoreControlOutcome) :=
  if r.operations.isEmpty then .ok (.rollback .authorizationDenied)
  else match resolveControlReceipt sha256 tx r.documentId r.issuerCapabilityId
    r.issuerAuthenticator r.requestId .grant (r.input sha256) with
  | some outcome => .ok (.rollback outcome)
  | none =>
    if !authorize sha256 tx r.documentId r.issuerCapabilityId r.issuerAuthenticator .grant then
      .ok (.rollback .authorizationDenied)
    else match nextControlRevision tx r.documentId with
    | none => .ok (.rollback .counterExhausted)
    | some revision =>
      let issuerOperations := loadOperationSet tx r.documentId r.issuerCapabilityId
      if !issuerOperations.allows r.operations then .ok (.rollback .authorizationDenied)
      else if (tx.capability? r.documentId r.descendantCapabilityId).isSome then
        .ok (.rollback .identifierConflict)
      else if !issuerHasDescendantCapacity tx r.documentId r.issuerCapabilityId ||
          controlLimitsExceeded tx r.documentId (some r.issuerCapabilityId) true
            r.operations.countOnes (r.input sha256).length then
        .ok (.rollback .limitExceeded)
      else do
        let tx ← tx.insertCapability (r.descendantRow sha256 revision)
        let tx ← insertOperations tx r.documentId r.descendantCapabilityId r.operations
        let tx ← tx.insertControlReceipt (r.receiptRow sha256)
        let tx ← setControlRevision tx r.documentId revision
        pure (.commit .inserted tx)

/-- `revoke_capability_internal`, up to what happens in memory once it has committed. -/
def revokeCapabilityIn (r : RevokeCommand) (tx : Tables) :
    Except StoreError (Ending StoreControlOutcome) :=
  match resolveControlReceipt sha256 tx r.documentId r.issuerCapabilityId r.issuerAuthenticator
    r.requestId .revoke r.input with
  | some outcome => .ok (.rollback outcome)
  | none =>
    if !authorize sha256 tx r.documentId r.issuerCapabilityId r.issuerAuthenticator .revoke then
      .ok (.rollback .authorizationDenied)
    else match nextControlRevision tx r.documentId with
    | none => .ok (.rollback .counterExhausted)
    | some revision =>
      if !isActiveDescendant tx r.documentId r.issuerCapabilityId r.targetCapabilityId then
        .ok (.rollback .authorizationDenied)
      else if controlLimitsExceeded tx r.documentId none false 0 r.input.length then
        .ok (.rollback .limitExceeded)
      else do
        let tx := revokeSubtree tx r.documentId r.targetCapabilityId
        let tx ← tx.insertControlReceipt r.receiptRow
        let tx ← setControlRevision tx r.documentId revision
        pure (.commit .inserted tx)

def createDocument (t : Tables) (r : CreateCommand) :
    Except StoreError StoreCreateOutcome × Tables :=
  transaction t (createDocumentIn sha256 r)

def grantCapability (t : Tables) (r : GrantCommand) :
    Except StoreError StoreControlOutcome × Tables :=
  transaction t (grantCapabilityIn sha256 r)

def revokeCapability (t : Tables) (r : RevokeCommand) :
    Except StoreError StoreControlOutcome × Tables :=
  transaction t (revokeCapabilityIn sha256 r)

end Hash

/-! ## What an operator writes -/

/-- The row of a document, retired if it is the one named. -/
def DocumentRow.retireIn (d : DocumentId) (row : DocumentRow) : DocumentRow :=
  if row.documentId = d then { row with retired := true } else row

theorem DocumentRow.key_retireIn (d : DocumentId) (row : DocumentRow) :
    Keyed.key (row.retireIn d) = Keyed.key row := by
  rw [retireIn]
  split <;> rfl

/-- `UPDATE documents SET state = 1`. -/
def retireDocument (t : Tables) (d : DocumentId) : Tables :=
  { t with
    documents := t.documents.update (DocumentRow.retireIn d) (DocumentRow.key_retireIn d) }

/-- The row of a create authority, disabled if it is the one named. -/
def CreateAuthorityRow.disableIn (i : CreateAuthorityId) (row : CreateAuthorityRow) :
    CreateAuthorityRow :=
  if row.createAuthorityId = i then { row with disabled := true } else row

theorem CreateAuthorityRow.key_disableIn (i : CreateAuthorityId) (row : CreateAuthorityRow) :
    Keyed.key (row.disableIn i) = Keyed.key row := by
  rw [disableIn]
  split <;> rfl

/-- `UPDATE create_authorities SET state = 1`. -/
def disableCreateAuthority (t : Tables) (i : CreateAuthorityId) : Tables :=
  { t with
    createAuthorities := t.createAuthorities.update (CreateAuthorityRow.disableIn i)
      (CreateAuthorityRow.key_disableIn i) }

end Renee
