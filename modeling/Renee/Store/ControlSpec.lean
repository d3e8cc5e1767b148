import Renee.Store.Control

/-!
# What a control operation does

A control request changes the tables in one way only.  `Created`, `Granted` and `Revoked` are those
three ways: the checks that were passed, the rows that were added or rewritten, and that nothing
else moved.

* `createDocument_spec`, `grantCapability_spec` and `revokeCapability_spec` say that a request
  either has that effect and answers `Inserted`, or leaves the tables alone and answers something
  else.  Everything proved about reachable tables starts from them.
* `grantCapability_ok` and `revokeCapability_ok` are the converse for the two operations that other
  results must know to succeed: when every check is passed, no constraint of the schema is in the
  way.
-/

set_option autoImplicit false

namespace Renee

open ByteString Relational Ancestry Guard

/-! ## Transactions -/

theorem transaction_eq {ω : Type} {t t' : Tables} {body : Tables → Except StoreError (Ending ω)}
    {result : Except StoreError ω} (h : transaction t body = (result, t')) :
    (∃ o, result = .ok o ∧ body t = .ok (.commit o t')) ∨
      (t' = t ∧ ((∃ o, result = .ok o ∧ body t = .ok (.rollback o)) ∨
        ∃ e, result = .error e ∧ body t = .error e)) := by
  rw [transaction] at h
  cases hb : body t with
  | error e =>
    simp only [hb, Prod.mk.injEq] at h
    exact Or.inr ⟨h.2.symm, Or.inr ⟨e, h.1.symm, rfl⟩⟩
  | ok ending =>
    cases ending with
    | commit o tables =>
      simp only [hb, Prod.mk.injEq] at h
      exact Or.inl ⟨o, h.1.symm, by rw [h.2]⟩
    | rollback o =>
      simp only [hb, Prod.mk.injEq] at h
      exact Or.inr ⟨h.2.symm, Or.inl ⟨o, h.1.symm, rfl⟩⟩

theorem transaction_rollback {ω : Type} {t : Tables}
    {body : Tables → Except StoreError (Ending ω)} {o : ω} (h : body t = .ok (.rollback o)) :
    transaction t body = (.ok o, t) := by
  rw [transaction, h]

/-! ## Writing operations -/

/-- The rows of an operation set. -/
def operationRows (d : DocumentId) (c : CapabilityId) (operations : OperationSet) :
    List CapabilityOperationRow :=
  (Operation.all.filter operations.contains).map fun operation ↦ ⟨d, c, operation⟩

theorem mem_operationRows {d : DocumentId} {c : CapabilityId} {operations : OperationSet}
    {row : CapabilityOperationRow} :
    row ∈ operationRows d c operations ↔
      row.documentId = d ∧ row.capabilityId = c ∧ operations.contains row.operation = true := by
  simp only [operationRows, List.mem_map, List.mem_filter]
  constructor
  · rintro ⟨operation, ⟨-, hc⟩, rfl⟩
    exact ⟨rfl, rfl, hc⟩
  · rintro ⟨rfl, rfl, hc⟩
    exact ⟨row.operation, ⟨row.operation.mem_all, hc⟩, rfl⟩

theorem length_operationRows (d : DocumentId) (c : CapabilityId) (operations : OperationSet) :
    (operationRows d c operations).length = operations.countOnes := by
  rw [operationRows, List.length_map, OperationSet.countOnes_eq, List.countP_eq_length_filter]

section Operations

variable {t t' : Tables} {d : DocumentId} {c : CapabilityId}

/-- Only the operations table changes, and it grows by the rows of the set. -/
theorem insertOperations_eq_ok {operations : OperationSet}
    (h : insertOperations t d c operations = .ok t') :
    ∃ table, table.rows = t.capabilityOperations.rows ++ operationRows d c operations ∧
      t' = { t with capabilityOperations := table } := by
  rw [insertOperations] at h
  rw [operationRows]
  generalize Operation.all.filter operations.contains = l at h ⊢
  induction l generalizing t with
  | nil =>
    obtain rfl : t = t' := Except.ok.inj h
    exact ⟨_, by simp, rfl⟩
  | cons operation l ih =>
    rw [List.foldlM_cons, bind_eq_ok] at h
    obtain ⟨t₁, h₁, h⟩ := h
    obtain ⟨-, hfree, rfl⟩ := Tables.insertCapabilityOperation_eq_ok_iff.mp h₁
    obtain ⟨table, hrows, rfl⟩ := ih h
    exact ⟨table, by rw [hrows]; simp, rfl⟩

/-- The rows of a set can be written when the capability exists and none of them is there yet. -/
theorem insertOperations_ok {operations : OperationSet}
    (hcap : (t.capability? d c).isSome = true)
    (hfree : ∀ operation, t.hasOperation d c operation = false) :
    ∃ t', insertOperations t d c operations = .ok t' := by
  have hnodup : (Operation.all.filter operations.contains).Nodup :=
    List.Nodup.filter _ (by decide)
  have hfree' : ∀ operation ∈ Operation.all.filter operations.contains,
      t.hasOperation d c operation = false := fun operation _ ↦ hfree operation
  rw [insertOperations]
  generalize Operation.all.filter operations.contains = l at hnodup hfree'
  clear hfree
  induction l generalizing t with
  | nil => exact ⟨t, rfl⟩
  | cons operation l ih =>
    rw [List.nodup_cons] at hnodup
    have hkey : t.capabilityOperations.find? (d, c, operation) = none := by
      have hop := hfree' operation (List.mem_cons_self ..)
      rwa [Tables.hasOperation, Option.isSome_eq_false_iff, Option.isNone_iff_eq_none] at hop
    have h₁ : t.insertCapabilityOperation ⟨d, c, operation⟩ = .ok _ :=
      Tables.insertCapabilityOperation_eq_ok_iff.mpr ⟨hcap, hkey, rfl⟩
    obtain ⟨t', h'⟩ := ih (t := { t with
      capabilityOperations := t.capabilityOperations.insert ⟨d, c, operation⟩ hkey }) hcap hnodup.2
      (by
        intro other hother
        rw [Tables.hasOperation, Table.find?_of_rows_append_ne (Table.rows_insert _ _ hkey)]
        · exact hfree' other (List.mem_cons_of_mem _ hother)
        · intro heq
          obtain rfl : operation = other := (Prod.mk_inj.mp (Prod.mk_inj.mp heq).2).2
          exact hnodup.1 hother)
    exact ⟨t', by rw [List.foldlM_cons, h₁]; exact h'⟩

end Operations

section Hash

variable {sha256 : List UInt8 → Bytes verifierLength} {t t' : Tables}

/-! ## Creating a document -/

/-- A create request has been committed. -/
structure Created (sha256 : List UInt8 → Bytes verifierLength) (t t' : Tables)
    (r : CreateCommand) : Prop where
  authority : ∃ row, t.createAuthorities.find? r.createAuthorityId = some row ∧
    row.disabled = false ∧
    verifyCreateLive sha256 row.liveVerifier r.createAuthorityId r.createAuthenticator = true
  request_fresh : t.createReceipts.find? (r.createAuthorityId, r.requestId) = none
  document_fresh : t.document? r.documentId = none
  within_limits : createLimitsExceeded t r.createAuthorityId = false
  createAuthorities : t'.createAuthorities = t.createAuthorities
  documents : t'.documents.rows = t.documents.rows ++ [r.documentRow]
  capabilities : t'.capabilities.rows = t.capabilities.rows ++ [r.rootRow sha256]
  capabilityOperations : t'.capabilityOperations.rows =
    t.capabilityOperations.rows ++ operationRows r.documentId r.rootCapabilityId .full
  controlReceipts : t'.controlReceipts = t.controlReceipts
  createReceipts : t'.createReceipts.rows = t.createReceipts.rows ++ [r.receiptRow sha256]
  documentAcceptanceSequences : t'.documentAcceptanceSequences = t.documentAcceptanceSequences
  updates : t'.updates = t.updates
  updateLoroRanges : t'.updateLoroRanges = t.updateLoroRanges
  documentLoroPeers : t'.documentLoroPeers = t.documentLoroPeers

theorem createDocumentIn_ok {r : CreateCommand} {ending : Ending StoreCreateOutcome}
    (h : createDocumentIn sha256 r t = .ok ending) :
    (∃ t', ending = .commit .inserted t' ∧ Created sha256 t t' r) ∨
      ∃ o, ending = .rollback o ∧ o ≠ .inserted := by
  simp only [createDocumentIn] at h
  split at h
  · exact Or.inr ⟨_, (Except.ok.inj h).symm, by simp⟩
  rename_i authority hauthority
  split at h
  · exact Or.inr ⟨_, (Except.ok.inj h).symm, by simp⟩
  split at h
  · -- a receipt: whatever it resolves to, nothing is written
    split at h
    · exact Or.inr ⟨_, (Except.ok.inj h).symm, by simp⟩
    split at h
    · exact Or.inr ⟨_, (Except.ok.inj h).symm, by simp⟩
    split at h <;> exact Or.inr ⟨_, (Except.ok.inj h).symm, by simp⟩
  rename_i hrequest
  split at h
  · exact Or.inr ⟨_, (Except.ok.inj h).symm, by simp⟩
  rename_i hlive
  split at h
  · split at h
    · exact Or.inr ⟨_, (Except.ok.inj h).symm, by simp⟩
    · exact Or.inr ⟨_, (Except.ok.inj h).symm, by simp⟩
  rename_i hdocument
  split at h
  · exact Or.inr ⟨_, (Except.ok.inj h).symm, by simp⟩
  rename_i hlimits
  simp only [bind_eq_ok] at h
  obtain ⟨t₁, h₁, t₂, h₂, t₃, h₃, t₄, h₄, h⟩ := h
  obtain ⟨_, rfl⟩ := Tables.insertDocument_eq_ok_iff.mp h₁
  obtain ⟨-, _, rfl⟩ := Tables.insertCapability_eq_ok_iff.mp h₂
  obtain ⟨_, hrows, rfl⟩ := insertOperations_eq_ok h₃
  obtain ⟨-, _, rfl⟩ := Tables.insertCreateReceipt_eq_ok_iff.mp h₄
  simp only [Bool.not_eq_true', Bool.not_eq_false, Bool.and_eq_true] at hlive
  exact Or.inl ⟨_, (Except.ok.inj h).symm,
    { authority := ⟨authority, hauthority, by simpa using hlive.1, hlive.2⟩
      request_fresh := hrequest
      document_fresh := hdocument
      within_limits := by simpa using hlimits
      createAuthorities := rfl
      documents := rfl
      capabilities := rfl
      capabilityOperations := hrows
      controlReceipts := rfl
      createReceipts := rfl
      documentAcceptanceSequences := rfl
      updates := rfl
      updateLoroRanges := rfl
      documentLoroPeers := rfl }⟩

/-- **A create request commits its rows, or changes nothing.** -/
theorem createDocument_spec {r : CreateCommand} {result : Except StoreError StoreCreateOutcome}
    (h : createDocument sha256 t r = (result, t')) :
    (result = .ok .inserted ∧ Created sha256 t t' r) ∨ (result ≠ .ok .inserted ∧ t' = t) := by
  rcases transaction_eq h with ⟨o, rfl, hb⟩ | ⟨rfl, ⟨o, rfl, hb⟩ | ⟨e, rfl, -⟩⟩
  · rcases createDocumentIn_ok hb with ⟨t'', he, hc⟩ | ⟨o', he, -⟩
    · obtain ⟨rfl, rfl⟩ := Ending.commit.inj he
      exact Or.inl ⟨rfl, hc⟩
    · exact absurd he (by simp)
  · rcases createDocumentIn_ok hb with ⟨t'', he, -⟩ | ⟨o', he, hne⟩
    · exact absurd he (by simp)
    · obtain rfl := Ending.rollback.inj he
      exact Or.inr ⟨by simpa using hne, rfl⟩
  · exact Or.inr ⟨by simp, rfl⟩

/-! ## Granting a capability -/

/-- A grant has passed every check before those of the limits. -/
structure GrantAdmitted (sha256 : List UInt8 → Bytes verifierLength) (t : Tables) (r : GrantCommand)
    (revision : ControlRevision) : Prop where
  operations : r.operations.isEmpty = false
  request_fresh :
    t.controlReceipts.find? (r.documentId, r.issuerCapabilityId, r.requestId) = none
  authorized : authorize sha256 t r.documentId r.issuerCapabilityId r.issuerAuthenticator .grant =
    true
  next_revision : nextControlRevision t r.documentId = some revision
  attenuated :
    (loadOperationSet t r.documentId r.issuerCapabilityId).allows r.operations = true
  descendant_fresh : t.capability? r.documentId r.descendantCapabilityId = none
  capacity : issuerHasDescendantCapacity t r.documentId r.issuerCapabilityId = true

/-- A grant request has been committed, at the given revision. -/
structure Granted (sha256 : List UInt8 → Bytes verifierLength) (t t' : Tables) (r : GrantCommand)
    (revision : ControlRevision) : Prop extends GrantAdmitted sha256 t r revision where
  within_limits : controlLimitsExceeded t r.documentId (some r.issuerCapabilityId) true
    r.operations.countOnes (r.input sha256).length = false
  createAuthorities : t'.createAuthorities = t.createAuthorities
  documents : t'.documents.rows =
    t.documents.rows.map (DocumentRow.setRevision r.documentId revision)
  capabilities : t'.capabilities.rows = t.capabilities.rows ++ [r.descendantRow sha256 revision]
  capabilityOperations : t'.capabilityOperations.rows = t.capabilityOperations.rows ++
    operationRows r.documentId r.descendantCapabilityId r.operations
  controlReceipts : t'.controlReceipts.rows = t.controlReceipts.rows ++ [r.receiptRow sha256]
  createReceipts : t'.createReceipts = t.createReceipts
  documentAcceptanceSequences : t'.documentAcceptanceSequences = t.documentAcceptanceSequences
  updates : t'.updates = t.updates
  updateLoroRanges : t'.updateLoroRanges = t.updateLoroRanges
  documentLoroPeers : t'.documentLoroPeers = t.documentLoroPeers

theorem resolveControlReceipt_eq_none_iff {d : DocumentId} {issuer : CapabilityId}
    {a : Authenticator} {requestId : RequestId} {operation : ControlOperation}
    {input : List UInt8} :
    resolveControlReceipt sha256 t d issuer a requestId operation input = none ↔
      t.controlReceipts.find? (d, issuer, requestId) = none := by
  rw [resolveControlReceipt]
  cases t.controlReceipts.find? (d, issuer, requestId) with
  | none => simp
  | some receipt =>
    cases t.capability? d issuer with
    | none => simp
    | some row =>
      simp only [reduceCtorEq, iff_false]
      split
      · simp
      · split <;> simp

theorem resolveControlReceipt_ne_inserted {d : DocumentId} {issuer : CapabilityId}
    {a : Authenticator} {requestId : RequestId} {operation : ControlOperation}
    {input : List UInt8} {o : StoreControlOutcome}
    (h : resolveControlReceipt sha256 t d issuer a requestId operation input = some o) :
    o ≠ .inserted := by
  rw [resolveControlReceipt] at h
  rintro rfl
  split at h
  · exact absurd h (by simp)
  split at h
  · exact absurd h (by simp)
  split at h
  · exact absurd h (by simp)
  split at h <;> exact absurd h (by simp)

theorem setControlRevision_eq_ok {d : DocumentId} {revision : ControlRevision}
    (h : setControlRevision t d revision = .ok t') :
    t' = { t with
      documents := t.documents.update (DocumentRow.setRevision d revision)
        (DocumentRow.key_setRevision d revision) } := by
  rw [setControlRevision] at h
  split at h
  · exact absurd h (by simp)
  · split at h
    · exact absurd h (by simp)
    · exact (Except.ok.inj h).symm

theorem setControlRevision_ok {d : DocumentId} {revision revision' : ControlRevision}
    (h : nextControlRevision t d = some revision) :
    ∃ t', setControlRevision t d revision' = .ok t' := by
  obtain ⟨document, hdocument, hretired, -⟩ := nextControlRevision_eq_some_iff.mp h
  rw [setControlRevision, hdocument]
  simp [hretired]

/-- A receipt decides a grant before anything is checked. -/
theorem grantCapability_of_resolve {r : GrantCommand} {o : StoreControlOutcome}
    (h : resolveControlReceipt sha256 t r.documentId r.issuerCapabilityId r.issuerAuthenticator
      r.requestId .grant (r.input sha256) = some o) :
    grantCapability sha256 t r =
      (.ok (if r.operations.isEmpty then .authorizationDenied else o), t) := by
  have hbody : grantCapabilityIn sha256 r t =
      .ok (.rollback (if r.operations.isEmpty then .authorizationDenied else o)) := by
    rw [grantCapabilityIn]
    by_cases hempty : r.operations.isEmpty = true
    · rw [if_pos hempty, if_pos hempty]
    · rw [if_neg hempty, if_neg hempty, h]
  exact transaction_rollback hbody

theorem nextControlRevision_congr (h : t'.documents = t.documents) (d : DocumentId) :
    nextControlRevision t' d = nextControlRevision t d := by
  rw [nextControlRevision, Tables.document?, h]
  rfl

/-- What a grant that passes every check writes. -/
def grantWrites (sha256 : List UInt8 → Bytes verifierLength) (r : GrantCommand)
    (revision : ControlRevision) (tx : Tables) : Except StoreError Tables := do
  let tx ← tx.insertCapability (r.descendantRow sha256 revision)
  let tx ← insertOperations tx r.documentId r.descendantCapabilityId r.operations
  let tx ← tx.insertControlReceipt (r.receiptRow sha256)
  setControlRevision tx r.documentId revision

/-- Nothing stands in the way of what a grant writes. -/
theorem grantWrites_ok {r : GrantCommand} {revision : ControlRevision}
    (hrequest : t.controlReceipts.find? (r.documentId, r.issuerCapabilityId, r.requestId) = none)
    (hrevision : nextControlRevision t r.documentId = some revision)
    (hissuer : (t.capability? r.documentId r.issuerCapabilityId).isSome = true)
    (hfresh : t.capability? r.documentId r.descendantCapabilityId = none)
    (hfree : ∀ operation, t.hasOperation r.documentId r.descendantCapabilityId operation = false) :
    ∃ t', grantWrites sha256 r revision t = .ok t' := by
  obtain ⟨document, hdocument, -, -⟩ := nextControlRevision_eq_some_iff.mp hrevision
  -- the capability, under a document and a parent that exist
  obtain ⟨t₁, h₁⟩ : ∃ t₁, t.insertCapability (r.descendantRow sha256 revision) = .ok t₁ := by
    refine ⟨_, Tables.insertCapability_eq_ok_iff.mpr ⟨⟨?_, fun p hp ↦ Or.inr ?_, fun h ↦ ?_⟩,
      hfresh, rfl⟩⟩
    · exact Option.isSome_iff_exists.mpr ⟨document, hdocument⟩
    · obtain rfl := Option.some_inj.mp hp
      exact hissuer
    · exact absurd h.1 Bool.false_ne_true
  obtain ⟨-, _, ht₁⟩ := Tables.insertCapability_eq_ok_iff.mp h₁
  have hcapabilities : t₁.capabilities.rows =
      t.capabilities.rows ++ [r.descendantRow sha256 revision] := by rw [ht₁]; rfl
  -- its operations, none of which is there
  obtain ⟨t₂, h₂⟩ : ∃ t₂, insertOperations t₁ r.documentId r.descendantCapabilityId r.operations =
      .ok t₂ := by
    refine insertOperations_ok (Table.isSome_find?_iff.mpr
      ⟨r.descendantRow sha256 revision, ?_, rfl⟩) ?_
    · rw [hcapabilities]
      exact List.mem_append_right _ (List.mem_singleton_self _)
    · rw [ht₁]
      exact hfree
  obtain ⟨operations, -, ht₂⟩ := insertOperations_eq_ok h₂
  -- the receipt, whose issuer is still there
  obtain ⟨t₃, h₃⟩ : ∃ t₃, t₂.insertControlReceipt (r.receiptRow sha256) = .ok t₃ := by
    obtain ⟨issuer, hissuer, hkey⟩ := Table.isSome_find?_iff.mp hissuer
    refine ⟨_, Tables.insertControlReceipt_eq_ok_iff.mpr
      ⟨Table.isSome_find?_iff.mpr ⟨issuer, ?_, hkey⟩, ?_, rfl⟩⟩
    · rw [ht₂, hcapabilities]
      exact List.mem_append_left _ hissuer
    · rw [ht₂, ht₁]
      exact hrequest
  obtain ⟨-, _, ht₃⟩ := Tables.insertControlReceipt_eq_ok_iff.mp h₃
  obtain ⟨t₄, h₄⟩ : ∃ t₄, setControlRevision t₃ r.documentId revision = .ok t₄ := by
    refine setControlRevision_ok ((nextControlRevision_congr ?_ _).trans hrevision)
    rw [congrArg Tables.documents ht₃, congrArg Tables.documents ht₂, congrArg Tables.documents ht₁]
  refine ⟨t₄, ?_⟩
  simp only [grantWrites, bind, Except.bind, h₁, h₂, h₃, h₄]

/-- **A grant that passes every check is committed.** -/
theorem grantCapability_commits {r : GrantCommand} {revision : ControlRevision}
    (h : GrantAdmitted sha256 t r revision)
    (hlimits : controlLimitsExceeded t r.documentId (some r.issuerCapabilityId) true
      r.operations.countOnes (r.input sha256).length = false)
    (hwrites : grantWrites sha256 r revision t = .ok t') :
    grantCapability sha256 t r = (.ok .inserted, t') := by
  have hbody : grantCapabilityIn sha256 r t = (grantWrites sha256 r revision t).map
      fun tx ↦ .commit .inserted tx := by
    simp only [grantCapabilityIn, h.operations,
      resolveControlReceipt_eq_none_iff.mpr h.request_fresh, h.authorized, h.next_revision,
      h.attenuated, h.descendant_fresh, h.capacity, hlimits]
    simp only [Bool.not_true, Bool.false_eq_true, if_false, Option.isSome_none, Bool.or_false,
      grantWrites, bind, Except.bind, pure, Except.pure]
    repeat' (split <;> try rfl)
  rw [grantCapability, transaction, hbody, hwrites]
  rfl

theorem grantCapability_ok {r : GrantCommand} {revision : ControlRevision}
    (h : GrantAdmitted sha256 t r revision)
    (hissuer : (t.capability? r.documentId r.issuerCapabilityId).isSome = true)
    (hfree : ∀ operation, t.hasOperation r.documentId r.descendantCapabilityId operation = false)
    (hlimits : controlLimitsExceeded t r.documentId (some r.issuerCapabilityId) true
      r.operations.countOnes (r.input sha256).length = false) :
    (grantCapability sha256 t r).1 = .ok .inserted := by
  obtain ⟨t', hwrites⟩ : ∃ t', grantWrites sha256 r _ t = .ok t' :=
    grantWrites_ok h.request_fresh h.next_revision hissuer h.descendant_fresh hfree
  rw [grantCapability_commits h hlimits hwrites]

theorem grantCapabilityIn_ok {r : GrantCommand} {ending : Ending StoreControlOutcome}
    (h : grantCapabilityIn sha256 r t = .ok ending) :
    (∃ t' revision, ending = .commit .inserted t' ∧ Granted sha256 t t' r revision) ∨
      ∃ o, ending = .rollback o ∧ o ≠ .inserted := by
  simp only [grantCapabilityIn] at h
  split at h
  · exact Or.inr ⟨_, (Except.ok.inj h).symm, by simp⟩
  rename_i hoperations
  split at h
  · rename_i o hreceipt
    exact Or.inr ⟨_, (Except.ok.inj h).symm, resolveControlReceipt_ne_inserted hreceipt⟩
  rename_i hreceipt
  split at h
  · exact Or.inr ⟨_, (Except.ok.inj h).symm, by simp⟩
  rename_i hauthorized
  split at h
  · exact Or.inr ⟨_, (Except.ok.inj h).symm, by simp⟩
  rename_i revision hrevision
  split at h
  · exact Or.inr ⟨_, (Except.ok.inj h).symm, by simp⟩
  rename_i hallows
  split at h
  · exact Or.inr ⟨_, (Except.ok.inj h).symm, by simp⟩
  rename_i hdescendant
  split at h
  · exact Or.inr ⟨_, (Except.ok.inj h).symm, by simp⟩
  rename_i hlimits
  simp only [bind_eq_ok] at h
  obtain ⟨t₁, h₁, t₂, h₂, t₃, h₃, t₄, h₄, h⟩ := h
  obtain ⟨-, _, rfl⟩ := Tables.insertCapability_eq_ok_iff.mp h₁
  obtain ⟨_, hrows, rfl⟩ := insertOperations_eq_ok h₂
  obtain ⟨-, _, rfl⟩ := Tables.insertControlReceipt_eq_ok_iff.mp h₃
  obtain rfl := setControlRevision_eq_ok h₄
  simp only [Bool.or_eq_true, Bool.not_eq_true', not_or, Bool.not_eq_false,
    Bool.not_eq_true] at hlimits
  exact Or.inl ⟨_, revision, (Except.ok.inj h).symm,
    { operations := by simpa using hoperations
      request_fresh := resolveControlReceipt_eq_none_iff.mp hreceipt
      authorized := by simpa using hauthorized
      next_revision := hrevision
      attenuated := by simpa using hallows
      descendant_fresh := by simpa using hdescendant
      capacity := hlimits.1
      within_limits := hlimits.2
      createAuthorities := rfl
      documents := rfl
      capabilities := rfl
      capabilityOperations := hrows
      controlReceipts := rfl
      createReceipts := rfl
      documentAcceptanceSequences := rfl
      updates := rfl
      updateLoroRanges := rfl
      documentLoroPeers := rfl }⟩

/-- **A grant request commits its rows, or changes nothing.** -/
theorem grantCapability_spec {r : GrantCommand} {result : Except StoreError StoreControlOutcome}
    (h : grantCapability sha256 t r = (result, t')) :
    (result = .ok .inserted ∧ ∃ revision, Granted sha256 t t' r revision) ∨
      (result ≠ .ok .inserted ∧ t' = t) := by
  rcases transaction_eq h with ⟨o, rfl, hb⟩ | ⟨rfl, ⟨o, rfl, hb⟩ | ⟨e, rfl, -⟩⟩
  · rcases grantCapabilityIn_ok hb with ⟨t'', revision, he, hc⟩ | ⟨o', he, -⟩
    · obtain ⟨rfl, rfl⟩ := Ending.commit.inj he
      exact Or.inl ⟨rfl, revision, hc⟩
    · exact absurd he (by simp)
  · rcases grantCapabilityIn_ok hb with ⟨t'', revision, he, -⟩ | ⟨o', he, hne⟩
    · exact absurd he (by simp)
    · obtain rfl := Ending.rollback.inj he
      exact Or.inr ⟨by simpa using hne, rfl⟩
  · exact Or.inr ⟨by simp, rfl⟩

/-! ## Revoking a capability -/

/-- A revocation has passed every check before those of the limits. -/
structure RevokeAdmitted (sha256 : List UInt8 → Bytes verifierLength) (t : Tables)
    (r : RevokeCommand) (revision : ControlRevision) : Prop where
  request_fresh :
    t.controlReceipts.find? (r.documentId, r.issuerCapabilityId, r.requestId) = none
  authorized : authorize sha256 t r.documentId r.issuerCapabilityId r.issuerAuthenticator .revoke =
    true
  next_revision : nextControlRevision t r.documentId = some revision
  descendant :
    isActiveDescendant t r.documentId r.issuerCapabilityId r.targetCapabilityId = true

/-- A revoke request has been committed, at the given revision. -/
structure Revoked (sha256 : List UInt8 → Bytes verifierLength) (t t' : Tables) (r : RevokeCommand)
    (revision : ControlRevision) : Prop extends RevokeAdmitted sha256 t r revision where
  within_limits : controlLimitsExceeded t r.documentId none false 0 r.input.length = false
  createAuthorities : t'.createAuthorities = t.createAuthorities
  documents : t'.documents.rows =
    t.documents.rows.map (DocumentRow.setRevision r.documentId revision)
  capabilities : t'.capabilities.rows = t.capabilities.rows.map
    (CapabilityRow.revokeIn r.documentId (subtree t r.documentId r.targetCapabilityId))
  capabilityOperations : t'.capabilityOperations = t.capabilityOperations
  controlReceipts : t'.controlReceipts.rows = t.controlReceipts.rows ++ [r.receiptRow]
  createReceipts : t'.createReceipts = t.createReceipts
  documentAcceptanceSequences : t'.documentAcceptanceSequences = t.documentAcceptanceSequences
  updates : t'.updates = t.updates
  updateLoroRanges : t'.updateLoroRanges = t.updateLoroRanges
  documentLoroPeers : t'.documentLoroPeers = t.documentLoroPeers

theorem revokeCapability_of_resolve {r : RevokeCommand} {o : StoreControlOutcome}
    (h : resolveControlReceipt sha256 t r.documentId r.issuerCapabilityId r.issuerAuthenticator
      r.requestId .revoke r.input = some o) : revokeCapability sha256 t r = (.ok o, t) := by
  have hbody : revokeCapabilityIn sha256 r t = .ok (.rollback o) := by
    rw [revokeCapabilityIn, h]
  exact transaction_rollback hbody

/-- What a revocation that passes every check writes. -/
def revokeWrites (r : RevokeCommand) (revision : ControlRevision) (tx : Tables) :
    Except StoreError Tables := do
  let tx := revokeSubtree tx r.documentId r.targetCapabilityId
  let tx ← tx.insertControlReceipt r.receiptRow
  setControlRevision tx r.documentId revision

/-- Nothing stands in the way of what a revocation writes. -/
theorem revokeWrites_ok {r : RevokeCommand} {revision : ControlRevision}
    (hrequest : t.controlReceipts.find? (r.documentId, r.issuerCapabilityId, r.requestId) = none)
    (hrevision : nextControlRevision t r.documentId = some revision)
    (hissuer : (t.capability? r.documentId r.issuerCapabilityId).isSome = true) :
    ∃ t', revokeWrites r revision t = .ok t' := by
  obtain ⟨t₁, h₁⟩ : ∃ t₁, (revokeSubtree t r.documentId r.targetCapabilityId).insertControlReceipt
      r.receiptRow = .ok t₁ := by
    refine ⟨_, Tables.insertControlReceipt_eq_ok_iff.mpr ⟨?_, hrequest, rfl⟩⟩
    rw [Tables.capability?, revokeSubtree, Table.find?_update, Option.isSome_map]
    exact hissuer
  obtain ⟨-, _, ht₁⟩ := Tables.insertControlReceipt_eq_ok_iff.mp h₁
  obtain ⟨t₂, h₂⟩ : ∃ t₂, setControlRevision t₁ r.documentId revision = .ok t₂ := by
    refine setControlRevision_ok ((nextControlRevision_congr ?_ _).trans hrevision)
    rw [congrArg Tables.documents ht₁]
    rfl
  refine ⟨t₂, ?_⟩
  simp only [revokeWrites, bind, Except.bind, h₁, h₂]

/-- **A revocation that passes every check is committed.** -/
theorem revokeCapability_commits {r : RevokeCommand} {revision : ControlRevision}
    (h : RevokeAdmitted sha256 t r revision)
    (hlimits : controlLimitsExceeded t r.documentId none false 0 r.input.length = false)
    (hwrites : revokeWrites r revision t = .ok t') :
    revokeCapability sha256 t r = (.ok .inserted, t') := by
  have hbody : revokeCapabilityIn sha256 r t = (revokeWrites r revision t).map
      fun tx ↦ .commit .inserted tx := by
    simp only [revokeCapabilityIn, resolveControlReceipt_eq_none_iff.mpr h.request_fresh,
      h.authorized, h.next_revision, h.descendant, hlimits]
    simp only [Bool.not_true, Bool.false_eq_true, if_false, revokeWrites, bind, Except.bind, pure,
      Except.pure]
    repeat' (split <;> try rfl)
  rw [revokeCapability, transaction, hbody, hwrites]
  rfl

theorem revokeCapability_ok {r : RevokeCommand} {revision : ControlRevision}
    (h : RevokeAdmitted sha256 t r revision)
    (hissuer : (t.capability? r.documentId r.issuerCapabilityId).isSome = true)
    (hlimits : controlLimitsExceeded t r.documentId none false 0 r.input.length = false) :
    (revokeCapability sha256 t r).1 = .ok .inserted := by
  obtain ⟨t', hwrites⟩ := revokeWrites_ok h.request_fresh h.next_revision hissuer
  rw [revokeCapability_commits h hlimits hwrites]

theorem revokeCapabilityIn_ok {r : RevokeCommand} {ending : Ending StoreControlOutcome}
    (h : revokeCapabilityIn sha256 r t = .ok ending) :
    (∃ t' revision, ending = .commit .inserted t' ∧ Revoked sha256 t t' r revision) ∨
      ∃ o, ending = .rollback o ∧ o ≠ .inserted := by
  simp only [revokeCapabilityIn] at h
  split at h
  · rename_i o hreceipt
    exact Or.inr ⟨_, (Except.ok.inj h).symm, resolveControlReceipt_ne_inserted hreceipt⟩
  rename_i hreceipt
  split at h
  · exact Or.inr ⟨_, (Except.ok.inj h).symm, by simp⟩
  rename_i hauthorized
  split at h
  · exact Or.inr ⟨_, (Except.ok.inj h).symm, by simp⟩
  rename_i revision hrevision
  split at h
  · exact Or.inr ⟨_, (Except.ok.inj h).symm, by simp⟩
  rename_i hdescendant
  split at h
  · exact Or.inr ⟨_, (Except.ok.inj h).symm, by simp⟩
  rename_i hlimits
  simp only [bind_eq_ok] at h
  obtain ⟨t₁, h₁, t₂, h₂, h⟩ := h
  obtain ⟨-, _, rfl⟩ := Tables.insertControlReceipt_eq_ok_iff.mp h₁
  obtain rfl := setControlRevision_eq_ok h₂
  exact Or.inl ⟨_, revision, (Except.ok.inj h).symm,
    { request_fresh := resolveControlReceipt_eq_none_iff.mp hreceipt
      authorized := by simpa using hauthorized
      next_revision := hrevision
      descendant := by simpa using hdescendant
      within_limits := by simpa using hlimits
      createAuthorities := rfl
      documents := rfl
      capabilities := rfl
      capabilityOperations := rfl
      controlReceipts := rfl
      createReceipts := rfl
      documentAcceptanceSequences := rfl
      updates := rfl
      updateLoroRanges := rfl
      documentLoroPeers := rfl }⟩

/-- **A revoke request commits its rows, or changes nothing.** -/
theorem revokeCapability_spec {r : RevokeCommand} {result : Except StoreError StoreControlOutcome}
    (h : revokeCapability sha256 t r = (result, t')) :
    (result = .ok .inserted ∧ ∃ revision, Revoked sha256 t t' r revision) ∨
      (result ≠ .ok .inserted ∧ t' = t) := by
  rcases transaction_eq h with ⟨o, rfl, hb⟩ | ⟨rfl, ⟨o, rfl, hb⟩ | ⟨e, rfl, -⟩⟩
  · rcases revokeCapabilityIn_ok hb with ⟨t'', revision, he, hc⟩ | ⟨o', he, -⟩
    · obtain ⟨rfl, rfl⟩ := Ending.commit.inj he
      exact Or.inl ⟨rfl, revision, hc⟩
    · exact absurd he (by simp)
  · rcases revokeCapabilityIn_ok hb with ⟨t'', revision, he, -⟩ | ⟨o', he, hne⟩
    · exact absurd he (by simp)
    · obtain rfl := Ending.rollback.inj he
      exact Or.inr ⟨by simpa using hne, rfl⟩
  · exact Or.inr ⟨by simp, rfl⟩

end Hash

end Renee
