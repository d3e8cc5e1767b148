import Renee.Store.Settling

/-!
# Every request is answered

A request may be refused, but on tables that were accepted it must not run into the tables
themselves.

* On well-formed tables no transaction fails: every constraint SQLite would check has been checked
  before, or follows from the invariant (`createDocument_answers` and its siblings).
* So a store whose database was accepted answers every request, and leaves tables that are accepted
  again — unless the request takes a position from the counter of an idle document that is off,
  which is where validation does not look (`served_safely_iff`).
-/

set_option autoImplicit false

namespace Renee

open ByteString Relational Ancestry Guard TokenRegistry

variable {t t' : Tables} {d : DocumentId}

section Hash

variable {sha256 : List UInt8 → Bytes verifierLength}

/-! ## Transactions that do not fail -/

theorem transaction_answers {ω : Type} {body : Tables → Except StoreError (Ending ω)}
    {ending : Ending ω} (h : body t = .ok ending) : ∃ o, (transaction t body).1 = .ok o := by
  rw [transaction, h]
  cases ending with
  | commit o tables => exact ⟨o, rfl⟩
  | rollback o => exact ⟨o, rfl⟩

/-- A creation that passes every check is committed. -/
theorem createDocument_answers (hw : ControlWellFormed t) (r : CreateCommand) :
    ∃ o, (createDocument sha256 t r).1 = .ok o := by
  suffices h : ∃ ending, createDocumentIn sha256 r t = .ok ending by
    obtain ⟨ending, h⟩ := h
    exact transaction_answers h
  simp only [createDocumentIn]
  split
  · exact ⟨_, rfl⟩
  rename_i authority hauthority
  split
  · exact ⟨_, rfl⟩
  split
  · split
    · exact ⟨_, rfl⟩
    split
    · exact ⟨_, rfl⟩
    split <;> exact ⟨_, rfl⟩
  rename_i hrequest
  split
  · exact ⟨_, rfl⟩
  split
  · split <;> exact ⟨_, rfl⟩
  rename_i hdocument
  split
  · exact ⟨_, rfl⟩
  -- the document is new, so nothing of it is there
  have hnone : ∀ c, t.capability? r.documentId c = none := hw.capability?_of_document? hdocument
  obtain ⟨t₁, h₁⟩ : ∃ t₁, t.insertDocument r.documentRow = .ok t₁ :=
    ⟨_, Tables.insertDocument_eq_ok_iff.mpr ⟨hdocument, rfl⟩⟩
  obtain ⟨_, ht₁⟩ := Tables.insertDocument_eq_ok_iff.mp h₁
  have hdocument₁ : (t₁.document? r.documentId).isSome = true := by
    refine Table.isSome_find?_iff.mpr ⟨r.documentRow, ?_, rfl⟩
    rw [ht₁]
    exact List.mem_append_right _ (List.mem_singleton_self _)
  obtain ⟨t₂, h₂⟩ : ∃ t₂, t₁.insertCapability (r.rootRow sha256) = .ok t₂ := by
    refine ⟨_, Tables.insertCapability_eq_ok_iff.mpr ⟨⟨hdocument₁, fun p hp ↦ absurd hp (by
      simp [CreateCommand.rootRow]), ?_⟩, ?_, rfl⟩⟩
    · rintro ⟨-, other, hother, hd, -⟩
      rw [congrArg Tables.capabilities ht₁] at hother
      have hfind := Tables.capability?_eq_some_iff.mpr ⟨hother, hd, rfl⟩
      exact absurd ((hnone _).symm.trans hfind) (by simp)
    · rw [Tables.capability?, congrArg Tables.capabilities ht₁]
      exact hnone r.rootCapabilityId
  obtain ⟨-, _, ht₂⟩ := Tables.insertCapability_eq_ok_iff.mp h₂
  have hoperations₂ : t₂.capabilityOperations = t.capabilityOperations := by
    rw [congrArg Tables.capabilityOperations ht₂, congrArg Tables.capabilityOperations ht₁]
  obtain ⟨t₃, h₃⟩ : ∃ t₃, insertOperations t₂ r.documentId r.rootCapabilityId .full = .ok t₃ := by
    refine insertOperations_ok (Table.isSome_find?_iff.mpr ⟨r.rootRow sha256, ?_, rfl⟩)
      fun operation ↦ ?_
    · rw [ht₂]
      exact List.mem_append_right _ (List.mem_singleton_self _)
    · rw [← Bool.not_eq_true]
      intro hop
      rw [Tables.hasOperation, hoperations₂] at hop
      obtain ⟨row, hrow⟩ := hw.operation_capability hop
      exact absurd ((hnone _).symm.trans hrow) (by simp)
  obtain ⟨operations, -, ht₃⟩ := insertOperations_eq_ok h₃
  have hauthorities₃ : t₃.createAuthorities = t.createAuthorities := by
    rw [congrArg Tables.createAuthorities ht₃, congrArg Tables.createAuthorities ht₂,
      congrArg Tables.createAuthorities ht₁]
  have hreceipts₃ : t₃.createReceipts = t.createReceipts := by
    rw [congrArg Tables.createReceipts ht₃, congrArg Tables.createReceipts ht₂,
      congrArg Tables.createReceipts ht₁]
  have hdocuments₃ : t₃.documents = t₁.documents := by
    rw [congrArg Tables.documents ht₃, congrArg Tables.documents ht₂]
  obtain ⟨t₄, h₄⟩ : ∃ t₄, t₃.insertCreateReceipt (r.receiptRow sha256) = .ok t₄ := by
    refine ⟨_, Tables.insertCreateReceipt_eq_ok_iff.mpr ⟨⟨?_, ?_⟩, ?_, rfl⟩⟩
    · rw [hauthorities₃]
      exact Option.isSome_iff_exists.mpr ⟨authority, hauthority⟩
    · rw [Tables.document?, hdocuments₃]
      exact hdocument₁
    · rw [hreceipts₃]
      exact hrequest
  simp only [h₁, h₂, h₃, h₄, bind, Except.bind]
  exact ⟨_, rfl⟩

theorem grantCapability_answers (hw : ControlWellFormed t) (r : GrantCommand) :
    ∃ o, (grantCapability sha256 t r).1 = .ok o := by
  by_cases hinserted : ∃ o, (grantCapability sha256 t r).1 = .ok o
  · exact hinserted
  suffices h : ∃ ending, grantCapabilityIn sha256 r t = .ok ending by
    obtain ⟨ending, h⟩ := h
    exact transaction_answers h
  rw [grantCapabilityIn]
  split
  · exact ⟨_, rfl⟩
  rename_i hne
  split
  · exact ⟨_, rfl⟩
  rename_i hreceipt
  split
  · exact ⟨_, rfl⟩
  rename_i hauth
  split
  · exact ⟨_, rfl⟩
  rename_i revision hrevision
  simp only
  split
  · exact ⟨_, rfl⟩
  rename_i hallows
  split
  · exact ⟨_, rfl⟩
  rename_i hfresh
  split
  · exact ⟨_, rfl⟩
  rename_i hlimits
  -- every check has passed, so the grant is committed
  simp only [Bool.not_eq_true', Bool.not_eq_false] at hauth hallows
  simp only [Bool.or_eq_true, Bool.not_eq_true', not_or, Bool.not_eq_false,
    Bool.not_eq_true] at hlimits
  have hfresh : t.capability? r.documentId r.descendantCapabilityId = none := by simpa using hfresh
  obtain ⟨row, -, hrow, -⟩ := hw.active_of_authorize hauth
  exact absurd ⟨_, grantCapability_ok ⟨by simpa using hne,
    resolveControlReceipt_eq_none_iff.mp hreceipt, hauth, hrevision, hallows, hfresh, hlimits.1⟩
    (Option.isSome_iff_exists.mpr ⟨row, hrow⟩) (hw.operation_free hfresh) hlimits.2⟩ hinserted

theorem revokeCapability_answers (hw : ControlWellFormed t) (r : RevokeCommand) :
    ∃ o, (revokeCapability sha256 t r).1 = .ok o := by
  by_cases hinserted : ∃ o, (revokeCapability sha256 t r).1 = .ok o
  · exact hinserted
  suffices h : ∃ ending, revokeCapabilityIn sha256 r t = .ok ending by
    obtain ⟨ending, h⟩ := h
    exact transaction_answers h
  rw [revokeCapabilityIn]
  split
  · exact ⟨_, rfl⟩
  rename_i hreceipt
  split
  · exact ⟨_, rfl⟩
  rename_i hauth
  split
  · exact ⟨_, rfl⟩
  rename_i revision hrevision
  split
  · exact ⟨_, rfl⟩
  rename_i htarget
  split
  · exact ⟨_, rfl⟩
  rename_i hlimits
  simp only [Bool.not_eq_true', Bool.not_eq_false] at hauth htarget
  obtain ⟨row, -, hrow, -⟩ := hw.active_of_authorize hauth
  exact absurd ⟨_, revokeCapability_ok ⟨resolveControlReceipt_eq_none_iff.mp hreceipt, hauth,
    hrevision, htarget⟩ (Option.isSome_iff_exists.mpr ⟨row, hrow⟩)
      (by simpa using hlimits)⟩ hinserted

/-- The next position of a document is nobody's. -/
theorem UpdatesWellFormed.nextSequence_free (hw : UpdatesWellFormed t) {row : UpdateRow}
    (hrow : row ∈ t.updates.rows) :
    row.acceptanceSequence ≠ nextSequence t row.documentId := by
  intro heq
  have hlog := hw.mem_log_iff_getElem?.mp (Tables.mem_log.mpr ⟨hrow, rfl⟩)
  obtain ⟨hlt, -⟩ := List.getElem?_eq_some_iff.mp hlog
  rw [heq, hw.nextSequence_eq, Nat.add_sub_cancel] at hlt
  exact absurd hlt (lt_irrefl _)

theorem AcceptCommand.record_length (r : AcceptCommand) :
    0 < r.encodedRecord.length ∧ r.encodedRecord.length ≤ 4024 := by
  obtain ⟨hbytes, hle, -⟩ := decodeUpdateRecord_eq_ok_iff.mp r.decoded
  refine ⟨?_, hle⟩
  rw [hbytes, length_recordBytes]
  exact Nat.lt_of_lt_of_le (show 0 < recordFixedLength by decide)
    ((Nat.le_add_right _ _).trans (Nat.le_add_right _ _))

/-- **An accept that passes every check is committed.** -/
theorem acceptIn_inserts {r : AcceptCommand} {following : AcceptanceSequence}
    (hauth : authorize sha256 t r.update.documentId r.capabilityId r.authenticator .update = true)
    (hfresh : t.updates.find? (r.update.documentId, r.update.updateId) = none)
    (hfollowing : (nextSequence t r.update.documentId).checkedNext = some following)
    (hpeers : peerCount t r.update.documentId +
      (newPeers t r.update.documentId r.update.publicLoroRanges.ranges).length ≤ maxLoroPeers)
    (hsequence : 0 < (nextSequence t r.update.documentId).get)
    (hfree : ∀ row ∈ t.updates.rows, row.documentId = r.update.documentId →
      row.acceptanceSequence ≠ nextSequence t r.update.documentId)
    (hranges : ∀ range ∈ t.updateLoroRanges.rows,
      ¬(range.documentId = r.update.documentId ∧ range.updateId = r.update.updateId)) :
    ∃ t', acceptIn sha256 r.capabilityId r.authenticator r.update r.encodedRecord t =
      .ok (.commit .inserted t') := by
  obtain ⟨document, hdocument, -⟩ := document_of_authorize hauth
  have hdoc : (t.document? r.update.documentId).isSome = true := by rw [hdocument]; rfl
  obtain ⟨peers, -, h₁⟩ := insertDocumentLoroPeers_of_le hdoc hpeers
  obtain ⟨t₂, h₂⟩ : ∃ t₂, Tables.upsertAcceptanceSequence { t with documentLoroPeers := peers }
      ⟨r.update.documentId, following⟩ = .ok t₂ := upsertAcceptanceSequence_ok hdoc
  obtain ⟨sequences, ht₂, hsequences⟩ := upsertAcceptanceSequence_eq_ok h₂
  -- the position is free and the record is as long as its column admits
  obtain ⟨hpos, hle⟩ := r.record_length
  let row : UpdateRow := ⟨r.update.documentId, r.update.updateId,
    nextSequence t r.update.documentId, r.encodedRecord, hsequence, hpos, hle⟩
  obtain ⟨t₃, h₃⟩ : ∃ t₃, t₂.insertUpdate row = .ok t₃ := by
    refine ⟨_, Tables.insertUpdate_eq_ok_iff.mpr ⟨⟨?_, ?_⟩, ?_, rfl⟩⟩
    · rw [ht₂]
      show (sequences.find? r.update.documentId).isSome = true
      rw [hsequences, if_pos rfl]
      rfl
    · rintro ⟨other, hother, hd, hs⟩
      rw [ht₂] at hother
      exact hfree other hother hd hs
    · rw [ht₂]
      exact hfresh
  obtain ⟨-, _, ht₃⟩ := Tables.insertUpdate_eq_ok_iff.mp h₃
  obtain ⟨t₄, h₄⟩ : ∃ t₄, insertUpdateRanges t₃ r.update = .ok t₄ := by
    refine insertUpdateRanges_ok ?_ fun range hrange ↦ ?_
    · refine Table.isSome_find?_iff.mpr ⟨row, ?_, rfl⟩
      rw [congrArg Tables.updates ht₃]
      exact List.mem_append_right _ (List.mem_singleton_self _)
    · rw [congrArg Tables.updateLoroRanges ht₃, congrArg Tables.updateLoroRanges ht₂] at hrange
      exact hranges range hrange
  have hrecord : insertUpdateRecord t₂ r.update.documentId r.update.updateId
      (nextSequence t r.update.documentId) r.encodedRecord = .ok t₃ := by
    rw [insertUpdateRecord, dif_pos ⟨hsequence, hpos, hle⟩]
    exact h₃
  refine ⟨t₄, ?_⟩
  simp only [acceptIn, hauth, hfresh, hfollowing, h₁, h₂, hrecord, h₄, bind, Except.bind,
    Bool.not_true, Bool.false_eq_true, if_false]
  rfl

/-- **An accept is answered.** -/
theorem accept_answers (hw : UpdatesWellFormed t) (r : AcceptCommand) :
    ∃ o, (accept sha256 t r.capabilityId r.authenticator r.update r.encodedRecord).1 = .ok o := by
  by_cases hinserts : ∃ ending, acceptIn sha256 r.capabilityId r.authenticator r.update
      r.encodedRecord t = .ok ending
  · obtain ⟨ending, h⟩ := hinserts
    exact transaction_answers h
  refine absurd ?_ hinserts
  simp only [acceptIn]
  split
  · exact ⟨_, rfl⟩
  rename_i hauth
  have hauth : authorize sha256 t r.update.documentId r.capabilityId r.authenticator .update =
    true := by simpa using hauth
  split
  · split <;> exact ⟨_, rfl⟩
  rename_i hfresh
  split
  · exact ⟨_, rfl⟩
  rename_i following hfollowing
  by_cases hpeers : peerCount t r.update.documentId +
      (newPeers t r.update.documentId r.update.publicLoroRanges.ranges).length ≤ maxLoroPeers
  · refine absurd ?_ hinserts
    obtain ⟨t', h⟩ := acceptIn_inserts hauth hfresh hfollowing hpeers
      (by rw [hw.nextSequence_eq]; exact Nat.succ_pos _)
      (fun row hrow hd ↦ hd ▸ hw.nextSequence_free hrow) fun range hrange hkey ↦ by
        have hsome := hw.find?_of_range hrange
        rw [hkey.1, hkey.2, hfresh] at hsome
        exact absurd hsome (by simp)
    exact ⟨_, h⟩
  · obtain ⟨document, hdocument, -⟩ := document_of_authorize hauth
    have hdoc : (t.document? r.update.documentId).isSome = true := by rw [hdocument]; rfl
    obtain ⟨t', hok⟩ := insertDocumentLoroPeers_of_gt hdoc (Nat.lt_of_not_le hpeers)
    rw [hok]
    exact ⟨_, rfl⟩

end Hash

/-! ## Failures -/

/-- The tables contradict themselves or their constraints: the failures of the store itself, rather
than of the random source. -/
def StoreError.Internal : StoreError → Prop
  | .sqlite | .corrupt _ => True
  | .invalidCursor | .entropyUnavailable => False

/-- The error a result is. -/
def failure? {α : Type} : Except StoreError α → Option StoreError
  | .ok _ => none
  | .error e => some e

/-- The error a reply carries. -/
def Reply.failure? : Reply → Option StoreError
  | .created result => Renee.failure? result
  | .controlled result => Renee.failure? result
  | .accepted result => Renee.failure? result
  | .fetched result => Renee.failure? result
  | .enumerated result => Renee.failure? result
  | .backfilled result => Renee.failure? result
  | .preflighted _ | .subscribed _ | .channel _ | .poll _ | .done => none

/-- A reopen presents the create authority the store was opened with. -/
def Request.OpensWith (provision : CreateAuthorityProvision) : Request → Prop
  | .reopen p _ _ => p = provision
  | _ => True

/-- Opening a database that is in order and knows the authority changes nothing. -/
theorem openTables_of_provisioned {t : Tables} {provision : CreateAuthorityProvision}
    {row : CreateAuthorityRow} (hvalid : t.Valid)
    (hrow : t.createAuthorities.find? provision.createAuthorityId = some row)
    (hsame : row.liveVerifier = provision.liveVerifier ∧
      row.receiptVerifier = provision.receiptVerifier) :
    openTables t provision = .ok t := by
  rw [openTables, hvalid.validated, hvalid.foreign, provisionCreateAuthority, hrow]
  simp [reject, bind, Except.bind, hsame.1, hsame.2]

namespace DurableUpdateStore

section Hash

variable (sha256 : List UInt8 → Bytes verifierLength)

/-- The error a request ends in.  A reopen has no reply; what it ends in is what opening does. -/
def failure? (s : DurableUpdateStore) (request : Request) : Option StoreError :=
  match request with
  | .reopen provision _ _ => Renee.failure? (openTables s.tables provision)
  | request => (s.execute sha256 request).1.failure?

/-- A request does not run into the tables, and leaves tables that are accepted. -/
structure ServedSafely (s : DurableUpdateStore) (request : Request) : Prop where
  answered : ∀ e ∈ s.failure? sha256 request, ¬e.Internal
  valid : (s.step sha256 request).tables.Valid

end Hash

variable {sha256 : List UInt8 → Bytes verifierLength} {s : DurableUpdateStore}
  {provision : CreateAuthorityProvision}

/-- What every store that was opened on accepted tables has, as long as no position is taken from a
skewed counter. -/
structure Serviceable (provision : CreateAuthorityProvision) (s : DurableUpdateStore) : Prop where
  wellFormed : WellFormed s.settled.tables
  readable : s.settled.Readable
  passes : ∃ trace, s.PassesWellFormed trace
  provisioned : ∃ row, s.tables.createAuthorities.find? provision.createAuthorityId = some row ∧
    row.liveVerifier = provision.liveVerifier ∧ row.receiptVerifier = provision.receiptVerifier

theorem Serviceable.valid (h : s.Serviceable provision) : s.tables.Valid :=
  Tables.valid_iff.mpr h.wellFormed

theorem passesWellFormed_opened (t : Tables) (generation : StoreGeneration) (broker : ℕ) :
    (opened t generation broker).PassesWellFormed [] where
  enumeration := enumerationPassesWellFormed_nil
  vector := vectorPassesWellFormed_nil
  enumerationKeeps := fun _ h ↦ absurd h List.not_mem_nil
  vectorKeeps := fun _ h ↦ absurd h List.not_mem_nil
  enumerationIssued := issued_nil
  vectorIssued := issued_nil

/-- **On well-formed tables no request runs into them.** -/
theorem failure?_execute (hw : WellFormed s.tables) (hreadable : s.Readable)
    {trace : List (Request × Reply)} (hpasses : s.PassesWellFormed trace) {request : Request}
    (hroomy : request.Roomy) {e : StoreError}
    (he : e ∈ (s.execute sha256 request).1.failure?) : ¬e.Internal := by
  have hok : ∀ {α : Type} {result : Except StoreError α}, (∃ o, result = .ok o) →
      e ∈ Renee.failure? result → ¬e.Internal := by
    rintro α _ ⟨o, rfl⟩ he
    exact absurd he (by simp [Renee.failure?])
  cases request with
  | create r => exact hok (createDocument_answers hw.control r) he
  | grant r => exact hok (grantCapability_answers hw.control r) he
  | revoke r =>
    obtain ⟨o, ho⟩ := revokeCapability_answers hw.control r
    exact hok ⟨o, (revokeCapability_fst r).trans ho⟩ he
  | accept r =>
    obtain ⟨o, ho⟩ := accept_answers hw.log r
    have hreply : (s.accept sha256 r).1 = (Renee.accept sha256 s.tables r.capabilityId
        r.authenticator r.update r.encodedRecord).1 := by
      simp only [accept]
      split <;> rfl
    exact hok ⟨o, hreply.trans ho⟩ he
  | fetch r =>
    refine hok ?_ he
    rw [fetchAuthorized]
    split
    · exact ⟨_, rfl⟩
    · rw [hw.log.fetchIn_eq]
      exact ⟨_, rfl⟩
  | enumerate r m =>
    simp only [execute, enumerateAuthorized] at he
    split at he
    · exact absurd he (by simp [Reply.failure?, Renee.failure?])
    split at he
    · exact absurd he (by simp [Reply.failure?, Renee.failure?])
    · exact absurd he (by simp [Reply.failure?, Renee.failure?])
    have hanswer : EnumerationAnswer s.tables s.generation r m _ _ := enumeratePasses_answer hw.log
      (hpasses.enumeration.filter fun pass ↦ m.now < pass.expiresAt)
      (fun pass hpass ↦ hreadable.enumeration pass (List.mem_filter.mp hpass).1) hroomy
    simp only at he
    revert he
    generalize (enumeratePasses _ _ _ _ _).1 = result at hanswer
    cases hanswer with
    | entropy => exact fun he ↦ Option.some_inj.mp he ▸ id
    | _ => exact fun he ↦ absurd he (by simp [Reply.failure?, Renee.failure?])
  | vectorBackfill r m =>
    simp only [execute, vectorBackfillAuthorized] at he
    split at he
    · exact absurd he (by simp [Reply.failure?, Renee.failure?])
    split at he
    · exact absurd he (by simp [Reply.failure?, Renee.failure?])
    · exact absurd he (by simp [Reply.failure?, Renee.failure?])
    have hanswer := vectorBackfillPasses_answer (r := r) (m := m) hw.log
      (hpasses.vector.filter fun pass ↦ m.now < pass.expiresAt)
      (fun pass hpass ↦ hreadable.vector pass (List.mem_filter.mp hpass).1) hroomy
    simp only at he
    revert he
    generalize (vectorBackfillPasses _ _ _ _).1 = result at hanswer
    cases hanswer with
    | entropy => exact fun he ↦ Option.some_inj.mp he ▸ id
    | _ => exact fun he ↦ absurd he (by simp [Reply.failure?, Renee.failure?])
  | _ => exact absurd he (by simp [execute, Reply.failure?])

/-- What was provisioned stays so. -/
theorem Serviceable.provisioned_step (h : s.Serviceable provision)
    (sha256 : List UInt8 → Bytes verifierLength) (request : Request) :
    ∃ row, (s.settled.step sha256 request).tables.createAuthorities.find?
        provision.createAuthorityId = some row ∧
      row.liveVerifier = provision.liveVerifier ∧
      row.receiptVerifier = provision.receiptVerifier := by
  obtain ⟨row, hrow, hlive, hreceipt⟩ := h.provisioned
  have hpersists : Persists s.settled.tables (s.settled.step sha256 request).tables :=
    persists_step h.wellFormed request
  obtain ⟨row', hrow', hlive', hreceipt'⟩ := hpersists.authority hrow
  exact ⟨row', hrow', hlive'.trans hlive, hreceipt'.trans hreceipt⟩

theorem Serviceable.openTables_eq (h : s.Serviceable provision) :
    openTables s.tables provision = .ok s.tables := by
  obtain ⟨row, hrow, hsame⟩ := h.provisioned
  exact openTables_of_provisioned h.valid hrow hsame

/-- **One request**: it is served safely and leaves a store that serves the next. -/
theorem Serviceable.step (h : s.Serviceable provision)
    (sha256 : List UInt8 → Bytes verifierLength) {request : Request} (hroomy : request.Roomy)
    (hopens : request.OpensWith provision) (hskewed : ¬s.StartsSkewed sha256 request) :
    s.ServedSafely sha256 request ∧ (s.step sha256 request).Serviceable provision := by
  suffices hstep : (∀ e ∈ s.failure? sha256 request, ¬e.Internal) ∧
      (s.step sha256 request).Serviceable provision from
    ⟨⟨hstep.1, hstep.2.valid⟩, hstep.2⟩
  obtain ⟨trace, hpasses⟩ := h.passes
  by_cases hreopen : ∃ p g b, request = .reopen p g b
  · obtain ⟨p, g, b, rfl⟩ := hreopen
    obtain rfl : p = provision := hopens
    have htables : s.tables.apply sha256 (.reopen p) = s.tables := by
      rw [Tables.apply, h.openTables_eq]
    have hstep : s.step sha256 (.reopen p g b) = opened s.tables g b := by
      rw [DurableUpdateStore.step, execute, htables]
    refine ⟨fun e he ↦ ?_, ?_⟩
    · rw [failure?, h.openTables_eq] at he
      exact absurd he (by simp [Renee.failure?])
    · rw [hstep]
      exact ⟨h.wellFormed, ⟨fun _ hpass ↦ absurd hpass List.not_mem_nil,
        fun _ hpass ↦ absurd hpass List.not_mem_nil⟩, ⟨[], passesWellFormed_opened _ _ _⟩,
        h.provisioned⟩
  have hne : ∀ p g b, request ≠ .reopen p g b := fun p g b heq ↦ hreopen ⟨p, g, b, heq⟩
  have hfailure : s.failure? sha256 request = (s.execute sha256 request).1.failure? := by
    cases request with
    | reopen p g b => exact absurd rfl (hne p g b)
    | _ => rfl
  rw [hfailure]
  rcases execute_settled sha256 s hskewed hne with heq | ⟨o, heq⟩
  · have hreply : (s.settled.execute sha256 request).1 = (s.execute sha256 request).1 := by
      rw [heq]
    have hstep : s.settled.step sha256 request = (s.step sha256 request).settled := by
      rw [DurableUpdateStore.step, heq]
      rfl
    have hpasses' : s.settled.PassesWellFormed trace := { hpasses with }
    refine ⟨fun e he ↦ ?_, ?_, ?_, ⟨_, hpasses.step request⟩, ?_⟩
    · rw [← hreply] at he
      exact failure?_execute h.wellFormed h.readable hpasses' hroomy he
    · rw [← hstep]
      exact wellFormed_step h.wellFormed request
    · rw [← hstep]
      exact h.readable.step h.wellFormed hroomy
    · have hprovisioned := h.provisioned_step sha256 request
      rw [hstep] at hprovisioned
      exact hprovisioned
  · rw [show s.step sha256 request = s from step_eq heq, heq]
    exact ⟨fun e he ↦ absurd he (by simp [Reply.failure?, Renee.failure?]), h⟩

/-- **A position taken from a skewed counter is not safe**: it is not the first one, so what it
leaves is not accepted; and the one before the first is refused by SQLite. -/
theorem not_servedSafely_of_startsSkewed (hvalid : s.tables.Valid) {request : Request}
    (h : s.StartsSkewed sha256 request) : ¬s.ServedSafely sha256 request := by
  cases request with
  | accept r =>
    intro hsafe
    obtain ⟨⟨hidle, hnext⟩, hauth, hadvance⟩ := h
    obtain ⟨following, hfollowing⟩ := Option.isSome_iff_exists.mp hadvance
    have hnone := Tables.idle_iff.mp hidle
    have hw := Tables.valid_iff.mp hvalid
    -- an idle document has no peers, so those of the update fit
    have hpeers : peerCount s.tables r.update.documentId + (newPeers s.tables r.update.documentId
        r.update.publicLoroRanges.ranges).length ≤ maxLoroPeers := by
      have hzero : peerCount s.tables r.update.documentId = 0 := by
        refine List.countP_eq_zero.mpr fun row hrow hd ↦ ?_
        have hsome : (s.tables.settled.documentLoroPeers.find?
            (r.update.documentId, row.peerId)).isSome = true :=
          Table.isSome_find?_iff.mpr ⟨row, hrow, Prod.ext (of_decide_eq_true hd) rfl⟩
        obtain ⟨update, hupdate, -⟩ := hw.log.peers.mp hsome
        exact hnone update (Tables.mem_log.mp hupdate).1 (Tables.mem_log.mp hupdate).2
      rw [hzero, Nat.zero_add]
      refine (List.length_filter_le _ _).trans ?_
      rw [List.length_map]
      exact r.update.publicLoroRanges.length_le
    have hfresh : s.tables.updates.find? (r.update.documentId, r.update.updateId) = none :=
      Table.find?_eq_none_iff.mpr fun row hrow hkey ↦ hnone row hrow (Prod.mk_inj.mp hkey).1
    have hfails : ∀ e, (Renee.accept sha256 s.tables r.capabilityId r.authenticator r.update
        r.encodedRecord).1 = .error e → ¬e.Internal := by
      intro e he
      refine hsafe.answered e ?_
      simp only [failure?, execute, accept, he]
      rfl
    by_cases hzero : (nextSequence s.tables r.update.documentId).get = 0
    · -- the position before the first does not pass the check of its column
      obtain ⟨document, hdocument, -⟩ := document_of_authorize hauth
      have hdoc : (s.tables.document? r.update.documentId).isSome = true := by rw [hdocument]; rfl
      obtain ⟨peers, -, h₁⟩ := insertDocumentLoroPeers_of_le hdoc hpeers
      obtain ⟨t₂, h₂⟩ : ∃ t₂, Tables.upsertAcceptanceSequence
          { s.tables with documentLoroPeers := peers } ⟨r.update.documentId, following⟩ = .ok t₂ :=
        upsertAcceptanceSequence_ok hdoc
      refine hfails .sqlite ?_ trivial
      have hrecord : insertUpdateRecord t₂ r.update.documentId r.update.updateId
          (nextSequence s.tables r.update.documentId) r.encodedRecord = .error .sqlite := by
        rw [insertUpdateRecord, dif_neg (by rw [hzero]; simp)]
      rw [Renee.accept, transaction]
      simp only [acceptIn, hauth, hfresh, hfollowing, h₁, h₂, hrecord, bind, Except.bind,
        Bool.not_true, Bool.false_eq_true, if_false]
    · obtain ⟨t', hbody⟩ := acceptIn_inserts hauth hfresh hfollowing hpeers
        (Nat.pos_of_ne_zero hzero) (fun row hrow hd ↦ absurd hd (hnone row hrow))
        fun range hrange hkey ↦ by
          have hsome := hw.log.find?_of_range hrange
          rw [hkey.1, hkey.2] at hsome
          obtain ⟨row, hrow⟩ := Option.isSome_iff_exists.mp hsome
          exact absurd (hfresh.symm.trans hrow) (by simp)
      have haccept : Renee.accept sha256 s.tables r.capabilityId r.authenticator r.update
          r.encodedRecord = (.ok .inserted, t') := by
        rw [Renee.accept, transaction, hbody]
      have hstep : (s.step sha256 (.accept r)).tables = t' := by
        simp only [DurableUpdateStore.step, execute, accept, haccept, if_true]
      -- the only update of the document is not at the first position
      rcases accept_spec haccept with ⟨-, row, -, haccepted⟩ | ⟨hne, -⟩
      · have hvalid' := hsafe.valid
        rw [hstep] at hvalid'
        have hw' := Tables.valid_iff.mp hvalid'
        have hlog : (t'.log r.update.documentId).length = 1 := by
          rw [(t'.log_perm _).length_eq, haccepted.updates, List.filter_append,
            List.filter_eq_nil_iff.mpr fun old hold ↦ by simpa using hnone old hold,
            List.nil_append, List.filter_cons_of_pos (by simp [haccepted.row_document])]
          rfl
        have hmem : row ∈ t'.log r.update.documentId := Tables.mem_log.mpr
          ⟨by rw [haccepted.updates]; exact List.mem_append_right _ (List.mem_singleton_self _),
            haccepted.row_document⟩
        have hindex := hw'.log.mem_log_iff_getElem?.mp hmem
        obtain ⟨hlt, -⟩ := List.getElem?_eq_some_iff.mp hindex
        have hlt : row.acceptanceSequence.get - 1 < 1 := hlog ▸ hlt
        refine hnext (AcceptanceSequence.ext ?_)
        show (nextSequence s.tables r.update.documentId).get = 1
        rw [← haccepted.row_sequence]
        have hpos := row.sequence_pos
        omega
      · exact absurd rfl hne
  | _ => exact absurd h id

theorem provisionCreateAuthority_settled (t : Tables) (provision : CreateAuthorityProvision) :
    (provisionCreateAuthority t provision).map Tables.settled =
      provisionCreateAuthority t.settled provision := by
  have hauthorities : t.settled.createAuthorities = t.createAuthorities := rfl
  rw [provisionCreateAuthority, provisionCreateAuthority, hauthorities]
  split
  · split <;> rfl
  · rw [Tables.settled, ← map_insertCreateAuthority_settle]
    cases hinsert : t.insertCreateAuthority ⟨provision.createAuthorityId, provision.liveVerifier,
        provision.receiptVerifier, false⟩ with
    | error e => rfl
    | ok t' =>
      obtain ⟨_, rfl⟩ := Tables.insertCreateAuthority_eq_ok_iff.mp hinsert
      rfl

/-- **A store that has just been opened serves.** -/
theorem serviceable_opened {t₀ t : Tables} (h : openTables t₀ provision = .ok t)
    (generation : StoreGeneration) (broker : ℕ) :
    (opened t generation broker).Serviceable provision := by
  have hprovision := provisionCreateAuthority_of_openTables h
  simp only [openTables, bind_eq_ok] at h
  obtain ⟨_, hforeign, _, hvalid, -⟩ := h
  have hw : WellFormed t₀.settled :=
    Tables.valid_iff.mp ⟨by simpa using reject_eq_ok.mp hforeign, hvalid⟩
  have hsettled : provisionCreateAuthority t₀.settled provision = .ok t.settled := by
    rw [← provisionCreateAuthority_settled, hprovision]
    rfl
  refine ⟨wellFormed_provisionCreateAuthority hsettled hw, ⟨fun _ hpass ↦ absurd hpass
    List.not_mem_nil, fun _ hpass ↦ absurd hpass List.not_mem_nil⟩,
    ⟨[], passesWellFormed_opened _ _ _⟩, ?_⟩
  show ∃ row, t.createAuthorities.find? _ = some row ∧ _
  rw [provisionCreateAuthority] at hprovision
  split at hprovision
  · rename_i row hrow
    split at hprovision
    · exact absurd hprovision (by simp)
    · rename_i hsame
      obtain rfl := Except.ok.inj hprovision
      simp only [not_or, not_not] at hsame
      exact ⟨row, hrow, hsame⟩
  · obtain ⟨hfree, rfl⟩ := Tables.insertCreateAuthority_eq_ok_iff.mp hprovision
    exact ⟨_, Table.find?_of_rows_append_self (Table.rows_insert _ _ hfree), rfl, rfl⟩

/-- **A database that can be opened can be served from, up to the idle counters.**  Whatever is in
the tables that were accepted: in a run of requests, no request ends in a failure of the store, and
what each one leaves is accepted again, exactly when no request takes a position from the counter of
an idle document that is not at the first one. -/
theorem served_safely_iff (sha256 : List UInt8 → Bytes verifierLength) {t₀ t : Tables}
    (hopen : openTables t₀ provision = .ok t) (generation : StoreGeneration) (broker : ℕ)
    {requests : List Request} (hroomy : ∀ request ∈ requests, request.Roomy)
    (hopens : ∀ request ∈ requests, request.OpensWith provision) :
    (∀ done request rest, requests = done ++ request :: rest →
      ((opened t generation broker).run sha256 done).ServedSafely sha256 request) ↔
    ∀ done request rest, requests = done ++ request :: rest →
      ¬((opened t generation broker).run sha256 done).StartsSkewed sha256 request := by
  constructor
  · intro hsafe done request rest hsplit hskewed
    refine not_servedSafely_of_startsSkewed ?_ hskewed (hsafe done request rest hsplit)
    -- the tables the request finds were accepted, by the request before it or when opening
    induction done using List.reverseRecOn with
    | nil => exact (serviceable_opened hopen generation broker).valid
    | append_singleton done last _ =>
      rw [run_concat]
      exact (hsafe done last (request :: rest) (by rw [hsplit, List.append_assoc]; rfl)).valid
  · intro hskewed
    have hserviceable : ∀ done rest, requests = done ++ rest →
        ((opened t generation broker).run sha256 done).Serviceable provision := by
      intro done
      induction done using List.reverseRecOn with
      | nil => exact fun _ _ ↦ serviceable_opened hopen generation broker
      | append_singleton done last ih =>
        intro rest hsplit
        have hsplit' : requests = done ++ last :: rest := by rw [hsplit, List.append_assoc]; rfl
        have hmem : last ∈ requests := by rw [hsplit']; simp
        rw [run_concat]
        exact ((ih _ hsplit').step sha256 (hroomy last hmem) (hopens last hmem)
          (hskewed done last rest hsplit')).2
    intro done request rest hsplit
    have hmem : request ∈ requests := by rw [hsplit]; simp
    exact ((hserviceable done _ hsplit).step sha256 (hroomy request hmem) (hopens request hmem)
      (hskewed done request rest hsplit)).1

/-! ## A counter that is not checked -/

/-- The small deployment, its document without updates and the counter of the document at five. -/
def Sample.skewed : Tables :=
  let t := (initial.run Sample.sha256 Sample.opening).tables
  { t with documentAcceptanceSequences :=
      .insert .empty ⟨Sample.document, ⟨5, by decide⟩⟩ rfl }

theorem Sample.openTables_skewed : openTables Sample.skewed Sample.provision =
    .ok Sample.skewed := by
  have hprovisioned : (Sample.skewed.createAuthorities.find?
      Sample.provision.createAuthorityId).any (fun row ↦
        row.liveVerifier = Sample.provision.liveVerifier ∧
          row.receiptVerifier = Sample.provision.receiptVerifier) = true := by
    decide +kernel
  obtain ⟨row, hrow, hsame⟩ := (Option.any_eq_true _ _).mp hprovisioned
  exact openTables_of_provisioned ⟨by decide +kernel, by decide +kernel⟩ hrow
    (of_decide_eq_true hsame)

theorem served_safely_iff_sample :
    ¬∀ done request rest, [Request.accept Sample.accept] = done ++ request :: rest →
      ((opened Sample.skewed (Sample.bytes _ 9) 1).run Sample.sha256 done).ServedSafely
        Sample.sha256 request := by
  intro h
  have hroomy : ∀ request ∈ [Request.accept Sample.accept], request.Roomy := by
    simp [Request.Roomy]
  have hopens : ∀ request ∈ [Request.accept Sample.accept],
      request.OpensWith Sample.provision := by
    simp [Request.OpensWith]
  refine (served_safely_iff Sample.sha256 Sample.openTables_skewed (Sample.bytes _ 9) 1
    hroomy hopens).mp h [] _ [] rfl ?_
  show Tables.Skewed _ _ ∧ _ ∧ _
  decide +kernel

/-- **The database is accepted, and after one accept on it no longer**: the update is stored at the
fifth position of an empty log. -/
theorem opened_then_invalid :
    openTables Sample.skewed Sample.provision = .ok Sample.skewed ∧
      (((opened Sample.skewed (Sample.bytes _ 9) 1).execute Sample.sha256
        (.accept Sample.accept)).1.failure?.isNone ∧
      validate ((opened Sample.skewed (Sample.bytes _ 9) 1).step Sample.sha256
        (.accept Sample.accept)).tables ≠ .ok ()) :=
  ⟨Sample.openTables_skewed, by decide +kernel⟩

end DurableUpdateStore

end Renee
