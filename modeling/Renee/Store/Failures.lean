import Renee.Library.Statements
import Renee.Store.Broker

/-!
# Requests that fail

A writing request that is not answered with `Inserted` leaves nothing behind, wherever it was
refused and whichever of its statements failed, be it for reasons outside the program.

* The four bodies are written here a second time, statement by statement; `createDocumentBody_eval`
  and its fellows say that without a fault they come to the same as the ones the operations are
  defined by.  A query is one statement, also where several are made for it: they leave the tables
  alone.
* `executeWithFault` is what a request does when a fault strikes one of its statements, those that
  begin and commit the transaction among them.  That what is dropped is rolled back is what
  `transact` takes SQLite to do.
* `failure_atomicity`: with a fault a request does what it does without it, or reports the error and
  leaves the store as it was, the memory included; and so does every request that is not answered
  with `Inserted`.
-/

set_option autoImplicit false

namespace Renee

open ByteString Relational Statements

/-- A body of the transactions of the store. -/
abbrev StoreBody := Body Tables StoreError

/-- The same ending, with the tables that are committed. -/
def Ending.ofVerdict {ω : Type} : Verdict ω × Tables → Ending ω
  | (.commit outcome, tables) => .commit outcome tables
  | (.rollback outcome, _) => .rollback outcome

/-! ## The bodies -/

/-- Insert the operations of a capability, one statement each. -/
def insertOperationsBody (d : DocumentId) (c : CapabilityId) (operations : OperationSet) :
    StoreBody Unit :=
  forM (Operation.all.filter operations.contains) fun operation ↦
    .write fun tx ↦ tx.insertCapabilityOperation ⟨d, c, operation⟩

/-- `insert_update_ranges`. -/
def insertUpdateRangesBody (update : ImmutableUpdate) : StoreBody Unit :=
  forM (rangeRows update) fun row ↦ .write fun tx ↦ tx.insertUpdateLoroRange row

/-- Insert the peers of some ranges, counting the new ones. -/
def insertPeersBodyFrom (d : DocumentId) : List LoroRange → ℕ → StoreBody Bool
  | [], _ => pure true
  | range :: ranges, count => do
    let inserted ← .perform fun tx ↦ tx.insertOrIgnoreDocumentLoroPeer ⟨d, range.peerId⟩
    match checkedAdd 64 count inserted with
    | none => .done (.error (.corrupt "document Loro peer count overflowed"))
    | some count => if count > maxLoroPeers then pure false else insertPeersBodyFrom d ranges count

/-- `insert_document_loro_peers`. -/
def insertDocumentLoroPeersBody (update : ImmutableUpdate) : StoreBody Bool := do
  let count ← .read fun tx ↦ peerCount tx update.documentId
  if count > maxLoroPeers then pure false
  else insertPeersBodyFrom update.documentId update.publicLoroRanges.ranges count

section Hash

variable (sha256 : List UInt8 → Bytes verifierLength)

/-- `create_document_internal`. -/
def createDocumentBody (r : CreateCommand) : StoreBody (Verdict StoreCreateOutcome) := do
  match ← .read fun tx ↦ tx.createAuthorities.find? r.createAuthorityId with
  | none => pure (.rollback .authorizationDenied)
  | some authority =>
    let liveAuthorized := !authority.disabled &&
      verifyCreateLive sha256 authority.liveVerifier r.createAuthorityId r.createAuthenticator
    let receiptAuthorized :=
      verifyCreateReceipt sha256 authority.receiptVerifier r.createAuthorityId
        r.createAuthenticator
    if !liveAuthorized && !receiptAuthorized then pure (.rollback .authorizationDenied)
    else match ← .read fun tx ↦ tx.createReceipts.find? (r.createAuthorityId, r.requestId) with
    | some receipt =>
      if !receiptAuthorized then pure (.rollback .authorizationDenied)
      else
        let rootAuthorized ← .read fun tx ↦ verifyRootReceipt sha256 tx receipt.documentId
          receipt.rootCapabilityId r.rootAuthenticator
        if !rootAuthorized then pure (.rollback .authorizationDenied)
        else if receipt.normalizedInput = r.input sha256 then pure (.rollback .alreadyPresent)
        else pure (.rollback .requestConflict)
    | none =>
      if !liveAuthorized then pure (.rollback .authorizationDenied)
      else match ← .read fun tx ↦ tx.document? r.documentId with
      | some document =>
        let rootAuthorized ← .read fun tx ↦ verifyRootReceipt sha256 tx r.documentId
          document.rootCapabilityId r.rootAuthenticator
        if rootAuthorized then pure (.rollback .identifierConflict)
        else pure (.rollback .authorizationDenied)
      | none =>
        let exceeded ← .read fun tx ↦ createLimitsExceeded tx r.createAuthorityId
        if exceeded then pure (.rollback .limitExceeded)
        else
          .write fun tx ↦ tx.insertDocument r.documentRow
          .write fun tx ↦ tx.insertCapability (r.rootRow sha256)
          insertOperationsBody r.documentId r.rootCapabilityId .full
          .write fun tx ↦ tx.insertCreateReceipt (r.receiptRow sha256)
          pure (.commit .inserted)

/-- `grant_capability_internal`. -/
def grantCapabilityBody (r : GrantCommand) : StoreBody (Verdict StoreControlOutcome) := do
  if r.operations.isEmpty then pure (.rollback .authorizationDenied)
  else match ← .read (fun tx ↦ resolveControlReceipt sha256 tx r.documentId r.issuerCapabilityId
      r.issuerAuthenticator r.requestId .grant (r.input sha256)) with
  | some outcome => pure (.rollback outcome)
  | none =>
    let authorized ← .read fun tx ↦
      authorize sha256 tx r.documentId r.issuerCapabilityId r.issuerAuthenticator .grant
    if !authorized then pure (.rollback .authorizationDenied)
    else match ← .read fun tx ↦ nextControlRevision tx r.documentId with
    | none => pure (.rollback .counterExhausted)
    | some revision =>
      let issuerOperations ← .read fun tx ↦ loadOperationSet tx r.documentId r.issuerCapabilityId
      if !issuerOperations.allows r.operations then pure (.rollback .authorizationDenied)
      else
        let descendant ← .read fun tx ↦ tx.capability? r.documentId r.descendantCapabilityId
        if descendant.isSome then pure (.rollback .identifierConflict)
        else
          let capacity ← .read fun tx ↦
            issuerHasDescendantCapacity tx r.documentId r.issuerCapabilityId
          if !capacity then pure (.rollback .limitExceeded)
          else
            let exceeded ← .read fun tx ↦ controlLimitsExceeded tx r.documentId
              (some r.issuerCapabilityId) true r.operations.countOnes (r.input sha256).length
            if exceeded then pure (.rollback .limitExceeded)
            else
              .write fun tx ↦ tx.insertCapability (r.descendantRow sha256 revision)
              insertOperationsBody r.documentId r.descendantCapabilityId r.operations
              .write fun tx ↦ tx.insertControlReceipt (r.receiptRow sha256)
              .write fun tx ↦ setControlRevision tx r.documentId revision
              pure (.commit .inserted)

/-- What `revoke_capability_internal` is to change in memory. -/
structure RevokedContexts where
  subscriptionIds : List ℕ
  passCapabilities : List CapabilityId

/-- `revoke_capability_internal`, up to what happens in memory once it has committed. -/
def revokeCapabilityBody (s : DurableUpdateStore) (r : RevokeCommand) :
    StoreBody (Verdict (StoreControlOutcome × RevokedContexts)) := do
  match ← .read (fun tx ↦ resolveControlReceipt sha256 tx r.documentId r.issuerCapabilityId
      r.issuerAuthenticator r.requestId .revoke r.input) with
  | some outcome => pure (.rollback (outcome, ⟨[], []⟩))
  | none =>
    let authorized ← .read fun tx ↦
      authorize sha256 tx r.documentId r.issuerCapabilityId r.issuerAuthenticator .revoke
    if !authorized then pure (.rollback (.authorizationDenied, ⟨[], []⟩))
    else match ← .read fun tx ↦ nextControlRevision tx r.documentId with
    | none => pure (.rollback (.counterExhausted, ⟨[], []⟩))
    | some revision =>
      let descendant ← .read fun tx ↦
        isActiveDescendant tx r.documentId r.issuerCapabilityId r.targetCapabilityId
      if !descendant then pure (.rollback (.authorizationDenied, ⟨[], []⟩))
      else
        let exceeded ← .read fun tx ↦
          controlLimitsExceeded tx r.documentId none false 0 r.input.length
        if exceeded then pure (.rollback (.limitExceeded, ⟨[], []⟩))
        else
          let contexts ← .filter (fun entry ↦ .read fun tx ↦ isDescendantOrSelf tx r.documentId
            r.targetCapabilityId entry.capabilityId) (s.subscriptions.contexts r.documentId)
          let capabilities ← .filter (fun c ↦ .read fun tx ↦
            isDescendantOrSelf tx r.documentId r.targetCapabilityId c)
              (((s.enumerationPasses.filter fun pass ↦ pass.documentId = r.documentId).map
                  EnumerationPass.capabilityId) ++
                ((s.vectorPasses.filter fun pass ↦ pass.documentId = r.documentId).map
                  VectorBackfillPass.capabilityId))
          .write fun tx ↦ .ok (revokeSubtree tx r.documentId r.targetCapabilityId)
          .write fun tx ↦ tx.insertControlReceipt r.receiptRow
          .write fun tx ↦ setControlRevision tx r.documentId revision
          pure (.commit (.inserted, ⟨contexts.map SubscriptionEntry.subscriptionId, capabilities⟩))

/-- `accept_internal`, up to the notification of subscribers once it has committed. -/
def acceptBody (c : CapabilityId) (a : Authenticator) (update : ImmutableUpdate)
    (encodedRecord : List UInt8) : StoreBody (Verdict StoreAcceptOutcome) := do
  let authorized ← .read fun tx ↦ authorize sha256 tx update.documentId c a .update
  if !authorized then pure (.rollback .authorizationDenied)
  else match ← .read fun tx ↦ tx.updates.find? (update.documentId, update.updateId) with
  | some existing =>
    if existing.encodedRecord = encodedRecord then pure (.rollback .alreadyPresent)
    else pure (.rollback .identifierConflict)
  | none =>
    let sequence ← .read fun tx ↦ nextSequence tx update.documentId
    match sequence.checkedNext with
    | none => pure (.rollback .counterExhausted)
    | some followingSequence =>
      let fits ← insertDocumentLoroPeersBody update
      if !fits then pure (.rollback .limitExceeded)
      else
        .write fun tx ↦ tx.upsertAcceptanceSequence ⟨update.documentId, followingSequence⟩
        .write fun tx ↦
          insertUpdateRecord tx update.documentId update.updateId sequence encodedRecord
        insertUpdateRangesBody update
        pure (.commit .inserted)

end Hash

/-! ## Without a fault -/

section Eval

open Body

variable {sha256 : List UInt8 → Bytes verifierLength} {t : Tables}

theorem createDocumentBody_eval (r : CreateCommand) :
    Ending.ofVerdict <$> (createDocumentBody sha256 r).eval t = createDocumentIn sha256 r t := by
  rw [createDocumentBody, createDocumentIn, eval_read_bind]
  cases t.createAuthorities.find? r.createAuthorityId with
  | none => rfl
  | some authority =>
    dsimp only
    split
    · rfl
    · rw [eval_read_bind]
      cases t.createReceipts.find? (r.createAuthorityId, r.requestId) with
      | some receipt =>
        dsimp only
        split
        · rfl
        · rw [eval_read_bind]
          split
          · rfl
          · split <;> rfl
      | none =>
        dsimp only
        split
        · rfl
        · rw [eval_read_bind]
          cases t.document? r.documentId with
          | some document =>
            dsimp only
            rw [eval_read_bind]
            split <;> rfl
          | none =>
            dsimp only
            rw [eval_read_bind]
            split
            · rfl
            · simp only [insertOperationsBody, eval_write_bind, eval_forM_bind, eval_pure, map_bind]
              rfl

theorem grantCapabilityBody_eval (r : GrantCommand) :
    Ending.ofVerdict <$> (grantCapabilityBody sha256 r).eval t = grantCapabilityIn sha256 r t := by
  rw [grantCapabilityBody, grantCapabilityIn]
  split
  · rfl
  · rw [eval_read_bind]
    cases resolveControlReceipt sha256 t r.documentId r.issuerCapabilityId r.issuerAuthenticator
      r.requestId .grant (r.input sha256) with
    | some outcome => rfl
    | none =>
      dsimp only
      rw [eval_read_bind]
      split
      · rfl
      · rw [eval_read_bind]
        cases nextControlRevision t r.documentId with
        | none => rfl
        | some revision =>
          dsimp only
          rw [eval_read_bind]
          split
          · rfl
          · rw [eval_read_bind]
            split
            · rfl
            · rw [eval_read_bind]
              -- the source asks for the limits only where there is capacity
              cases issuerHasDescendantCapacity t r.documentId r.issuerCapabilityId with
              | false => rfl
              | true =>
                rw [Bool.not_true, if_neg Bool.false_ne_true, Bool.false_or, eval_read_bind]
                split
                · rfl
                · simp only [insertOperationsBody, eval_write_bind, eval_forM_bind, eval_pure,
                    map_bind]
                  rfl

/-- The body of a revocation also says what is to change in memory. -/
theorem revokeCapabilityBody_eval (s : DurableUpdateStore) (r : RevokeCommand) :
    (revokeCapabilityBody sha256 s r).eval s.tables =
      match revokeCapabilityIn sha256 r s.tables with
      | .ok (.commit outcome tables) =>
        .ok (.commit (outcome, ⟨s.revokedSubscriptionIds r, s.revokedPassCapabilities r⟩), tables)
      | .ok (.rollback outcome) => .ok (.rollback (outcome, ⟨[], []⟩), s.tables)
      | .error e => .error e := by
  rw [revokeCapabilityBody, revokeCapabilityIn, eval_read_bind]
  cases resolveControlReceipt sha256 s.tables r.documentId r.issuerCapabilityId
    r.issuerAuthenticator r.requestId .revoke r.input with
  | some outcome => rfl
  | none =>
    dsimp only
    rw [eval_read_bind]
    cases authorize sha256 s.tables r.documentId r.issuerCapabilityId r.issuerAuthenticator
      .revoke with
    | false => rfl
    | true =>
      rw [Bool.not_true, if_neg Bool.false_ne_true, if_neg Bool.false_ne_true, eval_read_bind]
      cases nextControlRevision s.tables r.documentId with
      | none => rfl
      | some revision =>
        dsimp only
        rw [eval_read_bind]
        cases isActiveDescendant s.tables r.documentId r.issuerCapabilityId
          r.targetCapabilityId with
        | false => rfl
        | true =>
          rw [Bool.not_true, if_neg Bool.false_ne_true, if_neg Bool.false_ne_true, eval_read_bind]
          cases controlLimitsExceeded s.tables r.documentId none false 0 r.input.length with
          | true => rfl
          | false =>
            simp only [Bool.false_eq_true, if_false, eval_filter_bind, eval_write_bind, eval_pure]
            dsimp only [Bind.bind, Except.bind, pure, Except.pure]
            cases (revokeSubtree s.tables r.documentId r.targetCapabilityId).insertControlReceipt
              r.receiptRow with
            | error e => rfl
            | ok tx =>
              dsimp only
              cases setControlRevision tx r.documentId revision with
              | error e => rfl
              | ok tx => rfl

theorem insertPeersBodyFrom_eval (d : DocumentId) (ranges : List LoroRange) (count : ℕ) :
    (insertPeersBodyFrom d ranges count).eval t = insertPeersFrom d ranges count t := by
  induction ranges generalizing count t with
  | nil => rfl
  | cons range ranges ih =>
    rw [insertPeersBodyFrom, insertPeersFrom, eval_perform_bind]
    cases t.insertOrIgnoreDocumentLoroPeer ⟨d, range.peerId⟩ with
    | error e => rfl
    | ok p =>
      obtain ⟨inserted, tx⟩ := p
      show Body.eval _ tx = _
      dsimp only
      cases checkedAdd 64 count inserted with
      | none => rfl
      | some count =>
        dsimp only
        split
        · rfl
        · exact ih count

theorem insertDocumentLoroPeersBody_eval (update : ImmutableUpdate) :
    (insertDocumentLoroPeersBody update).eval t = insertDocumentLoroPeers t update := by
  rw [insertDocumentLoroPeersBody, insertDocumentLoroPeers, eval_read_bind]
  split
  · rfl
  · exact insertPeersBodyFrom_eval ..

theorem acceptBody_eval (c : CapabilityId) (a : Authenticator) (update : ImmutableUpdate)
    (encodedRecord : List UInt8) :
    Ending.ofVerdict <$> (acceptBody sha256 c a update encodedRecord).eval t =
      acceptIn sha256 c a update encodedRecord t := by
  rw [acceptBody, acceptIn, eval_read_bind]
  split
  · rfl
  · rw [eval_read_bind]
    cases t.updates.find? (update.documentId, update.updateId) with
    | some existing =>
      dsimp only
      split <;> rfl
    | none =>
      dsimp only
      rw [eval_read_bind]
      cases (nextSequence t update.documentId).checkedNext with
      | none => rfl
      | some followingSequence =>
        dsimp only
        rw [eval_bind, insertDocumentLoroPeersBody_eval, map_bind]
        refine bind_congr fun p ↦ ?_
        obtain ⟨fits, tx⟩ := p
        cases fits with
        | false => rfl
        | true =>
          simp only [insertUpdateRangesBody, Bool.not_true, Bool.false_eq_true, if_false,
            eval_write_bind, eval_forM_bind, eval_pure, map_bind]
          rfl

/-- Without a fault a body is a transaction as it is. -/
theorem transact_none_eq {ω : Type} {body : StoreBody (Verdict ω)}
    {bodyIn : Tables → Except StoreError (Ending ω)}
    (h : Ending.ofVerdict <$> body.eval t = bodyIn t) :
    transact none t body = transaction t bodyIn := by
  rw [transact_none, transaction, ← h]
  cases body.eval t with
  | error e => rfl
  | ok p =>
    obtain ⟨verdict, tables⟩ := p
    cases verdict <;> rfl

end Eval

/-! ## With a fault -/

/-- Whether a reply reports an insertion. -/
def Reply.inserted : Reply → Bool
  | .created result => result = .ok .inserted
  | .controlled result => result = .ok .inserted
  | .accepted result => result = .ok .inserted
  | _ => false

/-- Whether a request is one of the four that write on behalf of a client. -/
def Request.writes : Request → Bool
  | .create _ => true
  | .grant _ => true
  | .revoke _ => true
  | .accept _ => true
  | _ => false

/-- The report of an error. -/
def Request.failure (e : StoreError) : Request → Reply
  | .create _ => .created (.error e)
  | .grant _ => .controlled (.error e)
  | .revoke _ => .controlled (.error e)
  | .accept _ => .accepted (.error e)
  | _ => .done

namespace DurableUpdateStore

/-- What a writing request does when a fault strikes one of the statements of its transaction.  The
memory changes after the commit only. -/
def executeWithFault (sha256 : List UInt8 → Bytes verifierLength)
    (fault : Option (Fault StoreError))
    (s : DurableUpdateStore) : Request → Reply × DurableUpdateStore
  | .create r =>
    let (result, tables) := transact fault s.tables (createDocumentBody sha256 r)
    (.created result, { s with tables })
  | .grant r =>
    let (result, tables) := transact fault s.tables (grantCapabilityBody sha256 r)
    (.controlled result, { s with tables })
  | .revoke r =>
    match transact fault s.tables (revokeCapabilityBody sha256 s r) with
    | (.ok (.inserted, contexts), tables) =>
      (.controlled (.ok .inserted), { s with
        tables
        enumerationPasses := s.enumerationPasses.filter fun pass ↦
          pass.documentId ≠ r.documentId ∨ pass.capabilityId ∉ contexts.passCapabilities
        subscriptions := s.subscriptions.invalidateSubscriptions contexts.subscriptionIds .revoked
        vectorPasses := s.vectorPasses.filter fun pass ↦
          pass.documentId ≠ r.documentId ∨ pass.capabilityId ∉ contexts.passCapabilities })
    | (result, tables) => (.controlled (result.map Prod.fst), { s with tables })
  | .accept r =>
    match transact fault s.tables
      (acceptBody sha256 r.capabilityId r.authenticator r.update r.encodedRecord) with
    | (.ok .inserted, tables) =>
      (.accepted (.ok .inserted), { s with
        tables
        subscriptions := s.subscriptions.notify r.update.documentId r.update.updateId })
    | (result, tables) => (.accepted result, { s with tables })
  | request => s.execute sha256 request

variable {sha256 : List UInt8 → Bytes verifierLength} {s : DurableUpdateStore} {request : Request}

theorem executeWithFault_revoke_none (r : RevokeCommand) :
    s.executeWithFault sha256 none (.revoke r) = s.execute sha256 (.revoke r) := by
  have hfault := transact_none s.tables (revokeCapabilityBody sha256 s r)
  have hrevoke : Renee.revokeCapability sha256 s.tables r =
      transaction s.tables (revokeCapabilityIn sha256 r) := rfl
  rw [revokeCapabilityBody_eval] at hfault
  rw [transaction] at hrevoke
  simp only [executeWithFault, execute, revokeCapability]
  cases hbody : revokeCapabilityIn sha256 r s.tables with
  | error e =>
    simp only [hbody] at hfault hrevoke
    simp only [hfault, hrevoke, reduceCtorEq, if_false]
    rfl
  | ok ending =>
    rcases revokeCapabilityIn_ok hbody with ⟨tables, revision, rfl, -⟩ | ⟨outcome, rfl, hne⟩
    · simp only [hbody] at hfault hrevoke
      simp only [hfault, hrevoke, if_true]
    · simp only [hbody] at hfault hrevoke
      simp only [hfault, hrevoke, Except.ok.injEq, hne, if_false]
      cases outcome with
      | inserted => exact absurd rfl hne
      | _ => rfl

theorem executeWithFault_accept_none (r : AcceptCommand) :
    s.executeWithFault sha256 none (.accept r) = s.execute sha256 (.accept r) := by
  have h : transact none s.tables
      (acceptBody sha256 r.capabilityId r.authenticator r.update r.encodedRecord) =
        Renee.accept sha256 s.tables r.capabilityId r.authenticator r.update r.encodedRecord :=
    transact_none_eq (acceptBody_eval ..)
  simp only [executeWithFault, execute, accept, h]
  split
  · rename_i heq
    simp only [heq, if_true]
  · rename_i hne heq
    simp only [heq]
    rw [if_neg fun hinserted ↦ hne hinserted]

/-- **Without a fault it is the request itself.** -/
theorem executeWithFault_none (request : Request) :
    s.executeWithFault sha256 none request = s.execute sha256 request := by
  cases request with
  | create r =>
    simp only [executeWithFault, execute, createDocument, Renee.createDocument,
      transact_none_eq (createDocumentBody_eval r)]
  | grant r =>
    simp only [executeWithFault, execute, grantCapability, Renee.grantCapability,
      transact_none_eq (grantCapabilityBody_eval r)]
  | revoke r => exact executeWithFault_revoke_none r
  | accept r => exact executeWithFault_accept_none r
  | _ => rfl

/-- **A fault is too late, or it is reported and nothing has changed.** -/
theorem executeWithFault_cases (hwrites : request.writes = true) (n : ℕ) (e : StoreError) :
    s.executeWithFault sha256 (some (n, e)) request = s.execute sha256 request ∨
      s.executeWithFault sha256 (some (n, e)) request = (request.failure e, s) := by
  rw [← executeWithFault_none]
  cases request with
  | create r =>
    simp only [executeWithFault]
    rcases transact_cases n e s.tables (createDocumentBody sha256 r) with ⟨-, h⟩ | ⟨-, h⟩ <;> rw [h]
    · exact Or.inl rfl
    · exact Or.inr rfl
  | grant r =>
    simp only [executeWithFault]
    rcases transact_cases n e s.tables (grantCapabilityBody sha256 r) with
      ⟨-, h⟩ | ⟨-, h⟩ <;> rw [h]
    · exact Or.inl rfl
    · exact Or.inr rfl
  | revoke r =>
    simp only [executeWithFault]
    rcases transact_cases n e s.tables (revokeCapabilityBody sha256 s r) with ⟨-, h⟩ | ⟨-, h⟩ <;>
      rw [h]
    · exact Or.inl rfl
    · exact Or.inr rfl
  | accept r =>
    simp only [executeWithFault]
    rcases transact_cases n e s.tables (acceptBody sha256 r.capabilityId r.authenticator r.update
      r.encodedRecord) with ⟨-, h⟩ | ⟨-, h⟩ <;> rw [h]
    · exact Or.inl rfl
    · exact Or.inr rfl
  | _ => exact absurd hwrites (by simp [Request.writes])

/-- A request that is refused changes nothing. -/
theorem execute_of_not_inserted (hwrites : request.writes = true)
    (h : (s.execute sha256 request).1.inserted = false) : (s.execute sha256 request).2 = s := by
  cases request with
  | create r =>
    simp only [execute, createDocument, Reply.inserted, decide_eq_false_iff_not] at h ⊢
    rcases createDocument_spec (Prod.eta (Renee.createDocument sha256 s.tables r)).symm with
      ⟨hinserted, -⟩ | ⟨-, htables⟩
    · exact absurd hinserted h
    · rw [htables]
  | grant r =>
    simp only [execute, grantCapability, Reply.inserted, decide_eq_false_iff_not] at h ⊢
    rcases grantCapability_spec (Prod.eta (Renee.grantCapability sha256 s.tables r)).symm with
      ⟨hinserted, -⟩ | ⟨-, htables⟩
    · exact absurd hinserted h
    · rw [htables]
  | revoke r =>
    simp only [execute, revokeCapability] at h ⊢
    rcases revokeCapability_spec (Prod.eta (Renee.revokeCapability sha256 s.tables r)).symm with
      ⟨hinserted, -⟩ | ⟨hne, htables⟩
    · rw [if_pos hinserted] at h
      exact absurd hinserted (of_decide_eq_false h)
    · rw [if_neg hne, htables]
  | accept r =>
    simp only [execute, accept] at h ⊢
    rcases accept_spec
      (Prod.eta (Renee.accept sha256 s.tables r.capabilityId r.authenticator r.update
      r.encodedRecord)).symm with ⟨hinserted, -⟩ | ⟨hne, htables⟩
    · rw [if_pos hinserted] at h
      exact absurd hinserted (of_decide_eq_false h)
    · rw [if_neg hne, htables]
  | _ => exact absurd hwrites (by simp [Request.writes])

end DurableUpdateStore

/-- **Failure atomicity.**  A create, grant, revoke or accept in which a fault strikes whatever
statement does what it does without it, or reports the error and leaves the tables, the passes and
the subscriptions with their queues exactly as they were; and they are left so by every such request
that is not answered with `Inserted`, be it because of what the store holds, of a limit or of a
fault. -/
theorem failure_atomicity (sha256 : List UInt8 → Bytes verifierLength) (s : DurableUpdateStore)
    (request : Request) (hwrites : request.writes = true) :
    s.executeWithFault sha256 none request = s.execute sha256 request ∧
    (∀ n e, s.executeWithFault sha256 (some (n, e)) request = s.execute sha256 request ∨
      s.executeWithFault sha256 (some (n, e)) request = (request.failure e, s)) ∧
    ∀ fault, (s.executeWithFault sha256 fault request).1.inserted = false →
      (s.executeWithFault sha256 fault request).2 = s := by
  have hnone : s.executeWithFault sha256 none request = s.execute sha256 request :=
    DurableUpdateStore.executeWithFault_none request
  have hcases (n : ℕ) (e : StoreError) :
      s.executeWithFault sha256 (some (n, e)) request = s.execute sha256 request ∨
        s.executeWithFault sha256 (some (n, e)) request = (request.failure e, s) :=
    DurableUpdateStore.executeWithFault_cases hwrites n e
  refine ⟨hnone, hcases, fun fault h ↦ ?_⟩
  rcases fault with _ | ⟨n, e⟩
  · rw [hnone] at h ⊢
    exact DurableUpdateStore.execute_of_not_inserted hwrites h
  · rcases hcases n e with heq | heq
    · rw [heq] at h ⊢
      exact DurableUpdateStore.execute_of_not_inserted hwrites h
    · rw [heq]

/-- When the disk is full after an accept has written a peer and the sequence, the error is reported
and they are gone; a repeated grant changes nothing either. -/
theorem failure_atomicity_sample :
    let s := DurableUpdateStore.initial.run Sample.sha256 Sample.opening
    let body := acceptBody Sample.sha256 Sample.child (Sample.secret 3) Sample.update
      (recordBytes Sample.update)
    let working := ((enclose body).run (some (7, .sqlite)) s.tables).2
    working.documentLoroPeers.rows.length = 1 ∧
    working.documentAcceptanceSequences.rows.length = 1 ∧
      s.executeWithFault Sample.sha256 (some (7, .sqlite)) (.accept Sample.accept) =
        (.accepted (.error .sqlite), s) ∧
      (s.executeWithFault Sample.sha256 none (.grant Sample.grant)).2 = s := by
  intro s body working
  have hview : working.documentLoroPeers.rows.length = 1 ∧
      working.documentAcceptanceSequences.rows.length = 1 ∧
      (s.execute Sample.sha256 (.accept Sample.accept)).1.inserted = true ∧
      (s.executeWithFault Sample.sha256 (some (7, .sqlite)) (.accept Sample.accept)).1.inserted =
        false ∧
      (s.executeWithFault Sample.sha256 none (.grant Sample.grant)).1.inserted = false := by
    decide +kernel
  obtain ⟨hpeers, hsequences, hinserted, hstruck, hrepeated⟩ := hview
  refine ⟨hpeers, hsequences, ?_,
    (failure_atomicity Sample.sha256 s (.grant Sample.grant) rfl).2.2 none hrepeated⟩
  rcases (failure_atomicity Sample.sha256 s (.accept Sample.accept) rfl).2.1 7 .sqlite with h | h
  · rw [h, hinserted] at hstruck
    exact absurd hstruck (by decide)
  · exact h

end Renee
