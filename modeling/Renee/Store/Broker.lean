import Renee.Store.Run
import Renee.Subscription.Registry

/-!
# The durable update store

The authoritative store: the tables, the pagination passes and the subscription registry, with every
request it serves.

* A request that writes is a transaction on the tables; what happens in memory afterwards, the
  removal of passes and the invalidation of subscriptions, happens only when it has committed an
  insertion.
* A request that reads may change passes, never tables.
* `DurableUpdateStore.execute` carries out one `Request` and answers with a `Reply`; `run` carries
  out a list of them.  The store is behind a mutex, so a request is one step.
* `Request.mutation?` is what a request may do to the tables, so that runs of requests inherit
  everything about runs of mutations (`wellFormed_runRequests`).
-/

set_option autoImplicit false

namespace Renee

open ByteString Relational

/-! ## State -/

/-- Authoritative capability and immutable-update store. -/
@[ext] structure DurableUpdateStore where
  tables : Tables
  enumerationPasses : List EnumerationPass
  generation : StoreGeneration
  subscriptions : UpdateSubscriptionRegistry
  vectorPasses : List VectorBackfillPass

/-- Authorization-preserving result of creating a broker-local update subscription. -/
inductive StoreSubscribeOutcome
  /-- The subscription of the given number is installed. -/
  | acknowledged (subscriptionId : ℕ)
  | authorizationDenied
  | backpressure
deriving DecidableEq

/-- Read-only classification of a revoke. -/
inductive StoreRevokePreflight
  | resolved (outcome : StoreControlOutcome)
  | requiresMutation
deriving DecidableEq

namespace DurableUpdateStore

/-- A store on tables that has just been opened. -/
def opened (tables : Tables) (generation : StoreGeneration) (broker : ℕ) : DurableUpdateStore :=
  ⟨tables, [], generation, .new broker, []⟩

/-- A database that has not been opened yet. -/
def initial : DurableUpdateStore := opened .empty (Bytes.replicate _ 0) 0

/-! ## Channels and retirement -/

def openBrokerChannel (s : DurableUpdateStore) : Option BrokerChannel × DurableUpdateStore :=
  let (channel, subscriptions) := s.subscriptions.openChannel
  (channel, { s with subscriptions })

/-- Invalidate everything issued on one lost channel. -/
def closeBrokerChannel (s : DurableUpdateStore) (channel : BrokerChannel) : DurableUpdateStore :=
  if !s.subscriptions.recognizes channel then s
  else
    { s with
      enumerationPasses := s.enumerationPasses.filter fun pass ↦ pass.channelId ≠ channel.id
      subscriptions := s.subscriptions.closeChannel channel
      vectorPasses := s.vectorPasses.filter fun pass ↦ pass.channelId ≠ channel.id }

/-- Invalidate everything about a document once its retirement is durable. -/
def publishCommittedRetirement (s : DurableUpdateStore) (d : DocumentId) : DurableUpdateStore :=
  if (s.tables.document? d).any DocumentRow.retired then
    { s with
      enumerationPasses := s.enumerationPasses.filter fun pass ↦ pass.documentId ≠ d
      subscriptions := s.subscriptions.invalidateDocument d .retired
      vectorPasses := s.vectorPasses.filter fun pass ↦ pass.documentId ≠ d }
  else s

section Hash

variable (sha256 : List UInt8 → Bytes verifierLength)

/-! ## Reading requests -/

/-- `enumerate_authorized`. -/
def enumerateAuthorized (s : DurableUpdateStore) (r : EnumerateRequest)
    (m : Moment enumerationContinuationLength) :
    Except StoreError StoreEnumerateOutcome × DurableUpdateStore :=
  if !s.subscriptions.recognizes r.channel then (.ok .authorizationDenied, s)
  else match authorizeDocument sha256 s.tables r.documentId r.capabilityId r.authenticator
    .read with
  | .denied => (.ok .authorizationDenied, s)
  | .retired => (.ok .retiredDocument, s)
  | .authorized =>
    let (result, enumerationPasses) := enumeratePasses s.tables s.generation r m
      (s.enumerationPasses.filter fun pass ↦ m.now < pass.expiresAt)
    (result, { s with enumerationPasses })

/-- `vector_backfill_authorized`. -/
def vectorBackfillAuthorized (s : DurableUpdateStore) (r : VectorBackfillRequest)
    (m : Moment vectorContinuationLength) :
    Except StoreError StoreVectorBackfillOutcome × DurableUpdateStore :=
  if !s.subscriptions.recognizes r.channel then (.ok .authorizationDenied, s)
  else match authorizeDocument sha256 s.tables r.documentId r.capabilityId r.authenticator
    .read with
  | .denied => (.ok .authorizationDenied, s)
  | .retired => (.ok .retiredDocument, s)
  | .authorized =>
    let (result, vectorPasses) := vectorBackfillPasses s.tables r m
      (s.vectorPasses.filter fun pass ↦ m.now < pass.expiresAt)
    (result, { s with vectorPasses })

/-- `subscribe_updates_internal`. -/
def subscribeUpdates (s : DurableUpdateStore) (channel : BrokerChannel) (d : DocumentId)
    (c : CapabilityId) (a : Authenticator) : StoreSubscribeOutcome × DurableUpdateStore :=
  if !s.subscriptions.recognizes channel then (.authorizationDenied, s)
  else if !authorize sha256 s.tables d c a .read then (.authorizationDenied, s)
  else match s.subscriptions.register channel d c with
  | (.ok subscriptionId, subscriptions) => (.acknowledged subscriptionId, { s with subscriptions })
  | (.error .invalidChannel, subscriptions) => (.authorizationDenied, { s with subscriptions })
  | (.error .backpressure, subscriptions) => (.backpressure, { s with subscriptions })

/-- `preflight_revoke_capability`. -/
def preflightRevokeCapability (s : DurableUpdateStore) (r : RevokeCommand) :
    StoreRevokePreflight :=
  match resolveControlReceipt sha256 s.tables r.documentId r.issuerCapabilityId
    r.issuerAuthenticator r.requestId .revoke r.input with
  | some outcome => .resolved outcome
  | none =>
    if !authorize sha256 s.tables r.documentId r.issuerCapabilityId r.issuerAuthenticator
        .revoke then
      .resolved .authorizationDenied
    else match nextControlRevision s.tables r.documentId with
    | none => .resolved .counterExhausted
    | some _ =>
      if !isActiveDescendant s.tables r.documentId r.issuerCapabilityId r.targetCapabilityId then
        .resolved .authorizationDenied
      else if controlLimitsExceeded s.tables r.documentId none false 0 r.input.length then
        .resolved .limitExceeded
      else .requiresMutation

/-! ## Writing requests -/

def createDocument (s : DurableUpdateStore) (r : CreateCommand) :
    Except StoreError StoreCreateOutcome × DurableUpdateStore :=
  let (result, tables) := Renee.createDocument sha256 s.tables r
  (result, { s with tables })

def grantCapability (s : DurableUpdateStore) (r : GrantCommand) :
    Except StoreError StoreControlOutcome × DurableUpdateStore :=
  let (result, tables) := Renee.grantCapability sha256 s.tables r
  (result, { s with tables })

/-- The capabilities of the document's passes that lie in the subtree of the target. -/
def revokedPassCapabilities (s : DurableUpdateStore) (r : RevokeCommand) : List CapabilityId :=
  (((s.enumerationPasses.filter fun pass ↦ pass.documentId = r.documentId).map
      EnumerationPass.capabilityId) ++
    ((s.vectorPasses.filter fun pass ↦ pass.documentId = r.documentId).map
      VectorBackfillPass.capabilityId)).filter
    (isDescendantOrSelf s.tables r.documentId r.targetCapabilityId)

/-- The active subscriptions of the document that lie in the subtree of the target. -/
def revokedSubscriptionIds (s : DurableUpdateStore) (r : RevokeCommand) : List ℕ :=
  ((s.subscriptions.contexts r.documentId).filter fun entry ↦
    isDescendantOrSelf s.tables r.documentId r.targetCapabilityId entry.capabilityId).map
      SubscriptionEntry.subscriptionId

/-- `revoke_capability_internal`.  The subtree is computed before the capabilities change, and the
memory changes after they have. -/
def revokeCapability (s : DurableUpdateStore) (r : RevokeCommand) :
    Except StoreError StoreControlOutcome × DurableUpdateStore :=
  let (result, tables) := Renee.revokeCapability sha256 s.tables r
  if result = .ok .inserted then
    (result, { s with
      tables
      enumerationPasses := s.enumerationPasses.filter fun pass ↦
        pass.documentId ≠ r.documentId ∨ pass.capabilityId ∉ s.revokedPassCapabilities r
      subscriptions :=
        s.subscriptions.invalidateSubscriptions (s.revokedSubscriptionIds r) .revoked
      vectorPasses := s.vectorPasses.filter fun pass ↦
        pass.documentId ≠ r.documentId ∨ pass.capabilityId ∉ s.revokedPassCapabilities r })
  else (result, { s with tables })

/-- `accept_internal`: subscribers are notified once the insertion has committed. -/
def accept (s : DurableUpdateStore) (r : AcceptCommand) :
    Except StoreError StoreAcceptOutcome × DurableUpdateStore :=
  let (result, tables) :=
    Renee.accept sha256 s.tables r.capabilityId r.authenticator r.update r.encodedRecord
  if result = .ok .inserted then
    (result, { s with
      tables
      subscriptions := s.subscriptions.notify r.update.documentId r.update.updateId })
  else (result, { s with tables })

end Hash

end DurableUpdateStore

/-! ## Requests -/

/-- The arguments of `fetch_authorized`. -/
structure FetchRequest where
  documentId : DocumentId
  updateId : UpdateId
  capabilityId : CapabilityId
  authenticator : Authenticator

/-- The arguments of `subscribe_updates`. -/
structure SubscribeRequest where
  channel : BrokerChannel
  documentId : DocumentId
  capabilityId : CapabilityId
  authenticator : Authenticator

/-- What can be asked of a store, by clients, by the holders of its subscriptions and channels, and
by its operator. -/
inductive Request
  | create (r : CreateCommand)
  | grant (r : GrantCommand)
  | preflightRevoke (r : RevokeCommand)
  | revoke (r : RevokeCommand)
  | accept (r : AcceptCommand)
  | fetch (r : FetchRequest)
  | enumerate (r : EnumerateRequest) (m : Moment enumerationContinuationLength)
  | vectorBackfill (r : VectorBackfillRequest) (m : Moment vectorContinuationLength)
  | subscribe (r : SubscribeRequest)
  | openChannel
  | closeChannel (channel : BrokerChannel)
  /-- Poll a subscription that was issued on a channel. -/
  | next (channelId subscriptionId : ℕ)
  | cancel (subscriptionId : ℕ)
  | publishRetirement (d : DocumentId)
  | retire (d : DocumentId)
  | disableCreateAuthority (i : CreateAuthorityId)
  /-- Close the store and open it again, as a new broker. -/
  | reopen (provision : CreateAuthorityProvision) (generation : StoreGeneration) (broker : ℕ)

/-- What a request is answered with. -/
inductive Reply
  | created (result : Except StoreError StoreCreateOutcome)
  | controlled (result : Except StoreError StoreControlOutcome)
  | preflighted (result : StoreRevokePreflight)
  | accepted (result : Except StoreError StoreAcceptOutcome)
  | fetched (result : Except StoreError (StoreReadOutcome (Option (List UInt8))))
  | enumerated (result : Except StoreError StoreEnumerateOutcome)
  | backfilled (result : Except StoreError StoreVectorBackfillOutcome)
  | subscribed (outcome : StoreSubscribeOutcome)
  | channel (channel : Option BrokerChannel)
  | poll (poll : UpdateSubscriptionRegistry.UpdateSubscriptionPoll)
  | done

/-- What a request may do to the tables. -/
def Request.mutation? : Request → Option Mutation
  | .create r => some (.create r)
  | .grant r => some (.grant r)
  | .revoke r => some (.revoke r)
  | .accept r => some (.accept r)
  | .retire d => some (.retire d)
  | .disableCreateAuthority i => some (.disableCreateAuthority i)
  | .reopen provision _ _ => some (.reopen provision)
  | _ => none

namespace DurableUpdateStore

section Hash

variable (sha256 : List UInt8 → Bytes verifierLength)

/-- Carry out a request. -/
def execute (s : DurableUpdateStore) : Request → Reply × DurableUpdateStore
  | .create r => let (result, s) := s.createDocument sha256 r; (.created result, s)
  | .grant r => let (result, s) := s.grantCapability sha256 r; (.controlled result, s)
  | .preflightRevoke r => (.preflighted (s.preflightRevokeCapability sha256 r), s)
  | .revoke r => let (result, s) := s.revokeCapability sha256 r; (.controlled result, s)
  | .accept r => let (result, s) := s.accept sha256 r; (.accepted result, s)
  | .fetch r =>
    (.fetched (fetchAuthorized sha256 s.tables r.documentId r.updateId r.capabilityId
      r.authenticator), s)
  | .enumerate r m => let (result, s) := s.enumerateAuthorized sha256 r m; (.enumerated result, s)
  | .vectorBackfill r m =>
    let (result, s) := s.vectorBackfillAuthorized sha256 r m; (.backfilled result, s)
  | .subscribe r =>
    let (outcome, s) := s.subscribeUpdates sha256 r.channel r.documentId r.capabilityId
      r.authenticator
    (.subscribed outcome, s)
  | .openChannel => let (channel, s) := s.openBrokerChannel; (.channel channel, s)
  | .closeChannel channel => (.done, s.closeBrokerChannel channel)
  | .next channelId subscriptionId =>
    let (poll, subscriptions) := s.subscriptions.next channelId subscriptionId
    (.poll poll, { s with subscriptions })
  | .cancel subscriptionId =>
    (.done, { s with subscriptions := s.subscriptions.cancel subscriptionId })
  | .publishRetirement d => (.done, s.publishCommittedRetirement d)
  | .retire d => (.done, { s with tables := retireDocument s.tables d })
  | .disableCreateAuthority i =>
    (.done, { s with tables := Renee.disableCreateAuthority s.tables i })
  | .reopen provision generation broker =>
    (.done, opened (s.tables.apply sha256 (.reopen provision)) generation broker)

/-- The store a request leaves. -/
def step (s : DurableUpdateStore) (request : Request) : DurableUpdateStore :=
  (s.execute sha256 request).2

/-- The store a sequence of requests leaves. -/
def run (s : DurableUpdateStore) (requests : List Request) : DurableUpdateStore :=
  requests.foldl (step sha256) s

/-- The requests of a sequence with what they are answered. -/
def trace : DurableUpdateStore → List Request → List (Request × Reply)
  | _, [] => []
  | s, request :: requests =>
    (request, (s.execute sha256 request).1) :: trace (s.step sha256 request) requests

end Hash

variable {sha256 : List UInt8 → Bytes verifierLength} {s : DurableUpdateStore}

/-! ## Runs -/

/-- **A request changes the tables as its mutation does.** -/
theorem tables_step (sha256 : List UInt8 → Bytes verifierLength) (s : DurableUpdateStore)
    (request : Request) :
    (s.step sha256 request).tables =
      (request.mutation?.map (s.tables.apply sha256)).getD s.tables := by
  cases request with
  | create r => rfl
  | grant r => rfl
  | preflightRevoke r => rfl
  | revoke r =>
    simp only [step, execute, revokeCapability]
    split <;> rfl
  | accept r =>
    simp only [step, execute, accept]
    split <;> rfl
  | fetch r => rfl
  | enumerate r m =>
    simp only [step, execute, enumerateAuthorized]
    split
    · rfl
    split <;> rfl
  | vectorBackfill r m =>
    simp only [step, execute, vectorBackfillAuthorized]
    split
    · rfl
    split <;> rfl
  | subscribe r =>
    simp only [step, execute, subscribeUpdates]
    split
    · rfl
    split
    · rfl
    split <;> rfl
  | openChannel => rfl
  | closeChannel channel =>
    simp only [step, execute, closeBrokerChannel]
    split <;> rfl
  | next channelId subscriptionId => rfl
  | cancel subscriptionId => rfl
  | publishRetirement d =>
    simp only [step, execute, publishCommittedRetirement]
    split <;> rfl
  | retire d => rfl
  | disableCreateAuthority i => rfl
  | reopen provision generation broker => rfl

/-- A request leaves the tables as they are, or its mutation has its effect. -/
theorem effect_step (sha256 : List UInt8 → Bytes verifierLength) (s : DurableUpdateStore)
    (request : Request) :
    (s.step sha256 request).tables = s.tables ∨ ∃ m, request.mutation? = some m ∧
      Effect sha256 s.tables (s.step sha256 request).tables m := by
  rw [tables_step]
  cases hm : request.mutation? with
  | none => exact Or.inl rfl
  | some m => exact (s.tables.apply_spec sha256 m).imp id fun heffect ↦ ⟨m, rfl, heffect⟩

theorem persists_step (hw : WellFormed s.tables) (request : Request) :
    Persists s.tables (s.step sha256 request).tables := by
  rcases effect_step sha256 s request with heq | ⟨m, -, heffect⟩
  · rw [heq]
    exact .refl _
  · exact heffect.persists hw

theorem run_append (s : DurableUpdateStore) (requests requests' : List Request) :
    s.run sha256 (requests ++ requests') = (s.run sha256 requests).run sha256 requests' :=
  List.foldl_append

theorem run_concat (s : DurableUpdateStore) (requests : List Request) (request : Request) :
    s.run sha256 (requests ++ [request]) = (s.run sha256 requests).step sha256 request :=
  List.foldl_append

theorem trace_concat (s : DurableUpdateStore) (requests : List Request) (request : Request) :
    s.trace sha256 (requests ++ [request]) = s.trace sha256 requests ++
      [(request, ((s.run sha256 requests).execute sha256 request).1)] := by
  induction requests generalizing s with
  | nil => rfl
  | cons first requests ih =>
    rw [List.cons_append, trace, trace, ih]
    rfl

theorem tables_run (s : DurableUpdateStore) (requests : List Request) :
    (s.run sha256 requests).tables =
      s.tables.run sha256 (requests.filterMap Request.mutation?) := by
  induction requests generalizing s with
  | nil => rfl
  | cons request requests ih =>
    rw [run, List.foldl_cons, List.filterMap_cons]
    refine (ih (s.step sha256 request)).trans ?_
    rw [tables_step]
    cases request.mutation? <;> rfl

/-- The tables of every reachable store are in order. -/
theorem wellFormed_runRequests (hw : WellFormed s.tables) (requests : List Request) :
    WellFormed (s.run sha256 requests).tables := by
  rw [tables_run]
  exact wellFormed_run hw _

theorem wellFormed_step (hw : WellFormed s.tables) (request : Request) :
    WellFormed (s.step sha256 request).tables :=
  wellFormed_runRequests hw [request]

theorem wellFormed_initial : WellFormed initial.tables := wellFormed_empty

/-- **The rule for runs of requests**: what holds at the start and survives every request of a store
with well-formed tables holds at the end. -/
theorem run_induction {P : DurableUpdateStore → Prop}
    (hstep : ∀ s request, WellFormed s.tables → P s → P (s.step sha256 request))
    (hw : WellFormed s.tables) (h : P s) (requests : List Request) :
    P (s.run sha256 requests) := by
  induction requests using List.reverseRecOn with
  | nil => exact h
  | append_singleton requests request ih =>
    rw [run_concat]
    exact hstep _ _ (wellFormed_runRequests hw requests) ih

end DurableUpdateStore

/-! ## The small deployment, served -/

namespace Sample

@[irreducible] def sha256 : List UInt8 → Bytes verifierLength := Sha256.hash

/-- Open the store, create the document, grant the child and open a channel. -/
def opening : List Request :=
  [.reopen provision (bytes _ 9) 1, .create create, .grant grant, .openChannel]

/-- The channel that is opened. -/
def channel : BrokerChannel := ⟨1, 1⟩

/-- One operation of one peer, with one byte of payload. -/
def update : ImmutableUpdate :=
  ⟨document, ⟨bytes _ 5⟩,
    ⟨[⟨1, 0, 1, by decide, by decide, by decide⟩], by simp, by decide, by simp, by decide⟩, [7]⟩

/-- The child submits it. -/
def accept : AcceptCommand :=
  ⟨child, secret 3, update, recordBytes update,
    decodeUpdateRecord_eq_ok_iff.mpr ⟨rfl, by decide, by decide, by decide⟩⟩

/-- One operation of some peer. -/
def updateOf (b : UInt8) : ImmutableUpdate :=
  ⟨document, ⟨bytes _ b⟩, ⟨[⟨Fin.ofNat _ b.toNat, 0, 1, by decide, by decide, by decide⟩], by simp,
    show 1 ≤ maxLoroPeers by decide, by simp, show 1 ≤ maxUpdateOperations by decide⟩, [7]⟩

/-- The child submits that. -/
def acceptOf (b : UInt8) : AcceptCommand :=
  ⟨child, secret 3, updateOf b, recordBytes (updateOf b), decodeUpdateRecord_eq_ok_iff.mpr
    ⟨rfl, (length_recordBytes _).trans_le
      (show recordFixedLength + 16 * 1 + 1 ≤ maxUpdateRecordLength by decide),
      Nat.one_pos, show 22 + 16 * 1 ≤ maxEnumerableMetadataLength by decide⟩⟩

/-- There are two updates. -/
def accepting : List Request := opening ++ [.accept (acceptOf 1), .accept (acceptOf 2)]

/-- What somebody has who has the update of the first peer. -/
def firstPeer : LoroOplogVersion :=
  ⟨[⟨1, 1, by decide, by decide⟩], by decide, List.pairwise_singleton _ _⟩

end Sample

end Renee
