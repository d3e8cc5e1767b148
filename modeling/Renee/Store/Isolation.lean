import Renee.Store.Ending
import Renee.Store.PassLocality
import Renee.Store.PassRun

/-!
# Documents are isolated

A `DocumentRequest` is an operation on one document: an accept, a grant, a revocation, a fetch, or a
step of an enumeration or a backfill.  This file is about two of them on different documents, in
every reachable store and whatever identifiers and secrets they share.

* `DocumentRequest.undisturbed`: an operation changes nothing another document can tell, its rows,
  its passes and its active subscriptions (`Undisturbed`).
* `DocumentRequest.local`: what it answers, and what its document sees of the tables afterwards, is
  a matter of what its document saw before (`SeesSame`), unless the operation is refused by a bound
  on the whole store or on its channel (`MeetsBound`).
* `documents_isolated` puts the two together: the order of the operations makes no difference.

An operation is carried out in `Surroundings`, the clock and the random source, which are not the
same in the two orders.  What is assumed of them is that the random source finds unused tokens
(`Provided`), and that no pass of the two documents expires between the four readings of the clock
(`Simultaneous`).
-/

set_option autoImplicit false

namespace Renee

open ByteString Relational TokenRegistry

/-! ## Operations on a document -/

/-- An operation on one document. -/
inductive DocumentRequest
  | accept (r : AcceptCommand)
  | grant (r : GrantCommand)
  | revoke (r : RevokeCommand)
  | fetch (r : FetchRequest)
  | enumerate (r : EnumerateRequest)
  | vectorBackfill (r : VectorBackfillRequest)

/-- The clock and the random source while an operation is carried out. -/
structure Surroundings where
  now : ℕ
  later : ℕ
  enumerationDraw : ℕ → Option EnumerationToken
  vectorDraw : ℕ → Option VectorToken

def Surroundings.enumerationMoment (a : Surroundings) : Moment enumerationContinuationLength :=
  ⟨a.now, a.later, a.enumerationDraw⟩

def Surroundings.vectorMoment (a : Surroundings) : Moment vectorContinuationLength :=
  ⟨a.now, a.later, a.vectorDraw⟩

namespace DocumentRequest

def documentId : DocumentRequest → DocumentId
  | .accept r => r.update.documentId
  | .grant r => r.documentId
  | .revoke r => r.documentId
  | .fetch r => r.documentId
  | .enumerate r => r.documentId
  | .vectorBackfill r => r.documentId

/-- The operation in its surroundings. -/
def request (a : Surroundings) : DocumentRequest → Request
  | .accept r => .accept r
  | .grant r => .grant r
  | .revoke r => .revoke r
  | .fetch r => .fetch r
  | .enumerate r => .enumerate r a.enumerationMoment
  | .vectorBackfill r => .vectorBackfill r a.vectorMoment

end DocumentRequest

/-- A reply without the value of a token. -/
def Reply.withoutToken : Reply → Reply
  | .enumerated result => .enumerated (result.map StoreEnumerateOutcome.withoutToken)
  | .backfilled result => .backfilled (result.map StoreVectorBackfillOutcome.withoutToken)
  | reply => reply

/-- Tables with the same rows. -/
structure Tables.SameRows (t t' : Tables) : Prop where
  createAuthorities : t.createAuthorities.rows.Perm t'.createAuthorities.rows
  documents : t.documents.rows.Perm t'.documents.rows
  capabilities : t.capabilities.rows.Perm t'.capabilities.rows
  capabilityOperations : t.capabilityOperations.rows.Perm t'.capabilityOperations.rows
  controlReceipts : t.controlReceipts.rows.Perm t'.controlReceipts.rows
  createReceipts : t.createReceipts.rows.Perm t'.createReceipts.rows
  documentAcceptanceSequences :
    t.documentAcceptanceSequences.rows.Perm t'.documentAcceptanceSequences.rows
  updates : t.updates.rows.Perm t'.updates.rows
  updateLoroRanges : t.updateLoroRanges.rows.Perm t'.updateLoroRanges.rows
  documentLoroPeers : t.documentLoroPeers.rows.Perm t'.documentLoroPeers.rows

/-- The state word of a subscription is `ACTIVE`, it is fed, and its channel is open. -/
structure UpdateSubscriptionRegistry.ActiveEntry (registry : UpdateSubscriptionRegistry)
    (entry : SubscriptionEntry) : Prop where
  live : registry.Live entry
  alive : registry.alive entry.channelId = true

namespace DurableUpdateStore

/-- The enumeration passes of a document that have not expired. -/
def enumerationPassesOf (s : DurableUpdateStore) (now : ℕ) (d : DocumentId) :
    List EnumerationPass :=
  (s.enumerationPasses.filter fun pass ↦ now < pass.expiresAt).filter (EnumerationPass.isOf d)

/-- The vector-backfill passes of a document that have not expired. -/
def vectorPassesOf (s : DurableUpdateStore) (now : ℕ) (d : DocumentId) :
    List VectorBackfillPass :=
  (s.vectorPasses.filter fun pass ↦ now < pass.expiresAt).filter (VectorBackfillPass.isOf d)

/-- What a document can tell of a store is the same afterwards: its rows, its unexpired passes, and
its active subscriptions with what they share with their receivers. -/
structure Undisturbed (s s' : DurableUpdateStore) (now : ℕ) (d : DocumentId) : Prop where
  tables : s'.tables.restrict d = s.tables.restrict d
  enumerationPasses : (s'.enumerationPassesOf now d).Perm (s.enumerationPassesOf now d)
  vectorPasses : (s'.vectorPassesOf now d).Perm (s.vectorPassesOf now d)
  /-- No pass is made for it. -/
  enumerationOld : ∀ pass ∈ s'.enumerationPasses, pass.documentId = d → pass ∈ s.enumerationPasses
  vectorOld : ∀ pass ∈ s'.vectorPasses, pass.documentId = d → pass ∈ s.vectorPasses
  subscriptions : ∀ entry : SubscriptionEntry, entry.documentId = d →
    (s'.subscriptions.ActiveEntry entry ↔ s.subscriptions.ActiveEntry entry)
  cells : ∀ entry : SubscriptionEntry, entry.documentId = d → s.subscriptions.ActiveEntry entry →
    s'.subscriptions.cells entry.subscriptionId = s.subscriptions.cells entry.subscriptionId

/-- The random source finds tokens that are not in use. -/
structure Provided (s : DurableUpdateStore) (a : Surroundings) : Prop where
  enumeration : ∃ token, mintEnumerationToken a.enumerationDraw s.enumerationPasses = .ok
    (some token)
  vector : ∃ token, mintVectorToken a.vectorDraw s.vectorPasses = .ok (some token)

/-- No pass of the document expires between two readings of the clock. -/
structure Simultaneous (s : DurableUpdateStore) (d : DocumentId) (now now' : ℕ) : Prop where
  enumeration : ∀ pass ∈ s.enumerationPasses, pass.documentId = d →
    (now < pass.expiresAt ↔ now' < pass.expiresAt)
  vector : ∀ pass ∈ s.vectorPasses, pass.documentId = d →
    (now < pass.expiresAt ↔ now' < pass.expiresAt)

end DurableUpdateStore

/-- The operation is refused by a bound on all documents or on its channel. -/
def DocumentRequest.MeetsBound (sha256 : List UInt8 → Bytes verifierLength)
    (s : DurableUpdateStore) (a : Surroundings) : DocumentRequest → Prop
  | .grant r => r.Bounded sha256 s.tables
  | .revoke r => r.Bounded sha256 s.tables
  | .enumerate r =>
    (s.enumerateAuthorized sha256 r a.enumerationMoment).1 = .ok .backpressure ∧
      r.Crowded (s.enumerationPasses.filter fun pass ↦ a.now < pass.expiresAt)
  | .vectorBackfill r =>
    (s.vectorBackfillAuthorized sha256 r a.vectorMoment).1 = .ok .backpressure ∧
      r.Crowded (s.vectorPasses.filter fun pass ↦ a.now < pass.expiresAt)
  | .accept _ => False
  | .fetch _ => False

/-! ## The frame -/

section Frame

variable {sha256 : List UInt8 → Bytes verifierLength} {s : DurableUpdateStore} {d : DocumentId}

theorem DocumentRequest.restrict_step (sha256 : List UInt8 → Bytes verifierLength)
    (s : DurableUpdateStore) (op : DocumentRequest) (a : Surroundings)
    (hne : op.documentId ≠ d) :
    (s.step sha256 (op.request a)).tables.restrict d = s.tables.restrict d := by
  rw [DurableUpdateStore.tables_step]
  cases op with
  | accept r =>
    rcases accept_spec (Prod.eta (Renee.accept sha256 s.tables r.capabilityId r.authenticator
      r.update r.encodedRecord)).symm with ⟨-, row, -, haccepted⟩ | ⟨-, heq⟩
    · exact haccepted.restrict_eq hne
    · exact congrArg (Tables.restrict · d) heq
  | grant r =>
    rcases grantCapability_spec (Prod.eta (Renee.grantCapability sha256 s.tables r)).symm with
      ⟨-, revision, hgranted⟩ | ⟨-, heq⟩
    · exact hgranted.restrict_eq hne
    · exact congrArg (Tables.restrict · d) heq
  | revoke r =>
    rcases revokeCapability_spec (Prod.eta (Renee.revokeCapability sha256 s.tables r)).symm with
      ⟨-, revision, hrevoked⟩ | ⟨-, heq⟩
    · exact hrevoked.restrict_eq hne
    · exact congrArg (Tables.restrict · d) heq
  | fetch r => rfl
  | enumerate r => rfl
  | vectorBackfill r => rfl

/-- An operation spares what is held on another document. -/
theorem DocumentRequest.spares (sha256 : List UInt8 → Bytes verifierLength) (s : DurableUpdateStore)
    (op : DocumentRequest) (a : Surroundings) (hne : op.documentId ≠ d) (channelId : ℕ)
    (c : CapabilityId) : s.spares sha256 (op.request a) channelId d c = true := by
  cases op with
  | revoke r =>
    simp only [request, DurableUpdateStore.spares, Bool.or_eq_true, decide_eq_true_eq]
    exact Or.inl (Or.inr (Ne.symm hne))
  | _ => rfl

/-- A pagination request looks at the passes that have not expired, any other operation at all. -/
def Kept {π : Type} (expiresAt : π → ℕ) (now : ℕ) (passes kept : List π) : Prop :=
  kept = passes ∨ kept = passes.filter fun pass ↦ now < expiresAt pass

theorem Kept.subset {π : Type} {expiresAt : π → ℕ} {now : ℕ} {passes kept : List π}
    (h : Kept expiresAt now passes kept) {pass : π} (hpass : pass ∈ kept) : pass ∈ passes := by
  rcases h with rfl | rfl
  · exact hpass
  · exact (List.mem_filter.mp hpass).1

/-- Either way the passes that have not expired are the same. -/
theorem Kept.unexpired {π : Type} {expiresAt : π → ℕ} {now : ℕ} {passes passes' kept : List π}
    {p : π → Bool} (h : Kept expiresAt now passes kept)
    (hperm : (passes'.filter p).Perm (kept.filter p)) :
    ((passes'.filter fun pass ↦ now < expiresAt pass).filter p).Perm
      ((passes.filter fun pass ↦ now < expiresAt pass).filter p) := by
  have hcomm : ∀ l : List π, (l.filter fun pass ↦ now < expiresAt pass).filter p =
      (l.filter p).filter fun pass ↦ now < expiresAt pass := by
    intro l
    rw [List.filter_filter, List.filter_filter]
    exact List.filter_congr fun pass _ ↦ Bool.and_comm ..
  have hkept : (kept.filter fun pass ↦ now < expiresAt pass) =
      passes.filter fun pass ↦ now < expiresAt pass := by
    rcases h with rfl | rfl
    · rfl
    · rw [List.filter_filter]
      exact List.filter_congr fun pass _ ↦ Bool.and_self _
  rw [hcomm, ← hkept, hcomm]
  exact hperm.filter _

theorem filter_spared_of_ne {π : Type} {passes : List π} {p q : π → Bool}
    (h : ∀ pass, q pass = true → p pass = true) : (passes.filter p).filter q = passes.filter q := by
  rw [List.filter_filter]
  refine List.filter_congr fun pass _ ↦ ?_
  cases hq : q pass with
  | false => rfl
  | true => rw [h pass hq]; rfl

theorem DocumentRequest.enumerationPasses_of_ne (sha256 : List UInt8 → Bytes verifierLength)
    (s : DurableUpdateStore) (op : DocumentRequest) (a : Surroundings)
    (hne : op.documentId ≠ d) : ∃ kept,
      Kept EnumerationPass.expiresAt a.now s.enumerationPasses kept ∧
      ((s.step sha256 (op.request a)).enumerationPasses.filter (EnumerationPass.isOf d)).Perm
        (kept.filter (EnumerationPass.isOf d)) := by
  by_cases hop : ∃ r, op = .enumerate r
  · obtain ⟨r, rfl⟩ := hop
    rcases DurableUpdateStore.enumerate_step sha256 s r a.enumerationMoment with
      ⟨result, -, -, he⟩ | ⟨-, -, result, passes, he, heffect⟩
    · refine ⟨_, Or.inl rfl, List.Perm.of_eq ?_⟩
      rw [request, DurableUpdateStore.step_eq he]
    · refine ⟨_, Or.inr rfl, ?_⟩
      rw [request, DurableUpdateStore.step_eq he]
      exact heffect.perm_of_ne hne
  · have hother : ∀ r m, op.request a ≠ .enumerate r m := by
      cases op with
      | enumerate r => exact absurd ⟨r, rfl⟩ hop
      | _ => exact fun _ _ h ↦ nomatch h
    refine ⟨_, Or.inl rfl, List.Perm.of_eq ?_⟩
    rw [DurableUpdateStore.enumerationPasses_step hother]
    refine filter_spared_of_ne fun pass hpass ↦ ?_
    rw [of_decide_eq_true hpass]
    exact op.spares sha256 s a hne _ _

theorem DocumentRequest.vectorPasses_of_ne (sha256 : List UInt8 → Bytes verifierLength)
    (s : DurableUpdateStore) (op : DocumentRequest) (a : Surroundings)
    (hne : op.documentId ≠ d) : ∃ kept,
      Kept VectorBackfillPass.expiresAt a.now s.vectorPasses kept ∧
      ((s.step sha256 (op.request a)).vectorPasses.filter (VectorBackfillPass.isOf d)).Perm
        (kept.filter (VectorBackfillPass.isOf d)) := by
  by_cases hop : ∃ r, op = .vectorBackfill r
  · obtain ⟨r, rfl⟩ := hop
    rcases DurableUpdateStore.vectorBackfill_step sha256 s r a.vectorMoment with
      ⟨result, -, -, he⟩ | ⟨-, -, result, passes, he, heffect⟩
    · refine ⟨_, Or.inl rfl, List.Perm.of_eq ?_⟩
      rw [request, DurableUpdateStore.step_eq he]
    · refine ⟨_, Or.inr rfl, ?_⟩
      rw [request, DurableUpdateStore.step_eq he]
      exact heffect.perm_of_ne hne
  · have hother : ∀ r m, op.request a ≠ .vectorBackfill r m := by
      cases op with
      | vectorBackfill r => exact absurd ⟨r, rfl⟩ hop
      | _ => exact fun _ _ h ↦ nomatch h
    refine ⟨_, Or.inl rfl, List.Perm.of_eq ?_⟩
    rw [DurableUpdateStore.vectorPasses_step hother]
    refine filter_spared_of_ne fun pass hpass ↦ ?_
    rw [of_decide_eq_true hpass]
    exact op.spares sha256 s a hne _ _

end Frame

/-! ## Subscriptions -/

namespace UpdateSubscriptionRegistry

variable {registry registry' : UpdateSubscriptionRegistry} {entry : SubscriptionEntry}
  {closure : SubscriptionEntry → SubscriptionCell → Bool × SubscriptionCell}

/-- A pass over the registry that keeps an active subscription as it is. -/
theorem activeEntry_retain (hw : registry.WellFormed)
    (hlive : (registry.retain closure).Live entry → registry.Live entry)
    (h : registry.ActiveEntry entry → closure entry (registry.cells entry.subscriptionId) =
      (true, registry.cells entry.subscriptionId)) :
    ((registry.retain closure).ActiveEntry entry ↔ registry.ActiveEntry entry) ∧
      (registry.ActiveEntry entry → (registry.retain closure).cells entry.subscriptionId =
        registry.cells entry.subscriptionId) := by
  have hcells : registry.ActiveEntry entry → (registry.retain closure).cells entry.subscriptionId =
      registry.cells entry.subscriptionId := fun hactive ↦ by
    rw [cells_retain_of_mem hw hactive.live.mem, h hactive]
  refine ⟨⟨fun hactive ↦ ⟨hlive hactive.live, hactive.alive⟩, fun hactive ↦ ⟨⟨?_, ?_⟩,
    hactive.alive⟩⟩, hcells⟩
  · exact (mem_retain hw).mpr ⟨hactive.live.mem, by rw [h hactive]⟩
  · rw [hcells hactive]
    exact hactive.live.active

/-- A notification concerns the subscriptions of its document. -/
theorem activeEntry_notify {d : DocumentId} (hw : registry.WellFormed) (u : UpdateId)
    (hne : entry.documentId ≠ d) :
    ((registry.notify d u).ActiveEntry entry ↔ registry.ActiveEntry entry) ∧
      (registry.ActiveEntry entry → (registry.notify d u).cells entry.subscriptionId =
        registry.cells entry.subscriptionId) := by
  refine activeEntry_retain hw (live_notify hw) fun hactive ↦ ?_
  have hstate := hactive.live.active
  simp only [notifyEntry, hstate, hactive.alive, ne_eq, not_true_eq_false, if_false, Bool.not_true,
    Bool.false_eq_true, hne, not_false_eq_true, if_true]

/-- An invalidation concerns the subscriptions it picks out. -/
theorem activeEntry_invalidateWhere (hw : registry.WellFormed) {p : SubscriptionEntry → Bool}
    {reason : UpdateSubscriptionEnd} (hp : registry.ActiveEntry entry → p entry = false) :
    ((registry.invalidateWhere p reason).ActiveEntry entry ↔ registry.ActiveEntry entry) ∧
      (registry.ActiveEntry entry → (registry.invalidateWhere p reason).cells entry.subscriptionId =
        registry.cells entry.subscriptionId) := by
  refine activeEntry_retain hw (fun hlive ↦ ((live_invalidateWhere_iff hw).mp hlive).1)
    fun hactive ↦ ?_
  rw [hp hactive]
  rfl

end UpdateSubscriptionRegistry

section Frame

variable {sha256 : List UInt8 → Bytes verifierLength} {s : DurableUpdateStore} {d : DocumentId}

theorem DocumentRequest.activeEntry_of_ne (hw : s.subscriptions.WellFormed) (op : DocumentRequest)
    (a : Surroundings) {entry : SubscriptionEntry} (hne : op.documentId ≠ entry.documentId) :
    ((s.step sha256 (op.request a)).subscriptions.ActiveEntry entry ↔
        s.subscriptions.ActiveEntry entry) ∧
      (s.subscriptions.ActiveEntry entry →
        (s.step sha256 (op.request a)).subscriptions.cells entry.subscriptionId =
          s.subscriptions.cells entry.subscriptionId) := by
  have hsame : ∀ s' : DurableUpdateStore, s'.subscriptions = s.subscriptions →
      (s'.subscriptions.ActiveEntry entry ↔ s.subscriptions.ActiveEntry entry) ∧
        (s.subscriptions.ActiveEntry entry → s'.subscriptions.cells entry.subscriptionId =
          s.subscriptions.cells entry.subscriptionId) :=
    fun s' h ↦ by rw [h]; exact ⟨Iff.rfl, fun _ ↦ rfl⟩
  cases op with
  | accept r =>
    simp only [request, DurableUpdateStore.step, DurableUpdateStore.execute,
      DurableUpdateStore.accept]
    split
    · exact UpdateSubscriptionRegistry.activeEntry_notify hw _ (Ne.symm hne)
    · exact hsame _ rfl
  | revoke r =>
    simp only [request, DurableUpdateStore.step, DurableUpdateStore.execute,
      DurableUpdateStore.revokeCapability]
    split
    · refine UpdateSubscriptionRegistry.activeEntry_invalidateWhere hw fun hactive ↦ ?_
      refine Bool.eq_false_iff.mpr fun hmem ↦ hne ?_
      exact ((DurableUpdateStore.mem_revokedSubscriptionIds hw hactive.live hactive.alive).mp
        (List.contains_iff_mem.mp hmem)).1.symm
    · exact hsame _ rfl
  | grant r => exact hsame _ rfl
  | fetch r => exact hsame _ rfl
  | enumerate r =>
    rcases DurableUpdateStore.enumerate_step sha256 s r a.enumerationMoment with
      ⟨_, -, -, he⟩ | ⟨-, -, _, _, he, -⟩ <;>
    · rw [request, DurableUpdateStore.step_eq he]
      exact hsame _ rfl
  | vectorBackfill r =>
    rcases DurableUpdateStore.vectorBackfill_step sha256 s r a.vectorMoment with
      ⟨_, -, -, he⟩ | ⟨-, -, _, _, he, -⟩ <;>
    · rw [request, DurableUpdateStore.step_eq he]
      exact hsame _ rfl

/-- **An operation on one document changes nothing that another can tell.** -/
theorem DocumentRequest.undisturbed (hw : s.subscriptions.WellFormed) (op : DocumentRequest)
    (a : Surroundings) (hne : op.documentId ≠ d) :
    s.Undisturbed (s.step sha256 (op.request a)) a.now d := by
  obtain ⟨kept, hkept, hperm⟩ := op.enumerationPasses_of_ne sha256 s a hne
  obtain ⟨kept', hkept', hperm'⟩ := op.vectorPasses_of_ne sha256 s a hne
  exact {
    tables := op.restrict_step sha256 s a hne
    enumerationPasses := hkept.unexpired hperm
    vectorPasses := hkept'.unexpired hperm'
    enumerationOld := fun pass hpass hd ↦ hkept.subset (List.mem_filter.mp (hperm.mem_iff.mp
      (List.mem_filter.mpr ⟨hpass, decide_eq_true hd⟩))).1
    vectorOld := fun pass hpass hd ↦ hkept'.subset (List.mem_filter.mp (hperm'.mem_iff.mp
      (List.mem_filter.mpr ⟨hpass, decide_eq_true hd⟩))).1
    subscriptions := fun entry hd ↦ (op.activeEntry_of_ne hw a (hd ▸ hne)).1
    cells := fun entry hd ↦ (op.activeEntry_of_ne hw a (hd ▸ hne)).2 }

end Frame

/-! ## Locality -/

namespace DurableUpdateStore

/-- A document sees the same of two stores, at readings of the clock. -/
structure SeesSame (s : DurableUpdateStore) (now : ℕ) (s' : DurableUpdateStore) (now' : ℕ)
    (d : DocumentId) : Prop where
  tables : s.tables.restrict d = s'.tables.restrict d
  broker : s.subscriptions.broker = s'.subscriptions.broker
  generation : s.generation = s'.generation
  enumerationPasses : (s.enumerationPassesOf now d).Perm (s'.enumerationPassesOf now' d)
  vectorPasses : (s.vectorPassesOf now d).Perm (s'.vectorPassesOf now' d)

theorem SeesSame.recognizes {s s' : DurableUpdateStore} {now now' : ℕ} {d : DocumentId}
    (h : s.SeesSame now s' now' d) (channel : BrokerChannel) :
    s.subscriptions.recognizes channel = s'.subscriptions.recognizes channel := by
  simp only [UpdateSubscriptionRegistry.recognizes, h.broker]

/-- The invariants that isolation rests on. -/
structure InOrder (s : DurableUpdateStore) : Prop where
  tables : WellFormed s.tables
  registry : s.subscriptions.WellFormed
  enumeration : EnumerationPassesWellFormed s.enumerationPasses
  vector : VectorPassesWellFormed s.vectorPasses

theorem inOrder_run (sha256 : List UInt8 → Bytes verifierLength) (requests : List Request) :
    (initial.run sha256 requests).InOrder where
  tables := wellFormed_runRequests wellFormed_initial requests
  registry := run_induction (P := fun s ↦ s.subscriptions.WellFormed)
    (fun _ request _ h ↦ registry_step h request) wellFormed_initial
    (UpdateSubscriptionRegistry.wellFormed_new 0) requests
  enumeration := (passesWellFormed_run sha256 requests).enumeration
  vector := (passesWellFormed_run sha256 requests).vector

end DurableUpdateStore

section Locality

variable {sha256 : List UInt8 → Bytes verifierLength} {s s' : DurableUpdateStore}
  {a a' : Surroundings}

theorem authorizeDocument_congr {t t' : Tables} {d : DocumentId}
    (h : t.restrict d = t'.restrict d) (c : CapabilityId) (a : Authenticator)
    (operation : Operation) : authorizeDocument sha256 t d c a operation =
      authorizeDocument sha256 t' d c a operation := by
  rw [← authorizeDocument_restrict, h, authorizeDocument_restrict]

/-- What an accept answers and leaves to its document. -/
theorem DocumentRequest.local_accept {r : AcceptCommand}
    (h : s.tables.restrict r.update.documentId = s'.tables.restrict r.update.documentId) :
    (s.accept sha256 r).1 = (s'.accept sha256 r).1 ∧
      (s.step sha256 (.accept r)).tables.restrict r.update.documentId =
        (s'.step sha256 (.accept r)).tables.restrict r.update.documentId := by
  have hfst : ∀ s : DurableUpdateStore, (s.accept sha256 r).1 = (Renee.accept sha256 s.tables
      r.capabilityId r.authenticator r.update r.encodedRecord).1 := by
    intro s
    simp only [DurableUpdateStore.accept]
    split <;> rfl
  have hlocal := @accept_restrict sha256 s.tables r.capabilityId r.authenticator r.update
    r.encodedRecord
  rw [h, accept_restrict, Prod.mk_inj] at hlocal
  rw [hfst, hfst, DurableUpdateStore.tables_step, DurableUpdateStore.tables_step]
  exact ⟨hlocal.1.symm, hlocal.2.symm⟩

theorem DocumentRequest.local_grant {r : GrantCommand}
    (h : s.tables.restrict r.documentId = s'.tables.restrict r.documentId)
    (hbound : ¬r.Bounded sha256 s.tables) (hbound' : ¬r.Bounded sha256 s'.tables) :
    (s.grantCapability sha256 r).1 = (s'.grantCapability sha256 r).1 ∧
      (s.step sha256 (.grant r)).tables.restrict r.documentId =
        (s'.step sha256 (.grant r)).tables.restrict r.documentId := by
  have hlocal := grantCapability_restrict hbound
  rw [h, grantCapability_restrict hbound', Prod.mk_inj] at hlocal
  exact ⟨hlocal.1.symm, hlocal.2.symm⟩

theorem DocumentRequest.local_revoke {r : RevokeCommand} (hw : WellFormed s.tables)
    (hw' : WellFormed s'.tables)
    (h : s.tables.restrict r.documentId = s'.tables.restrict r.documentId)
    (hbound : ¬r.Bounded sha256 s.tables) (hbound' : ¬r.Bounded sha256 s'.tables) :
    (s.revokeCapability sha256 r).1 = (s'.revokeCapability sha256 r).1 ∧
      (s.step sha256 (.revoke r)).tables.restrict r.documentId =
        (s'.step sha256 (.revoke r)).tables.restrict r.documentId := by
  have hlocal := revokeCapability_restrict (hw.control.forest r.documentId) hbound
  rw [h, revokeCapability_restrict (hw'.control.forest r.documentId) hbound', Prod.mk_inj]
    at hlocal
  rw [DurableUpdateStore.revokeCapability_fst, DurableUpdateStore.revokeCapability_fst,
    DurableUpdateStore.tables_step, DurableUpdateStore.tables_step]
  exact ⟨hlocal.1.symm, hlocal.2.symm⟩

/-- The answer to a request for a page: passes are looked at for a channel that is recognized and a
capability that may read. -/
def DurableUpdateStore.admitted {ρ : Type} (recognizes : Bool)
    (authorization : DocumentAuthorization) (denied retired answer : ρ) : ρ :=
  if !recognizes then denied
  else match authorization with
  | .denied => denied
  | .retired => retired
  | .authorized => answer

theorem DurableUpdateStore.enumerateAuthorized_fst (s : DurableUpdateStore) (r : EnumerateRequest)
    (m : Moment enumerationContinuationLength) : (s.enumerateAuthorized sha256 r m).1 =
      admitted (s.subscriptions.recognizes r.channel)
        (authorizeDocument sha256 s.tables r.documentId r.capabilityId r.authenticator .read)
        (.ok .authorizationDenied) (.ok .retiredDocument)
        (enumeratePasses s.tables s.generation r m
          (s.enumerationPasses.filter fun pass ↦ m.now < pass.expiresAt)).1 := by
  rw [enumerateAuthorized, admitted.eq_def]
  split
  · rfl
  · cases authorizeDocument sha256 s.tables r.documentId r.capabilityId r.authenticator
      .read <;> rfl

theorem DurableUpdateStore.vectorBackfillAuthorized_fst (s : DurableUpdateStore)
    (r : VectorBackfillRequest) (m : Moment vectorContinuationLength) :
    (s.vectorBackfillAuthorized sha256 r m).1 =
      admitted (s.subscriptions.recognizes r.channel)
        (authorizeDocument sha256 s.tables r.documentId r.capabilityId r.authenticator .read)
        (.ok .authorizationDenied) (.ok .retiredDocument)
        (vectorBackfillPasses s.tables r m
          (s.vectorPasses.filter fun pass ↦ m.now < pass.expiresAt)).1 := by
  rw [vectorBackfillAuthorized, admitted.eq_def]
  split
  · rfl
  · cases authorizeDocument sha256 s.tables r.documentId r.capabilityId r.authenticator
      .read <;> rfl

/-- What does not meet a bound is answered alike where its passes answer alike. -/
theorem DurableUpdateStore.admitted_congr {ρ σ : Type} {f : ρ → σ} {recognizes : Bool}
    {authorization : DocumentAuthorization} {denied retired answer answer' busy : ρ}
    {crowded crowded' : Prop}
    (h : (answer = busy → ¬crowded) → (answer' = busy → ¬crowded') → f answer = f answer')
    (hbound : ¬(admitted recognizes authorization denied retired answer = busy ∧ crowded))
    (hbound' : ¬(admitted recognizes authorization denied retired answer' = busy ∧ crowded')) :
    f (admitted recognizes authorization denied retired answer) =
      f (admitted recognizes authorization denied retired answer') := by
  cases recognizes with
  | false => rfl
  | true =>
    cases authorization with
    | denied | retired => rfl
    | authorized => exact h (not_and.mp hbound) (not_and.mp hbound')

theorem DocumentRequest.local_enumerate {r : EnumerateRequest} (hs : s.InOrder) (hs' : s'.InOrder)
    (h : s.SeesSame a.now s' a'.now r.documentId)
    (hbound : ¬(DocumentRequest.enumerate r).MeetsBound sha256 s a)
    (hbound' : ¬(DocumentRequest.enumerate r).MeetsBound sha256 s' a')
    (hprovided : s.Provided a) (hprovided' : s'.Provided a') :
    (s.enumerateAuthorized sha256 r a.enumerationMoment).1.map StoreEnumerateOutcome.withoutToken =
      (s'.enumerateAuthorized sha256 r a'.enumerationMoment).1.map
        StoreEnumerateOutcome.withoutToken := by
  have halike : r.Alike s'.generation a.enumerationMoment a'.enumerationMoment
      (s.enumerationPasses.filter fun pass ↦ a.now < pass.expiresAt)
      (s'.enumerationPasses.filter fun pass ↦ a'.now < pass.expiresAt) := {
    perm := h.enumerationPasses
    wellFormed := hs.enumeration.filter _
    wellFormed' := hs'.enumeration.filter _
    unexpired := fun pass hpass ↦ of_decide_eq_true (List.mem_filter.mp hpass).2
    unexpired' := fun pass hpass ↦ of_decide_eq_true (List.mem_filter.mp hpass).2
    mint := exists_mintEnumerationToken (fun _ hpass ↦ (List.mem_filter.mp hpass).1)
      hprovided.enumeration
    mint' := exists_mintEnumerationToken (fun _ hpass ↦ (List.mem_filter.mp hpass).1)
      hprovided'.enumeration }
  rw [MeetsBound, DurableUpdateStore.enumerateAuthorized_fst] at hbound hbound'
  rw [h.recognizes, h.generation, authorizeDocument_congr h.tables] at hbound
  rw [DurableUpdateStore.enumerateAuthorized_fst, DurableUpdateStore.enumerateAuthorized_fst,
    h.recognizes, h.generation, authorizeDocument_congr h.tables]
  exact DurableUpdateStore.admitted_congr (enumeratePasses_local h.tables halike) hbound hbound'

theorem DocumentRequest.local_vectorBackfill {r : VectorBackfillRequest} (hs : s.InOrder)
    (hs' : s'.InOrder) (h : s.SeesSame a.now s' a'.now r.documentId)
    (hbound : ¬(DocumentRequest.vectorBackfill r).MeetsBound sha256 s a)
    (hbound' : ¬(DocumentRequest.vectorBackfill r).MeetsBound sha256 s' a')
    (hprovided : s.Provided a) (hprovided' : s'.Provided a') :
    (s.vectorBackfillAuthorized sha256 r a.vectorMoment).1.map
        StoreVectorBackfillOutcome.withoutToken =
      (s'.vectorBackfillAuthorized sha256 r a'.vectorMoment).1.map
        StoreVectorBackfillOutcome.withoutToken := by
  have halike : r.Alike a.vectorMoment a'.vectorMoment
      (s.vectorPasses.filter fun pass ↦ a.now < pass.expiresAt)
      (s'.vectorPasses.filter fun pass ↦ a'.now < pass.expiresAt) := {
    perm := h.vectorPasses
    wellFormed := hs.vector.filter _
    wellFormed' := hs'.vector.filter _
    unexpired := fun pass hpass ↦ of_decide_eq_true (List.mem_filter.mp hpass).2
    unexpired' := fun pass hpass ↦ of_decide_eq_true (List.mem_filter.mp hpass).2
    mint := exists_mintVectorToken (fun _ hpass ↦ (List.mem_filter.mp hpass).1) hprovided.vector
    mint' := exists_mintVectorToken (fun _ hpass ↦ (List.mem_filter.mp hpass).1)
      hprovided'.vector }
  rw [MeetsBound, DurableUpdateStore.vectorBackfillAuthorized_fst] at hbound hbound'
  rw [h.recognizes, authorizeDocument_congr h.tables] at hbound
  rw [DurableUpdateStore.vectorBackfillAuthorized_fst,
    DurableUpdateStore.vectorBackfillAuthorized_fst, h.recognizes,
    authorizeDocument_congr h.tables]
  exact DurableUpdateStore.admitted_congr (vectorBackfillPasses_local h.tables halike) hbound
    hbound'

/-- **What an operation answers, and leaves to its document, is a matter of what the document saw
before.** -/
theorem DocumentRequest.local {op : DocumentRequest} (hs : s.InOrder) (hs' : s'.InOrder)
    (h : s.SeesSame a.now s' a'.now op.documentId) (hbound : ¬op.MeetsBound sha256 s a)
    (hbound' : ¬op.MeetsBound sha256 s' a') (hprovided : s.Provided a)
    (hprovided' : s'.Provided a') :
    (s.execute sha256 (op.request a)).1.withoutToken =
        (s'.execute sha256 (op.request a')).1.withoutToken ∧
      (s.step sha256 (op.request a)).tables.restrict op.documentId =
        (s'.step sha256 (op.request a')).tables.restrict op.documentId := by
  cases op with
  | accept r =>
    obtain ⟨hreply, htables⟩ : (s.accept sha256 r).1 = (s'.accept sha256 r).1 ∧ _ :=
      local_accept h.tables
    exact ⟨congrArg Reply.accepted hreply, htables⟩
  | grant r =>
    obtain ⟨hreply, htables⟩ := local_grant h.tables hbound hbound'
    exact ⟨congrArg Reply.controlled hreply, htables⟩
  | revoke r =>
    obtain ⟨hreply, htables⟩ := local_revoke hs.tables hs'.tables h.tables hbound hbound'
    exact ⟨congrArg Reply.controlled hreply, htables⟩
  | fetch r =>
    refine ⟨congrArg Reply.fetched ?_, h.tables⟩
    have hlocal := fetchAuthorized_restrict sha256 s.tables r.documentId r.updateId r.capabilityId
      r.authenticator
    have htables : s.tables.restrict r.documentId = s'.tables.restrict r.documentId := h.tables
    rw [htables, fetchAuthorized_restrict] at hlocal
    exact hlocal.symm
  | enumerate r =>
    refine ⟨congrArg Reply.enumerated
      (local_enumerate hs hs' h hbound hbound' hprovided hprovided'), ?_⟩
    rw [DurableUpdateStore.tables_step, DurableUpdateStore.tables_step]
    exact h.tables
  | vectorBackfill r =>
    refine ⟨congrArg Reply.backfilled
      (local_vectorBackfill hs hs' h hbound hbound' hprovided hprovided'), ?_⟩
    rw [DurableUpdateStore.tables_step, DurableUpdateStore.tables_step]
    exact h.tables

end Locality

/-! ## Either order -/

section Exchange

variable {sha256 : List UInt8 → Bytes verifierLength} {s : DurableUpdateStore}

/-- No operation reopens the store. -/
theorem DocumentRequest.request_ne_reopen (op : DocumentRequest) (a : Surroundings)
    (provision : CreateAuthorityProvision) (generation : StoreGeneration) (broker : ℕ) :
    op.request a ≠ .reopen provision generation broker := by
  cases op <;> simp [request]

/-- After an operation on another document, a document sees what it saw before. -/
theorem DocumentRequest.seesSame (hs : s.InOrder) (op : DocumentRequest) {a b a' : Surroundings}
    {d : DocumentId} (hne : op.documentId ≠ d) (hab : s.Simultaneous d a.now b.now)
    (hba' : s.Simultaneous d b.now a'.now) :
    s.SeesSame a.now (s.step sha256 (op.request b)) a'.now d := by
  have h : s.Undisturbed (s.step sha256 (op.request b)) b.now d :=
    op.undisturbed hs.registry b hne
  -- whatever the reading of the clock, the same passes of the document have not expired
  have hfilter : ∀ {π : Type} {passes : List π} {expiresAt : π → ℕ} {document : π → DocumentId}
      {now now' : ℕ}, (∀ pass ∈ passes, document pass = d →
        (now < expiresAt pass ↔ now' < expiresAt pass)) →
      (passes.filter fun pass ↦ now < expiresAt pass).filter (fun pass ↦ document pass = d) =
        (passes.filter fun pass ↦ now' < expiresAt pass).filter fun pass ↦ document pass = d := by
    intro π passes expiresAt document now now' hsame
    rw [List.filter_filter, List.filter_filter]
    refine List.filter_congr fun pass hpass ↦ ?_
    by_cases hd : document pass = d
    · rw [decide_eq_decide.mpr (hsame pass hpass hd)]
    · rw [decide_eq_false hd, Bool.false_and, Bool.false_and]
  refine ⟨h.tables.symm, (s.broker_step (op.request_ne_reopen b)).symm,
    (s.generation_step (op.request_ne_reopen b)).symm, ?_, ?_⟩
  · have hbefore : s.enumerationPassesOf a.now d = s.enumerationPassesOf b.now d :=
      hfilter fun pass hpass hd ↦ hab.enumeration pass hpass hd
    have hafter : (s.step sha256 (op.request b)).enumerationPassesOf b.now d =
        (s.step sha256 (op.request b)).enumerationPassesOf a'.now d :=
      hfilter fun pass hpass hd ↦ hba'.enumeration pass (h.enumerationOld pass hpass hd) hd
    rw [hbefore, ← hafter]
    exact h.enumerationPasses.symm
  · have hbefore : s.vectorPassesOf a.now d = s.vectorPassesOf b.now d :=
      hfilter fun pass hpass hd ↦ hab.vector pass hpass hd
    have hafter : (s.step sha256 (op.request b)).vectorPassesOf b.now d =
        (s.step sha256 (op.request b)).vectorPassesOf a'.now d :=
      hfilter fun pass hpass hd ↦ hba'.vector pass (h.vectorOld pass hpass hd) hd
    rw [hbefore, ← hafter]
    exact h.vectorPasses.symm

/-- Tables of which every document sees the same have the same rows. -/
theorem Tables.sameRows_of_restrict {t t' : Tables} (d₀ : DocumentId)
    (h : ∀ d, t.restrict d = t'.restrict d) : t.SameRows t' := by
  have hperm : ∀ {ρ κ : Type} [Keyed ρ κ] (table table' : Table ρ) (document : ρ → DocumentId),
      (∀ d, (table.filter fun row ↦ document row = d) =
        table'.filter fun row ↦ document row = d) → table.rows.Perm table'.rows := by
    intro ρ κ _ table table' document hsame
    refine (List.perm_ext_iff_of_nodup table.nodup_rows table'.nodup_rows).mpr fun row ↦ ?_
    have hrows := congrArg Table.rows (hsame (document row))
    rw [Table.rows_filter, Table.rows_filter] at hrows
    have hmem : row ∈ table.rows.filter (fun other ↦ document other = document row) ↔
        row ∈ table'.rows.filter fun other ↦ document other = document row := by rw [hrows]
    simpa only [List.mem_filter, decide_true, and_true] using hmem
  exact {
    createAuthorities := List.Perm.of_eq (congrArg (fun t ↦ t.createAuthorities.rows) (h d₀))
    documents := hperm _ _ _ fun d ↦ congrArg documents (h d)
    capabilities := hperm _ _ _ fun d ↦ congrArg capabilities (h d)
    capabilityOperations := hperm _ _ _ fun d ↦ congrArg capabilityOperations (h d)
    controlReceipts := hperm _ _ _ fun d ↦ congrArg controlReceipts (h d)
    createReceipts := hperm _ _ _ fun d ↦ congrArg createReceipts (h d)
    documentAcceptanceSequences := hperm _ _ _ fun d ↦ congrArg documentAcceptanceSequences (h d)
    updates := hperm _ _ _ fun d ↦ congrArg updates (h d)
    updateLoroRanges := hperm _ _ _ fun d ↦ congrArg updateLoroRanges (h d)
    documentLoroPeers := hperm _ _ _ fun d ↦ congrArg documentLoroPeers (h d) }

end Exchange

/-- Two operations are carried out in either order: the first one and then the second in `a₁` and
`a₂`, the second one and then the first in `b₂` and `b₁`. -/
structure DurableUpdateStore.EitherOrder (sha256 : List UInt8 → Bytes verifierLength)
    (s : DurableUpdateStore) (op₁ op₂ : DocumentRequest) (a₁ a₂ b₁ b₂ : Surroundings) : Prop where
  /-- Neither meets a bound on the whole store or on its channel, -/
  first : ¬op₁.MeetsBound sha256 s a₁
  second : ¬op₂.MeetsBound sha256 (s.step sha256 (op₁.request a₁)) a₂
  first' : ¬op₁.MeetsBound sha256 (s.step sha256 (op₂.request b₂)) b₁
  second' : ¬op₂.MeetsBound sha256 s b₂
  /-- the random source does its work, -/
  provided₁ : s.Provided a₁
  provided₂ : (s.step sha256 (op₁.request a₁)).Provided a₂
  provided₁' : (s.step sha256 (op₂.request b₂)).Provided b₁
  provided₂' : s.Provided b₂
  /-- and no pass of their documents expires meanwhile. -/
  simultaneous : ∀ d ∈ [op₁.documentId, op₂.documentId],
    ∀ x ∈ [a₁, a₂, b₁, b₂], ∀ y ∈ [a₁, a₂, b₁, b₂], s.Simultaneous d x.now y.now

/-- **Documents are isolated.**  In every reachable store, an operation on one document changes
nothing that another can tell; and of two operations on different documents, each answers the same
in either order, up to the values of tokens, and the rows they leave are the same. -/
theorem documents_isolated (sha256 : List UInt8 → Bytes verifierLength) (requests : List Request) :
    (∀ (op : DocumentRequest) (a : Surroundings) (d : DocumentId), op.documentId ≠ d →
      (DurableUpdateStore.initial.run sha256 requests).Undisturbed
        ((DurableUpdateStore.initial.run sha256 requests).step sha256 (op.request a)) a.now d) ∧
    ∀ (op₁ op₂ : DocumentRequest) (a₁ a₂ b₁ b₂ : Surroundings),
      op₁.documentId ≠ op₂.documentId →
      (DurableUpdateStore.initial.run sha256 requests).EitherOrder sha256 op₁ op₂ a₁ a₂ b₁ b₂ →
      let s := DurableUpdateStore.initial.run sha256 requests
      let s₁ := s.step sha256 (op₁.request a₁)
      let s₂ := s.step sha256 (op₂.request b₂)
      (s.execute sha256 (op₁.request a₁)).1.withoutToken =
          (s₂.execute sha256 (op₁.request b₁)).1.withoutToken ∧
        (s₁.execute sha256 (op₂.request a₂)).1.withoutToken =
          (s.execute sha256 (op₂.request b₂)).1.withoutToken ∧
        (s₁.step sha256 (op₂.request a₂)).tables.SameRows
          (s₂.step sha256 (op₁.request b₁)).tables := by
  have hs := DurableUpdateStore.inOrder_run sha256 requests
  refine ⟨fun op a d hne ↦ op.undisturbed hs.registry a hne, ?_⟩
  intro op₁ op₂ a₁ a₂ b₁ b₂ hne h s s₁ s₂
  have hstep : ∀ request, (s.step sha256 request).InOrder := fun request ↦ by
    have hrun := DurableUpdateStore.inOrder_run sha256 (requests ++ [request])
    rwa [DurableUpdateStore.run_concat] at hrun
  have hs₁ : s₁.InOrder := hstep _
  have hs₂ : s₂.InOrder := hstep _
  -- either operation finds its document as if the other had not been there
  have hsame₁ : s.SeesSame a₁.now s₂ b₁.now op₁.documentId :=
    op₂.seesSame hs hne.symm (h.simultaneous _ (by simp) _ (by simp) _ (by simp))
      (h.simultaneous _ (by simp) _ (by simp) _ (by simp))
  have hsame₂ : s.SeesSame b₂.now s₁ a₂.now op₂.documentId :=
    op₁.seesSame hs hne (h.simultaneous _ (by simp) _ (by simp) _ (by simp))
      (h.simultaneous _ (by simp) _ (by simp) _ (by simp))
  obtain ⟨hreply₁, htables₁⟩ := DocumentRequest.local hs hs₂ hsame₁ h.first h.first' h.provided₁
    h.provided₁'
  obtain ⟨hreply₂, htables₂⟩ := DocumentRequest.local hs hs₁ hsame₂ h.second' h.second h.provided₂'
    h.provided₂
  refine ⟨hreply₁, hreply₂.symm, Tables.sameRows_of_restrict op₁.documentId fun d ↦ ?_⟩
  by_cases hd₁ : op₁.documentId = d
  · subst hd₁
    exact (op₂.restrict_step sha256 s₁ a₂ hne.symm).trans htables₁
  by_cases hd₂ : op₂.documentId = d
  · subst hd₂
    exact htables₂.symm.trans (op₁.restrict_step sha256 s₂ b₁ hne).symm
  · calc (s₁.step sha256 (op₂.request a₂)).tables.restrict d
        = s₁.tables.restrict d := op₂.restrict_step sha256 s₁ a₂ hd₂
      _ = s.tables.restrict d := op₁.restrict_step sha256 s a₁ hd₁
      _ = s₂.tables.restrict d := (op₂.restrict_step sha256 s b₂ hd₂).symm
      _ = (s₂.step sha256 (op₁.request b₁)).tables.restrict d :=
        (op₁.restrict_step sha256 s₂ b₁ hd₁).symm

/-! ## Two documents with the same secrets -/

namespace Sample

def twoDocuments : List Request :=
  [.reopen provision (bytes _ 9) 1, .create create, .create otherCreate]

def quiet : Surroundings := ⟨0, 0, fun _ ↦ some (bytes _ 1), fun _ ↦ some (bytes _ 1)⟩

end Sample

open DurableUpdateStore in
/-- Two equal grants on the two documents are both carried out, in either order. -/
theorem documents_isolated_sample :
    ((initial.run Sample.sha256 Sample.twoDocuments).execute Sample.sha256
        (.grant Sample.grant)).1.withoutToken =
      (((initial.run Sample.sha256 Sample.twoDocuments).step Sample.sha256
        (.grant Sample.otherGrant)).execute Sample.sha256
          (.grant Sample.grant)).1.withoutToken := by
  have hs : (initial.run Sample.sha256 Sample.twoDocuments).enumerationPasses = [] ∧
      (initial.run Sample.sha256 Sample.twoDocuments).vectorPasses = [] := ⟨rfl, rfl⟩
  have hprovided : ∀ s : DurableUpdateStore, s.enumerationPasses = [] → s.vectorPasses = [] →
      s.Provided Sample.quiet := fun s he hv ↦
    ⟨⟨Sample.bytes _ 1, by rw [he]; rfl⟩, ⟨Sample.bytes _ 1, by rw [hv]; rfl⟩⟩
  have hgrant : ∀ (s : DurableUpdateStore) (r : GrantCommand),
      (s.step Sample.sha256 (.grant r)).enumerationPasses = s.enumerationPasses ∧
        (s.step Sample.sha256 (.grant r)).vectorPasses = s.vectorPasses := fun _ _ ↦ ⟨rfl, rfl⟩
  refine ((documents_isolated Sample.sha256 Sample.twoDocuments).2 (.grant Sample.grant)
    (.grant Sample.otherGrant) Sample.quiet Sample.quiet Sample.quiet Sample.quiet (by decide)
    { first := ?_, second := ?_, first' := ?_, second' := ?_, provided₁ := ?_, provided₂ := ?_,
      provided₁' := ?_, provided₂' := ?_, simultaneous := ?_ }).1
  · exact fun h ↦ absurd h.2 (by decide +kernel)
  · exact fun h ↦ absurd h.2 (by decide +kernel)
  · exact fun h ↦ absurd h.2 (by decide +kernel)
  · exact fun h ↦ absurd h.2 (by decide +kernel)
  · exact hprovided _ hs.1 hs.2
  · exact hprovided _ ((hgrant _ _).1.trans hs.1) ((hgrant _ _).2.trans hs.2)
  · exact hprovided _ ((hgrant _ _).1.trans hs.1) ((hgrant _ _).2.trans hs.2)
  · exact hprovided _ hs.1 hs.2
  · exact fun _ _ _ _ _ _ ↦ ⟨fun pass hpass ↦ absurd (hs.1 ▸ hpass) List.not_mem_nil,
      fun pass hpass ↦ absurd (hs.2 ▸ hpass) List.not_mem_nil⟩

end Renee
