import Renee.Store.EnumerationReader
import Renee.Subscription.Reporting

/-!
# The store among the users of its subscriptions

`Renee.Store.Broker` takes every request as one step, with the subscriptions inside the store.  Here
the store is behind its mutex, and the subscriptions are those of a `RegistrySystem`: what the
database does for a request is one step, and what the registry does for it are the accesses that
follow, with the receivers and the owners of the channels in between.

* `registryCall?` is what a request asks of the registry once the database has done its part.
* A revocation asks the registry first which subscriptions are active (`contextsProgram`), while it
  has the mutex; only then does it commit, and ends those that it has found below its target.
* `SharedStore.step` is the system.  `SharedStore.step_spec` says what a step can do.
* `SharedStore.InOrder` holds after every run: the store has carried out what it has served, the
  registry is in a state that it reaches by itself, and the store's own list of subscriptions is
  empty.
-/

set_option autoImplicit false

namespace Renee

open ByteString Interference

/-! ## What the registry does for a request -/

namespace SharedProgram

/-- The condition of `contexts`. -/
def contextsEntry (d : DocumentId) (entry : SubscriptionEntry) : SharedProgram Bool := do
  if entry.documentId ≠ d then
    return false
  if (← load entry.subscriptionId) ≠ active then
    return false
  upgrade entry.channelId

end SharedProgram

/-- `contexts`. -/
def contextsProgram (fields : RegistryFields) (d : DocumentId) :
    SharedProgram (List SubscriptionEntry) :=
  Program.filter (SharedProgram.contextsEntry d) fields.subscriptions

namespace DurableUpdateStore

section Hash

variable (sha256 : List UInt8 → Bytes verifierLength)

/-- What a request asks of the registry, once the database has done its part. -/
def registryCall? (s : DurableUpdateStore) : Request → Option RegistryCall
  | .accept r =>
    if (s.accept sha256 r).1 = .ok .inserted then
      some (.notify r.update.documentId r.update.updateId)
    else none
  | .subscribe r =>
    if s.subscriptions.recognizes r.channel &&
        authorize sha256 s.tables r.documentId r.capabilityId r.authenticator .read then
      some (.register r.channel r.documentId r.capabilityId)
    else none
  | .openChannel => some .openChannel
  | .closeChannel channel =>
    if s.subscriptions.recognizes channel then some (.closeChannel channel) else none
  | .publishRetirement d =>
    if (s.tables.document? d).any DocumentRow.retired then some (.invalidateDocument d .retired)
    else none
  | _ => none

end Hash

end DurableUpdateStore

/-! ## The system -/

/-- The store behind its mutex, with the registry among its users. -/
structure SharedStore where
  store : DurableUpdateStore
  registry : RegistrySystem
  /-- A revocation that asks which subscriptions are active. -/
  revoking : Option (RevokeCommand × SharedProgram (List SubscriptionEntry))
  /-- What has changed the store, oldest first. -/
  served : List Request

/-- What happens next. -/
inductive SharedAction
  /-- A request takes the mutex. -/
  | request (request : Request)
  /-- The next access of the request that has the mutex. -/
  | work
  /-- The users of the subscriptions and of the channels do something. -/
  | user (action : RegistryAction)

/-- An action that takes no mutex. -/
def RegistryAction.byUser : RegistryAction → Bool
  | .call _ | .work => false
  | _ => true

namespace SharedStore

/-- The registry is called. -/
def call (t : SharedStore) (call : RegistryCall) : Option SharedStore :=
  (t.registry.step (.call call)).map fun registry ↦ { t with registry }

/-- The subscriptions that a revocation ends, of those it has found active. -/
def revokedIds (t : SharedStore) (r : RevokeCommand) (entries : List SubscriptionEntry) : List ℕ :=
  (entries.filter fun entry ↦ isDescendantOrSelf t.store.tables r.documentId r.targetCapabilityId
    entry.capabilityId).map SubscriptionEntry.subscriptionId

section Hash

variable (sha256 : List UInt8 → Bytes verifierLength)

/-- The store does its part of a request. -/
def serve (t : SharedStore) (request : Request) : SharedStore :=
  { t with store := t.store.step sha256 request, served := t.served ++ [request] }

/-- A revocation goes on asking, or commits and ends what it has found below its target. -/
def revoke (t : SharedStore) (r : RevokeCommand) :
    SharedProgram (List SubscriptionEntry) → Option SharedStore
  | .result entries =>
    ({ t with revoking := none }.serve sha256 (.revoke r)).call
      (.invalidateSubscriptions (t.revokedIds r entries) .revoked)
  | program => some { t with revoking := some (r, program) }

/-- A request takes the mutex. -/
def take (t : SharedStore) : Request → Option SharedStore
  -- these do not take the mutex, or end the broker
  | .next _ _ | .cancel _ | .reopen _ _ _ => none
  | .revoke r =>
    if (t.store.revokeCapability sha256 r).1 = .ok .inserted then
      t.revoke sha256 r (contextsProgram t.registry.fields r.documentId)
    else some (t.serve sha256 (.revoke r))
  | .subscribe r => (t.store.registryCall? sha256 (.subscribe r)).elim (some t) t.call
  | .openChannel => t.call .openChannel
  | request =>
    (t.store.registryCall? sha256 request).elim (some (t.serve sha256 request))
      (t.serve sha256 request).call

/-- One step of the system. -/
def step (t : SharedStore) : SharedAction → Option SharedStore
  | .request request =>
    if t.registry.holder.isNone ∧ t.revoking.isNone then t.take sha256 request else none
  | .work =>
    match t.revoking with
    | some (r, .access o k) =>
      let (answer, shared) := t.registry.shared.exec o
      { t with registry := { t.registry with shared } }.revoke sha256 r (k answer)
    | some (_, .result _) => none
    | none => (t.registry.step .work).map fun registry ↦ { t with registry }
  | .user action =>
    if action.byUser then (t.registry.step action).map fun registry ↦ { t with registry } else none

/-- A store that has been opened on a database with any history. -/
def opened (earlier : List Request) (provision : CreateAuthorityProvision)
    (generation : StoreGeneration) (broker : ℕ) : SharedStore :=
  ⟨DurableUpdateStore.initial.run sha256 (earlier ++ [.reopen provision generation broker]),
    .new broker, none, []⟩

end Hash

end SharedStore

/-! ## What the registry is asked -/

/-- What an action queues for an entry. -/
def RegistryAction.queues (entry : SubscriptionEntry) : RegistryAction → List UpdateId
  | .call called => called.queues entry
  | _ => []

/-- What the registry does when something happens to the store. -/
def RegistryAction.From (action : RegistryAction) (source : SharedAction) : Prop :=
  source = .user action ∧ action.byUser = true ∨
    action.byUser = false ∧ action ≠ .call .shutdown ∧
      ∀ channel, action = .call (.closeChannel channel) → source = .request (.closeChannel channel)

/-- A request of which the registry hears at most when its part in the database is done. -/
def Request.ofDatabase : Request → Bool
  | .subscribe _ | .openChannel | .next _ _ | .cancel _ | .reopen _ _ _ => false
  | _ => true

/-- The updates that have been accepted into a document, in order. -/
def Tables.accepted (t : Tables) (d : DocumentId) : List UpdateId :=
  (t.log d).map UpdateRow.updateId

namespace DurableUpdateStore

variable {sha256 : List UInt8 → Bytes verifierLength} {s : DurableUpdateStore} {request : Request}

theorem genuine_registryCall? {call : RegistryCall}
    (h : s.registryCall? sha256 request = some call) : call.Genuine := by
  cases request with
  | accept r | subscribe r | closeChannel channel | publishRetirement d =>
    rw [registryCall?] at h
    split at h
    · exact Option.some_inj.mp h ▸ (by trivial)
    · exact absurd h (by simp)
  | openChannel => exact Option.some_inj.mp h ▸ trivial
  | _ => exact absurd h (by simp [registryCall?])

/-- A channel is closed by whoever asks for it. -/
theorem closeChannel_of_registryCall? {channel : BrokerChannel}
    (h : s.registryCall? sha256 request = some (.closeChannel channel)) :
    request = .closeChannel channel := by
  cases request with
  | accept r | subscribe r | closeChannel channel' | publishRetirement d =>
    rw [registryCall?] at h
    split at h
    · simp_all
    · exact absurd h (by simp)
  | openChannel => exact absurd h (by simp [registryCall?])
  | _ => exact absurd h (by simp [registryCall?])

/-- No request ends the broker. -/
theorem registryCall?_ne_shutdown : s.registryCall? sha256 request ≠ some .shutdown := by
  cases request with
  | accept r | subscribe r | closeChannel channel | publishRetirement d =>
    rw [registryCall?]
    split <;> simp
  | _ => simp [registryCall?]

theorem accept_result (r : AcceptCommand) : (s.accept sha256 r).1 =
    (Renee.accept sha256 s.tables r.capabilityId r.authenticator r.update r.encodedRecord).1 := by
  simp only [accept]
  split <;> rfl

/-- Only an insertion changes a log. -/
theorem log_step_of_ne (hne : ∀ r, request ≠ .accept r) (d : DocumentId) :
    (s.step sha256 request).tables.log d = s.tables.log d := by
  rcases effect_step sha256 s request with heq | ⟨m, hm, heffect⟩
  · rw [heq]
  · cases heffect with
    | created h => exact log_congr h.updates d
    | granted h => exact log_congr h.updates d
    | revoked h => exact log_congr h.updates d
    | @accepted r row h hrecord hbytes =>
      cases request with
      | accept r' => exact absurd rfl (hne r')
      | _ => exact absurd hm (by simp [Request.mutation?])
    | retired h => exact log_congr (by rw [h]; rfl) d
    | disabled h => exact log_congr (by rw [h]; rfl) d
    | provisioned h =>
      obtain ⟨createAuthorities, heq⟩ := provisionCreateAuthority_eq_ok h
      exact log_congr (by rw [heq]) d

variable (sha256) in
/-- **An insertion is announced to the registry**, and nothing else is. -/
theorem accepted_step (hw : WellFormed s.tables) (request : Request) (entry : SubscriptionEntry) :
    (s.step sha256 request).tables.accepted entry.documentId =
      s.tables.accepted entry.documentId ++
        (s.registryCall? sha256 request).toList.flatMap (RegistryCall.queues entry) := by
  by_cases haccept : ∃ r, request = .accept r
  · obtain ⟨r, rfl⟩ := haccept
    rw [Tables.accepted, Tables.accepted, tables_step]
    simp only [Request.mutation?, Option.map_some, Option.getD_some, Tables.apply, registryCall?,
      accept_result]
    rcases accept_spec
      (Prod.eta (Renee.accept sha256 s.tables r.capabilityId r.authenticator r.update
      r.encodedRecord)).symm with ⟨hinserted, row, -, h⟩ | ⟨hne, htables⟩
    · rw [h.log_eq hw.log, if_pos hinserted, Option.toList_some, List.flatMap_singleton,
        RegistryCall.queues, List.map_append]
      by_cases hd : entry.documentId = r.update.documentId
      · rw [if_pos hd, if_pos hd.symm, List.map_singleton, h.row_update]
      · rw [if_neg hd, if_neg (Ne.symm hd), List.map_nil]
    · rw [htables, if_neg hne, Option.toList_none, List.flatMap_nil, List.append_nil]
  · have hne : ∀ r, request ≠ .accept r := fun r heq ↦ haccept ⟨r, heq⟩
    have hqueues : ∀ call ∈ s.registryCall? sha256 request, call.queues entry = [] := by
      intro call hcall
      cases request with
      | accept r => exact absurd rfl (hne r)
      | subscribe r | closeChannel channel | publishRetirement d =>
        rw [registryCall?] at hcall
        split at hcall
        · exact Option.some_inj.mp hcall ▸ rfl
        · exact absurd hcall (by simp)
      | openChannel => exact Option.some_inj.mp hcall ▸ rfl
      | _ => exact absurd hcall (by simp [registryCall?])
    rw [Tables.accepted, log_step_of_ne hne, Tables.accepted]
    cases hcalled : s.registryCall? sha256 request with
    | none => simp
    | some call => simp [hqueues call hcalled]

/-- A request that has nothing to do with subscriptions leaves a registry without any as it is. -/
theorem subscriptions_step {broker : ℕ} (hs : s.subscriptions = .new broker)
    (hrequest : request.ofDatabase = true) : (s.step sha256 request).subscriptions =
      .new broker := by
  cases request with
  | create r | grant r | preflightRevoke r | fetch r | retire d | disableCreateAuthority i =>
    exact hs
  | accept r =>
    simp only [step, execute, accept, hs]
    split <;> rfl
  | revoke r =>
    simp only [step, execute, revokeCapability, hs]
    split <;> rfl
  | enumerate r m =>
    simp only [step, execute, enumerateAuthorized]
    split
    · exact hs
    split <;> exact hs
  | vectorBackfill r m =>
    simp only [step, execute, vectorBackfillAuthorized]
    split
    · exact hs
    split <;> exact hs
  | closeChannel channel =>
    simp only [step, execute, closeBrokerChannel, hs]
    split
    · exact hs
    · simp only [UpdateSubscriptionRegistry.closeChannel]
      split <;> rfl
  | publishRetirement d =>
    simp only [step, execute, publishCommittedRetirement, hs]
    split
    · rfl
    · exact hs
  | subscribe r | openChannel | next channelId subscriptionId | cancel subscriptionId
  | reopen provision generation broker => exact absurd hrequest (by simp [Request.ofDatabase])

end DurableUpdateStore

/-! ## What a step does -/

/-- A program that only looks at what is shared. -/
def Looks {α : Type} (program : SharedProgram α) : Prop :=
  ∀ s, program.Meets Shared.exec (fun _ _ ↦ True) (fun s s' ↦ s' = s) (fun _ _ ↦ True) s

theorem Looks.bind {α β : Type} {x : SharedProgram α} {f : α → SharedProgram β} (hx : Looks x)
    (hf : ∀ a, Looks (f a)) : Looks (x >>= f) :=
  fun s ↦ Program.meets_bind.mpr ((hx s).mono fun a s' _ ↦ hf a s')

theorem looks_pure {α : Type} (a : α) : Looks (pure a) := fun _ ↦ trivial

theorem looks_perform {access : SharedAccess} (h : access.Looks) :
    Looks (Program.perform access : SharedProgram access.Answer) := by
  refine fun s s' _ ↦ ⟨?_, trivial⟩
  cases access with
  | load id | upgrade channelId | isClosed id | changed channelId => rfl
  | _ => exact h.elim

theorem looks_contexts (fields : RegistryFields) (d : DocumentId) :
    Looks (contextsProgram fields d) := by
  have hentry (entry : SubscriptionEntry) : Looks (SharedProgram.contextsEntry d entry) := by
    rw [SharedProgram.contextsEntry]
    split
    · exact looks_pure false
    · refine (looks_perform
        (show SharedAccess.Looks (.load entry.subscriptionId) from trivial)).bind fun state ↦ ?_
      split
      · exact looks_pure false
      · exact looks_perform (show SharedAccess.Looks (.upgrade entry.channelId) from trivial)
  rw [contextsProgram]
  induction fields.subscriptions with
  | nil => exact looks_pure []
  | cons entry entries ih =>
    exact (hentry entry).bind fun keep ↦ ih.bind fun kept ↦ looks_pure _

/-- An access of a program that only looks. -/
theorem Looks.access {α : Type} {o : SharedAccess} {k : o.Answer → SharedProgram α}
    (h : Looks (.access o k)) (s : Shared) : (s.exec o).2 = s ∧ Looks (k (s.exec o).1) := by
  obtain ⟨hsame, hrest⟩ := h s s trivial
  refine ⟨hsame, ?_⟩
  cases hk : k (s.exec o).1 with
  | result a => exact looks_pure a
  | access o' k' =>
    rw [hk] at hrest
    exact fun _ ↦ hrest.of_rely (fun _ _ ↦ trivial) trivial

namespace SharedStore

variable {sha256 : List UInt8 → Bytes verifierLength} {t t' t'' : SharedStore}
  {requests requests' : List Request} {actions actions' : List RegistryAction}

variable (sha256) in
/-- The store carries out `requests` and the registry takes `actions`: what is accepted is what the
registry is told to queue. -/
structure Carries (t t' : SharedStore) (requests : List Request) (actions : List RegistryAction) :
    Prop where
  served : t'.served = t.served ++ requests
  database : ∀ request ∈ requests, request.ofDatabase = true
  store : t'.store = t.store.run sha256 requests
  registry : Transition.run RegistrySystem.step t.registry actions = some t'.registry
  genuine : ∀ call, RegistryAction.call call ∈ actions → call.Genuine
  accepted : ∀ entry, t'.store.tables.accepted entry.documentId =
    t.store.tables.accepted entry.documentId ++ actions.flatMap (RegistryAction.queues entry)

theorem Carries.refl (t : SharedStore) : Carries sha256 t t [] [] :=
  ⟨(List.append_nil _).symm, by simp, rfl, rfl, by simp, fun _ ↦ (List.append_nil _).symm⟩

theorem Carries.trans (h : Carries sha256 t t' requests actions)
    (h' : Carries sha256 t' t'' requests' actions') :
    Carries sha256 t t'' (requests ++ requests') (actions ++ actions') where
  served := by rw [h'.served, h.served, List.append_assoc]
  database request hmem := (List.mem_append.mp hmem).elim (h.database request) (h'.database request)
  store := by rw [h'.store, h.store, DurableUpdateStore.run_append]
  registry := Transition.run_trans h.registry h'.registry
  genuine call hmem := (List.mem_append.mp hmem).elim (h.genuine call) (h'.genuine call)
  accepted entry := by
    rw [h'.accepted, h.accepted, List.flatMap_append, List.append_assoc]

/-- The registry does nothing, or something that comes from the source. -/
def Heard (source : SharedAction) (actions : List RegistryAction) : Prop :=
  actions = [] ∨ ∃ action, actions = [action] ∧ action.From source

theorem heard_nil {source : SharedAction} : Heard source [] := .inl rfl

/-- An operation of the registry that closes no channel. -/
theorem heard_call {source : SharedAction} {call : RegistryCall} (hshutdown : call ≠ .shutdown)
    (h : ∀ channel, call ≠ .closeChannel channel) : Heard source [.call call] :=
  .inr ⟨_, rfl, .inr ⟨rfl, fun heq ↦ hshutdown (RegistryAction.call.inj heq),
    fun channel heq ↦ absurd (RegistryAction.call.inj heq) (h channel)⟩⟩

/-- What holds after every run. -/
structure InOrder (t : SharedStore) : Prop where
  tables : WellFormed t.store.tables
  /-- The subscriptions are in the registry, and none in the store. -/
  subscriptions : ∃ broker, t.store.subscriptions = .new broker
  looks : ∀ r program, t.revoking = some (r, program) → Looks program

/-- The store does its part, and tells the registry. -/
theorem carries_serve (hw : WellFormed t.store.tables) {request : Request} {call : RegistryCall}
    (hdatabase : request.ofDatabase = true)
    (hcall : t.store.registryCall? sha256 request = some call)
    (h : (t.serve sha256 request).call call = some t') :
    Carries sha256 t t' [request] [.call call] ∧ t'.revoking = t.revoking := by
  obtain ⟨registry, hstep, rfl⟩ := Option.map_eq_some_iff.mp h
  refine ⟨⟨rfl, by simpa using hdatabase, rfl,
    Transition.run_cons_eq_some_iff.mpr ⟨registry, hstep, rfl⟩, fun call' hmem ↦ ?_,
    fun entry ↦ ?_⟩, rfl⟩
  · obtain rfl := RegistryAction.call.inj (List.mem_singleton.mp hmem)
    exact DurableUpdateStore.genuine_registryCall? hcall
  · have haccepted := DurableUpdateStore.accepted_step sha256 hw request entry
    rw [hcall] at haccepted
    exact haccepted

variable (sha256) in
/-- The registry is told something that queues nothing. -/
theorem carries_call {call : RegistryCall} (hgenuine : call.Genuine)
    (hqueues : ∀ entry, call.queues entry = []) (h : t.call call = some t') :
    Carries sha256 t t' [] [.call call] ∧ t'.revoking = t.revoking := by
  obtain ⟨registry, hstep, rfl⟩ := Option.map_eq_some_iff.mp h
  refine ⟨⟨(List.append_nil _).symm, by simp, rfl,
    Transition.run_cons_eq_some_iff.mpr ⟨registry, hstep, rfl⟩, fun call' hmem ↦ ?_,
    fun entry ↦ ?_⟩, rfl⟩
  · obtain rfl := RegistryAction.call.inj (List.mem_singleton.mp hmem)
    exact hgenuine
  · simp [RegistryAction.queues, hqueues]

variable (sha256) in
/-- Somebody other than the registry's operations does something, or the one in progress goes on. -/
theorem carries_registry {action : RegistryAction} (hcall : ∀ call, action ≠ .call call)
    {registry : RegistrySystem} (h : t.registry.step action = some registry) :
    Carries sha256 t { t with registry } [] [action] where
  served := (List.append_nil _).symm
  database := by simp
  store := rfl
  registry := Transition.run_cons_eq_some_iff.mpr ⟨registry, h, rfl⟩
  genuine call hmem := absurd (List.mem_singleton.mp hmem).symm (hcall call)
  accepted entry := by
    cases action with
    | call call => exact absurd rfl (hcall call)
    | _ => simp [RegistryAction.queues]

/-- A request that the registry hears of at once, or not at all. -/
theorem carries_elim (hw : WellFormed t.store.tables) {request : Request}
    (hdatabase : request.ofDatabase = true)
    (h : (t.store.registryCall? sha256 request).elim (some (t.serve sha256 request))
      (t.serve sha256 request).call = some t') :
    ∃ actions, Carries sha256 t t' [request] actions ∧ Heard (.request request) actions ∧
      t'.revoking = t.revoking := by
  cases hcall : t.store.registryCall? sha256 request with
  | some call =>
    rw [hcall] at h
    obtain ⟨hcarries, hrevoking⟩ := carries_serve hw hdatabase hcall h
    refine ⟨_, hcarries, .inr ⟨_, rfl, .inr ⟨rfl, fun heq ↦ ?_, fun channel heq ↦ ?_⟩⟩, hrevoking⟩
    · obtain rfl := RegistryAction.call.inj heq
      exact absurd hcall DurableUpdateStore.registryCall?_ne_shutdown
    · obtain rfl := RegistryAction.call.inj heq
      exact congrArg _ (DurableUpdateStore.closeChannel_of_registryCall? hcall)
  | none =>
    rw [hcall] at h
    obtain rfl := Option.some_inj.mp h
    refine ⟨[], ⟨rfl, by simpa using hdatabase, rfl, rfl, by simp, fun entry ↦ ?_⟩, heard_nil, rfl⟩
    have haccepted := DurableUpdateStore.accepted_step sha256 hw request entry
    rw [hcall] at haccepted
    exact haccepted

/-- A revocation goes on. -/
theorem carries_revoke (h : t.InOrder) {r : RevokeCommand}
    {program : SharedProgram (List SubscriptionEntry)} (hlooks : Looks program)
    (hstep : t.revoke sha256 r program = some t') (source : SharedAction) :
    ∃ requests actions, Carries sha256 t t' requests actions ∧ Heard source actions ∧
      t'.InOrder := by
  cases program with
  | access o k =>
    obtain rfl := Option.some_inj.mp hstep
    refine ⟨[], [], { Carries.refl t with }, heard_nil, h.tables, h.subscriptions,
      fun r' program' heq ↦ ?_⟩
    obtain ⟨-, rfl⟩ := Prod.mk.inj (Option.some_inj.mp heq)
    exact hlooks
  | result entries =>
    obtain ⟨registry, hcalled, rfl⟩ := Option.map_eq_some_iff.mp hstep
    refine ⟨[.revoke r], [.call (.invalidateSubscriptions (t.revokedIds r entries) .revoked)],
      ⟨rfl, by simp [Request.ofDatabase], rfl,
        Transition.run_cons_eq_some_iff.mpr ⟨registry, hcalled, rfl⟩, fun call hmem ↦ ?_,
        fun entry ↦ ?_⟩, heard_call (by simp) (by simp),
          DurableUpdateStore.wellFormed_step h.tables _, ?_,
      fun _ _ heq ↦ ?_⟩
    · obtain rfl := RegistryAction.call.inj (List.mem_singleton.mp hmem)
      rfl
    · have hlog : (t.store.step sha256 (.revoke r)).tables.log entry.documentId =
          t.store.tables.log entry.documentId :=
        DurableUpdateStore.log_step_of_ne (by simp) entry.documentId
      simp only [Tables.accepted, serve, hlog, List.flatMap_singleton, RegistryAction.queues,
        RegistryCall.queues, List.append_nil]
    · obtain ⟨broker, hbroker⟩ := h.subscriptions
      exact ⟨broker, DurableUpdateStore.subscriptions_step hbroker rfl⟩
    · exact absurd heq (by simp [serve])

theorem subscriptions_of_carries (h : Carries sha256 t t' requests actions) {broker : ℕ}
    (hbroker : t.store.subscriptions = .new broker) : t'.store.subscriptions = .new broker := by
  obtain ⟨-, hdatabase, hstore, -, -, -⟩ := h
  rw [hstore]
  clear hstore
  induction requests using List.reverseRecOn with
  | nil => exact hbroker
  | append_singleton requests request ih =>
    rw [DurableUpdateStore.run_concat]
    exact DurableUpdateStore.subscriptions_step
      (ih (fun request hmem ↦ hdatabase request (List.mem_append_left _ hmem)))
      (hdatabase request (List.mem_append_right _ (List.mem_singleton_self _)))

theorem InOrder.of_carries (h : t.InOrder) (hcarries : Carries sha256 t t' requests actions)
    (hrevoking : t'.revoking = t.revoking) : t'.InOrder where
  tables := hcarries.store ▸ DurableUpdateStore.wellFormed_runRequests h.tables requests
  subscriptions := h.subscriptions.imp fun _ hbroker ↦ subscriptions_of_carries hcarries hbroker
  looks r program heq := h.looks r program (hrevoking ▸ heq)

theorem take_spec (h : t.InOrder) {request : Request} (hstep : t.take sha256 request = some t') :
    ∃ requests actions, Carries sha256 t t' requests actions ∧ Heard (.request request) actions ∧
      t'.InOrder := by
  have helim (hdatabase : request.ofDatabase = true)
      (hstep : (t.store.registryCall? sha256 request).elim (some (t.serve sha256 request))
        (t.serve sha256 request).call = some t') :
      ∃ requests actions, Carries sha256 t t' requests actions ∧ Heard (.request request) actions ∧
        t'.InOrder := by
    obtain ⟨actions, hcarries, hheard, hrevoking⟩ := carries_elim h.tables hdatabase hstep
    exact ⟨_, actions, hcarries, hheard, h.of_carries hcarries hrevoking⟩
  cases request with
  | next channelId subscriptionId | cancel subscriptionId | reopen provision generation broker =>
    exact absurd hstep (by simp [take])
  | revoke r =>
    rw [take] at hstep
    split at hstep
    · exact carries_revoke h (looks_contexts _ _) hstep _
    · exact helim rfl hstep
  | subscribe r =>
    rw [take] at hstep
    cases hcall : t.store.registryCall? sha256 (.subscribe r) with
    | none =>
      rw [hcall] at hstep
      obtain rfl := Option.some_inj.mp hstep
      exact ⟨[], [], .refl t, heard_nil, h⟩
    | some call =>
      rw [hcall] at hstep
      obtain ⟨channel, d, c, rfl⟩ : ∃ channel d c, call = .register channel d c := by
        rw [DurableUpdateStore.registryCall?] at hcall
        split at hcall
        · exact ⟨_, _, _, (Option.some_inj.mp hcall).symm⟩
        · exact absurd hcall (by simp)
      obtain ⟨hcarries, hrevoking⟩ := carries_call sha256
        (DurableUpdateStore.genuine_registryCall? hcall) (fun _ ↦ rfl) hstep
      exact ⟨[], _, hcarries, heard_call (by simp) (by simp), h.of_carries hcarries hrevoking⟩
  | openChannel =>
    obtain ⟨hcarries, hrevoking⟩ :=
      carries_call sha256 (show RegistryCall.openChannel.Genuine from trivial) (fun _ ↦ rfl) hstep
    exact ⟨[], _, hcarries, heard_call (by simp) (by simp), h.of_carries hcarries hrevoking⟩
  | _ => exact helim rfl hstep

/-- **What a step does**: the store carries out requests, and the registry a step of its own. -/
theorem step_spec (h : t.InOrder) {action : SharedAction} (hstep : t.step sha256 action = some t') :
    ∃ requests actions, Carries sha256 t t' requests actions ∧ Heard action actions ∧
    t'.InOrder := by
  cases action with
  | request request =>
    rw [step] at hstep
    split at hstep
    · exact take_spec h hstep
    · exact absurd hstep (by simp)
  | work =>
    rw [step] at hstep
    split at hstep
    · rename_i r o k hrevoking
      obtain ⟨hsame, hlooks⟩ := (h.looks r _ hrevoking).access t.registry.shared
      dsimp only at hstep
      rw [hsame] at hstep
      exact carries_revoke h hlooks hstep _
    · exact absurd hstep (by simp)
    · obtain ⟨registry, hregistry, rfl⟩ := Option.map_eq_some_iff.mp hstep
      have hcarries := carries_registry sha256 (by simp) hregistry
      exact ⟨[], _, hcarries, .inr ⟨_, rfl, .inr ⟨rfl, by simp, by simp⟩⟩,
        h.of_carries hcarries rfl⟩
  | user action =>
    rw [step] at hstep
    split at hstep
    · rename_i huser
      obtain ⟨registry, hregistry, rfl⟩ := Option.map_eq_some_iff.mp hstep
      have hcarries := carries_registry sha256
        (fun call heq ↦ by simp [heq, RegistryAction.byUser] at huser) hregistry
      exact ⟨[], _, hcarries, .inr ⟨_, rfl, .inl ⟨rfl, huser⟩⟩, h.of_carries hcarries rfl⟩
    · exact absurd hstep (by simp)

/-- **What a run does.** -/
theorem run_spec (h : t.InOrder) {taken : List SharedAction}
    (hrun : Transition.run (step sha256) t taken = some t') :
    ∃ requests actions, Carries sha256 t t' requests actions ∧ t'.InOrder := by
  refine Transition.invariant (I := fun u : SharedStore ↦
    ∃ requests actions, Carries sha256 t u requests actions ∧ u.InOrder) ?_
    ⟨[], [], .refl t, h⟩ hrun
  rintro u action u' ⟨requests, actions, hcarries, hu⟩ hstep
  obtain ⟨requests', actions', hcarries', -, hu'⟩ := step_spec hu hstep
  exact ⟨_, _, hcarries.trans hcarries', hu'⟩

/-- What a step is to the registry: nothing, or a step of its own. -/
theorem registry_step (h : t.InOrder) {action : SharedAction}
    (hstep : t.step sha256 action = some t') :
    t'.registry = t.registry ∨ ∃ action' : RegistryAction, action'.From action ∧
      t.registry.step action' = some t'.registry := by
  obtain ⟨requests, actions, hcarries, rfl | ⟨action', rfl, hfrom⟩, -⟩ := step_spec h hstep
  · exact .inl (Option.some_inj.mp hcarries.registry).symm
  · obtain ⟨registry, hregistry, hrun⟩ := Transition.run_cons_eq_some_iff.mp hcarries.registry
    exact .inr ⟨action', hfrom, hregistry.trans hrun⟩

theorem inOrder_opened (earlier : List Request) (provision : CreateAuthorityProvision)
    (generation : StoreGeneration) (broker : ℕ) :
    (opened sha256 earlier provision generation broker).InOrder :=
  ⟨DurableUpdateStore.wellFormed_runRequests DurableUpdateStore.wellFormed_initial _,
    ⟨broker, by rw [opened, DurableUpdateStore.run_concat]; rfl⟩,
    fun _ _ heq ↦ absurd heq (by simp [opened])⟩

theorem store_call {call : RegistryCall} (h : t.call call = some t') : t'.store = t.store := by
  obtain ⟨registry, -, rfl⟩ := Option.map_eq_some_iff.mp h
  rfl

/-- A revocation that goes on asking has done nothing; otherwise it commits. -/
theorem store_revoke {r : RevokeCommand} {program : SharedProgram (List SubscriptionEntry)}
    (h : t.revoke sha256 r program = some t') :
    t'.store = t.store ∨ t'.store = t.store.step sha256 (.revoke r) := by
  cases program with
  | access o k => exact .inl (by rw [← Option.some_inj.mp h])
  | result entries => exact .inr (store_call h)

/-- **What a step is to the database**: nothing, or one request, which takes the mutex or is a
revocation that has it. -/
theorem store_step {action : SharedAction} (hstep : t.step sha256 action = some t') :
    t'.store = t.store ∨ ∃ request, t'.store = t.store.step sha256 request ∧
      (action = .request request ∨ ∃ r program, request = .revoke r ∧
        t.revoking = some (r, program)) := by
  cases action with
  | request request =>
    rw [step] at hstep
    split at hstep
    · have helim (h : (t.store.registryCall? sha256 request).elim (some (t.serve sha256 request))
          (t.serve sha256 request).call = some t') : t'.store = t.store.step sha256 request := by
        cases hcall : t.store.registryCall? sha256 request with
        | none =>
          rw [hcall] at h
          rw [← Option.some_inj.mp h, serve]
        | some call =>
          rw [hcall] at h
          exact store_call h
      cases request with
      | next channelId subscriptionId
      | cancel subscriptionId
      | reopen provision generation broker =>
        exact absurd hstep (by simp [take])
      | revoke r =>
        rw [take] at hstep
        split at hstep
        · exact (store_revoke hstep).imp id fun h ↦ ⟨_, h, .inl rfl⟩
        · exact .inr ⟨_, by rw [← Option.some_inj.mp hstep, serve], .inl rfl⟩
      | subscribe r =>
        rw [take] at hstep
        cases hcall : t.store.registryCall? sha256 (.subscribe r) with
        | none =>
          rw [hcall] at hstep
          exact .inl (by rw [← Option.some_inj.mp hstep])
        | some call =>
          rw [hcall] at hstep
          exact .inl (store_call hstep)
      | openChannel => exact .inl (store_call hstep)
      | _ => exact .inr ⟨_, helim hstep, .inl rfl⟩
    · exact absurd hstep (by simp)
  | work =>
    rw [step] at hstep
    split at hstep
    · rename_i r o k hrevoking
      exact (store_revoke hstep).imp id fun h ↦ ⟨_, h, .inr ⟨r, _, rfl, hrevoking⟩⟩
    · exact absurd hstep (by simp)
    · obtain ⟨registry, -, rfl⟩ := Option.map_eq_some_iff.mp hstep
      exact .inl rfl
  | user action =>
    rw [step] at hstep
    split at hstep
    · obtain ⟨registry, -, rfl⟩ := Option.map_eq_some_iff.mp hstep
      exact .inl rfl
    · exact absurd hstep (by simp)

/-- A state that the store reaches when it has been opened on a database with any history. -/
def Reached (sha256 : List UInt8 → Bytes verifierLength) (t : SharedStore) : Prop :=
  ∃ (earlier : List Request) (provision : CreateAuthorityProvision) (generation : StoreGeneration)
    (broker : ℕ) (taken : List SharedAction),
    Transition.run (step sha256) (opened sha256 earlier provision generation broker) taken = some t

theorem Reached.run (h : t.Reached sha256) {taken : List SharedAction}
    (hrun : Transition.run (step sha256) t taken = some t') : t'.Reached sha256 := by
  obtain ⟨earlier, provision, generation, broker, before, hbefore⟩ := h
  exact ⟨earlier, provision, generation, broker, _, Transition.run_trans hbefore hrun⟩

theorem Reached.step (h : t.Reached sha256) {action : SharedAction}
    (hstep : t.step sha256 action = some t') : t'.Reached sha256 := by
  have hrun : Transition.run (SharedStore.step sha256) t [action] = some t' :=
    Transition.run_cons_eq_some_iff.mpr ⟨t', hstep, rfl⟩
  exact h.run hrun

theorem Reached.inOrder (h : t.Reached sha256) : t.InOrder := by
  obtain ⟨earlier, provision, generation, broker, taken, hrun⟩ := h
  exact (run_spec (inOrder_opened earlier provision generation broker)
    hrun).choose_spec.choose_spec.2

theorem Reached.registry (h : t.Reached sha256) : ∃ broker actions,
    Transition.run RegistrySystem.step (.new broker) actions = some t.registry := by
  obtain ⟨earlier, provision, generation, broker, taken, hrun⟩ := h
  obtain ⟨requests, actions, hcarries, -⟩ :=
    run_spec (inOrder_opened earlier provision generation broker) hrun
  exact ⟨broker, actions, hcarries.registry⟩

theorem Reached.recorded (h : t.Reached sha256) :
    t.registry.WellFormed ∧ ∃ l, t.registry.Recorded l := by
  obtain ⟨broker, actions, hrun⟩ := h.registry
  exact RegistrySystem.exists_recorded hrun

/-- **What holds of a store that is opened, and is kept, holds of every state it reaches.** -/
theorem Reached.induction {I : SharedStore → Prop} (h : t.Reached sha256)
    (hopened : ∀ earlier provision generation broker,
      I (opened sha256 earlier provision generation broker))
    (hstep : ∀ t action t', t.Reached sha256 → I t → SharedStore.step sha256 t action = some t' →
      I t') : I t := by
  obtain ⟨earlier, provision, generation, broker, taken, hrun⟩ := h
  refine (Transition.invariant (I := fun t : SharedStore ↦ t.Reached sha256 ∧ I t)
    (fun t action t' ht h ↦ ⟨ht.1.step h, hstep t action t' ht.1 ht.2 h⟩)
    ⟨⟨earlier, provision, generation, broker, [], rfl⟩, hopened ..⟩ hrun).2

end SharedStore

end Renee
