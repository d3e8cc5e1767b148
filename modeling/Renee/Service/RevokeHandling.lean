import Renee.Library.Transition
import Renee.Store.Broker
import Renee.Store.ControlBytes

/-!
# Handling revocations

The arm of `handle_request` for revocations takes the store twice.  It first classifies the request
(`preflight_revoke_capability`), and answers at once when nothing is going to change.  Otherwise it
enters the gate of the document, where at most `maxControlWaitersPerDocument` wait and only one is
inside while no notification is being written, and takes the store again for the revocation.
Between the two, anything may happen to the store.

* `preflight_resolved_iff` and `preflight_requiresMutation_iff`: the two decisions agree.
* `RevokeService.step` is the system of a store, its other requests, and the handlers of any number
  of revocations; `points` says which atomic requests a step stands for, and on whose behalf.
* `RevokeService.Gated`: the gate does what it is for.
* `revocation_linearizable`: a run of the system is a run of the atomic requests, in which every
  handler that has answered occurs once, with what it has answered.
-/

set_option autoImplicit false

namespace Renee

open ByteString

/-! ## Preflight -/

namespace DurableUpdateStore

variable {sha256 : List UInt8 → Bytes verifierLength} {s : DurableUpdateStore} {r : RevokeCommand}
  {o : StoreControlOutcome}

/-- What a preflight resolves, the revocation answers, and changes nothing. -/
theorem revokeCapability_of_resolved (h : s.preflightRevokeCapability sha256 r = .resolved o) :
    s.revokeCapability sha256 r = (.ok o, s) ∧ o ≠ .inserted := by
  have hrollback : ∀ {o'}, revokeCapabilityIn sha256 r s.tables = .ok (.rollback o') →
      o' ≠ .inserted → s.revokeCapability sha256 r = (.ok o', s) := by
    intro o' hbody hne
    rw [revokeCapability, Renee.revokeCapability, transaction_rollback hbody]
    simp [hne]
  rw [preflightRevokeCapability] at h
  split at h
  · rename_i outcome hreceipt
    obtain rfl := StoreRevokePreflight.resolved.inj h
    have hne := resolveControlReceipt_ne_inserted hreceipt
    exact ⟨hrollback (by rw [revokeCapabilityIn, hreceipt]) hne, hne⟩
  rename_i hreceipt
  split at h
  · rename_i hauth
    obtain rfl := StoreRevokePreflight.resolved.inj h
    exact ⟨hrollback (by simp only [revokeCapabilityIn, hreceipt, hauth, if_true]) (by simp),
      by simp⟩
  rename_i hauth
  split at h
  · rename_i hrevision
    obtain rfl := StoreRevokePreflight.resolved.inj h
    refine ⟨hrollback ?_ (by simp), by simp⟩
    simp only [revokeCapabilityIn, hreceipt, if_neg hauth, hrevision]
  rename_i revision hrevision
  split at h
  · rename_i htarget
    obtain rfl := StoreRevokePreflight.resolved.inj h
    refine ⟨hrollback ?_ (by simp), by simp⟩
    simp only [revokeCapabilityIn, hreceipt, if_neg hauth, hrevision, htarget, if_true]
  rename_i htarget
  split at h
  · rename_i hlimits
    obtain rfl := StoreRevokePreflight.resolved.inj h
    refine ⟨hrollback ?_ (by simp), by simp⟩
    simp only [revokeCapabilityIn, hreceipt, if_neg hauth, hrevision, if_neg htarget, hlimits,
      if_true]
  · exact absurd h (by simp)

/-- What a preflight leaves to the revocation, the revocation commits. -/
theorem revokeCapability_of_requiresMutation (hw : ControlWellFormed s.tables)
    (h : s.preflightRevokeCapability sha256 r = .requiresMutation) :
    (s.revokeCapability sha256 r).1 = .ok .inserted := by
  rw [preflightRevokeCapability] at h
  split at h
  · exact absurd h (by simp)
  rename_i hreceipt
  split at h
  · exact absurd h (by simp)
  rename_i hauth
  split at h
  · exact absurd h (by simp)
  rename_i revision hrevision
  split at h
  · exact absurd h (by simp)
  rename_i htarget
  split at h
  · exact absurd h (by simp)
  rename_i hlimits
  simp only [Bool.not_eq_true', Bool.not_eq_false] at hauth htarget
  obtain ⟨row, -, hrow, -⟩ := hw.active_of_authorize hauth
  have hinserted : (Renee.revokeCapability sha256 s.tables r).1 = .ok .inserted :=
    revokeCapability_ok ⟨resolveControlReceipt_eq_none_iff.mp hreceipt, hauth, hrevision, htarget⟩
      (Option.isSome_iff_exists.mpr ⟨row, hrow⟩) (by simpa using hlimits)
  rw [revokeCapability]
  simp only [hinserted, if_true]

/-- **A preflight resolves a request exactly when the revocation would answer it and change
nothing.** -/
theorem preflight_resolved_iff (hw : ControlWellFormed s.tables) :
    s.preflightRevokeCapability sha256 r = .resolved o ↔
      s.revokeCapability sha256 r = (.ok o, s) := by
  refine ⟨fun h ↦ (revokeCapability_of_resolved h).1, fun h ↦ ?_⟩
  cases hp : s.preflightRevokeCapability sha256 r with
  | resolved o' =>
    have heq := congrArg Prod.fst ((revokeCapability_of_resolved hp).1.symm.trans h)
    exact congrArg _ (Except.ok.inj heq)
  | requiresMutation =>
    -- a commit leaves its receipt, so the store is not the same
    have hinserted := revokeCapability_of_requiresMutation hw hp
    have htables : Renee.revokeCapability sha256 s.tables r = (.ok .inserted, s.tables) := by
      have hresult : (Renee.revokeCapability sha256 s.tables r).1 = .ok .inserted := by
        rw [← hinserted, revokeCapability]
        dsimp only
        split <;> rfl
      refine Prod.ext hresult ?_
      have hstore := congrArg (fun p ↦ p.2.tables) h
      simp only [revokeCapability, hresult, if_true] at hstore
      exact hstore
    rcases revokeCapability_spec htables with ⟨-, revision, hrevoked⟩ | ⟨hne, -⟩
    · have hlength := congrArg List.length hrevoked.controlReceipts
      rw [List.length_append, List.length_singleton] at hlength
      omega
    · exact absurd rfl hne

/-- **It asks for the mutation exactly when the revocation would commit.** -/
theorem preflight_requiresMutation_iff (hw : ControlWellFormed s.tables) :
    s.preflightRevokeCapability sha256 r = .requiresMutation ↔
      (s.revokeCapability sha256 r).1 = .ok .inserted := by
  refine ⟨revokeCapability_of_requiresMutation hw, fun h ↦ ?_⟩
  cases hp : s.preflightRevokeCapability sha256 r with
  | requiresMutation => rfl
  | resolved o =>
    obtain ⟨heq, hne⟩ := revokeCapability_of_resolved hp
    rw [heq] at h
    exact absurd (Except.ok.inj h) hne

end DurableUpdateStore

/-! ## Handlers -/

/-- How many control requests may wait at the gate of a document. -/
def maxControlWaitersPerDocument : ℕ := 8

/-- How far the handling of a revocation has got. -/
inductive RevokePhase
  | received
  /-- The preflight asked for the mutation. -/
  | requiresMutation
  /-- A place at the gate has been taken. -/
  | admitted
  /-- Notifications are excluded. -/
  | excluding
  | answered (result : Except StoreError StoreControlOutcome)
  /-- The gate was saturated, and the connection ends. -/
  | saturated

/-- The request has a place at the gate. -/
def RevokePhase.waits : RevokePhase → Bool
  | .admitted | .excluding => true
  | _ => false

/-- The request holds the gate. -/
def RevokePhase.excludes : RevokePhase → Bool
  | .excluding => true
  | _ => false

/-- The answer, if there is one. -/
def RevokePhase.answer? : RevokePhase → Option (Except StoreError StoreControlOutcome)
  | .answered result => some result
  | _ => none

structure RevokeHandler where
  request : RevokeCommand
  phase : RevokePhase

/-- The request of a handler that has answered, with its answer. -/
def RevokeHandler.answer? (handler : RevokeHandler) :
    Option (RevokeCommand × Except StoreError StoreControlOutcome) :=
  handler.phase.answer?.map fun result ↦ (handler.request, result)

/-- The store, the handlers of revocations in the order of their arrival, and how many notifications
are being written for each document. -/
structure RevokeService where
  store : DurableUpdateStore
  handlers : List RevokeHandler
  emissions : DocumentId → ℕ

/-- What happens next. -/
inductive RevokeAction
  /-- Some other request has its turn at the store. -/
  | other (request : Request)
  | receive (r : RevokeCommand)
  | preflight (handler : ℕ)
  | acquire (handler : ℕ)
  | exclude (handler : ℕ)
  | mutate (handler : ℕ)
  | beginEmission (d : DocumentId)
  | endEmission (d : DocumentId)

namespace RevokeService

/-- How many places at the gate of a document are taken. -/
def waiters (service : RevokeService) (d : DocumentId) : ℕ :=
  service.handlers.countP fun handler ↦ handler.request.documentId = d ∧ handler.phase.waits

/-- The gate of a document is held. -/
def excluded (service : RevokeService) (d : DocumentId) : Bool :=
  service.handlers.any fun handler ↦ handler.request.documentId = d ∧ handler.phase.excludes

def setHandler (service : RevokeService) (i : ℕ) (handler : RevokeHandler) : RevokeService :=
  { service with handlers := service.handlers.set i handler }

section Hash

variable (sha256 : List UInt8 → Bytes verifierLength)

/-- One step of the system. -/
def step (service : RevokeService) : RevokeAction → Option RevokeService
  | .other request => some { service with store := service.store.step sha256 request }
  | .receive r => some { service with handlers := service.handlers ++ [⟨r, .received⟩] }
  | .preflight i =>
    match service.handlers[i]? with
    | some ⟨r, .received⟩ =>
      match service.store.preflightRevokeCapability sha256 r with
      | .resolved o => some (service.setHandler i ⟨r, .answered (.ok o)⟩)
      | .requiresMutation => some (service.setHandler i ⟨r, .requiresMutation⟩)
    | _ => none
  | .acquire i =>
    match service.handlers[i]? with
    | some ⟨r, .requiresMutation⟩ =>
      if service.waiters r.documentId < maxControlWaitersPerDocument then
        some (service.setHandler i ⟨r, .admitted⟩)
      else some (service.setHandler i ⟨r, .saturated⟩)
    | _ => none
  | .exclude i =>
    match service.handlers[i]? with
    | some ⟨r, .admitted⟩ =>
      if service.emissions r.documentId = 0 ∧ service.excluded r.documentId = false then
        some (service.setHandler i ⟨r, .excluding⟩)
      else none
    | _ => none
  | .mutate i =>
    match service.handlers[i]? with
    | some ⟨r, .excluding⟩ =>
      let (result, store) := service.store.revokeCapability sha256 r
      some { service.setHandler i ⟨r, .answered result⟩ with store }
    | _ => none
  | .beginEmission d =>
    if service.excluded d then none
    else some { service with
      emissions := Function.update service.emissions d (service.emissions d + 1) }
  | .endEmission d =>
    if service.emissions d = 0 then none
    else some { service with
      emissions := Function.update service.emissions d (service.emissions d - 1) }

/-- The atomic requests a step stands for, with the handler on whose behalf they are carried out. -/
def points (service : RevokeService) : RevokeAction → List (Option ℕ × Request)
  | .other request => [(none, request)]
  | .preflight i =>
    match service.handlers[i]? with
    | some ⟨r, .received⟩ =>
      match service.store.preflightRevokeCapability sha256 r with
      | .resolved _ => [(some i, .revoke r)]
      | .requiresMutation => []
    | _ => []
  | .mutate i =>
    match service.handlers[i]? with
    | some ⟨r, .excluding⟩ => [(some i, .revoke r)]
    | _ => []
  | _ => []

end Hash

/-- A store that nothing has been asked of. -/
def initial : RevokeService := ⟨.initial, [], fun _ ↦ 0⟩

/-- What the handler of the given number has answered, and to what. -/
def answer? (service : RevokeService) (i : ℕ) :
    Option (RevokeCommand × Except StoreError StoreControlOutcome) :=
  service.handlers[i]?.bind RevokeHandler.answer?

/-- The atomic requests that are due to the handler of the given number. -/
def completed (service : RevokeService) (i : ℕ) : List (Option ℕ × Request) :=
  (service.answer? i).elim [] fun answer ↦ [(some i, .revoke answer.1)]

/-! ## Steps -/

variable {sha256 : List UInt8 → Bytes verifierLength} {service service' : RevokeService}
  {action : RevokeAction} {i : ℕ} {handler : RevokeHandler}

@[simp] theorem store_setHandler : (service.setHandler i handler).store = service.store := rfl

@[simp] theorem emissions_setHandler :
    (service.setHandler i handler).emissions = service.emissions := rfl

@[simp] theorem handlers_setHandler :
    (service.setHandler i handler).handlers = service.handlers.set i handler := rfl

theorem answer?_eq {j : ℕ} (h : service.handlers[j]? = some handler) :
    service.answer? j = handler.answer? := by
  rw [answer?, h, Option.bind_some]

/-- A handler that goes on without an answer changes nobody's answer. -/
theorem answer?_setHandler {before after : RevokeHandler}
    (h : service.handlers[i]? = some before) (hbefore : before.answer? = none)
    (hafter : after.answer? = none) (j : ℕ) :
    (service.setHandler i after).answer? j = service.answer? j := by
  rw [answer?, answer?, handlers_setHandler, List.getElem?_set]
  split
  · rename_i hj
    subst hj
    have hlt := (List.getElem?_eq_some_iff.mp h).1
    rw [if_pos hlt, h, Option.bind_some, Option.bind_some, hbefore, hafter]
  · rfl

/-- A request that has just been received is not answered. -/
theorem answer?_receive (r : RevokeCommand) (j : ℕ) :
    ({ service with handlers := service.handlers ++ [⟨r, .received⟩] } : RevokeService).answer? j =
      service.answer? j := by
  simp only [answer?]
  rcases lt_trichotomy j service.handlers.length with hlt | rfl | hgt
  · rw [List.getElem?_append_left hlt]
  · rw [List.getElem?_concat_length, List.getElem?_eq_none le_rfl]
    rfl
  · rw [List.getElem?_eq_none (by simp; omega), List.getElem?_eq_none (by omega)]

variable (sha256) in
/-- What a step does, by the atomic requests it stands for. -/
inductive Stepped (service service' : RevokeService) : List (Option ℕ × Request) → Prop
  /-- Nobody is answered. -/
  | silent (store : service'.store = service.store)
      (answers : ∀ i, service'.answer? i = service.answer? i) :
      Stepped service service' []
  | other (request : Request) (store : service'.store = service.store.step sha256 request)
      (handlers : service'.handlers = service.handlers) :
      Stepped service service' [(none, request)]
  /-- A handler answers what the revocation does to the store. -/
  | answered (i : ℕ) (r : RevokeCommand) (phase : RevokePhase)
      (result : Except StoreError StoreControlOutcome)
      (received : service.handlers[i]? = some ⟨r, phase⟩) (unanswered : phase.answer? = none)
      (revoked : service.store.revokeCapability sha256 r = (result, service'.store))
      (handlers : service'.handlers = service.handlers.set i ⟨r, .answered result⟩) :
      Stepped service service' [(some i, .revoke r)]

theorem stepped_preflight (hw : ControlWellFormed service.store.tables) {i : ℕ}
    (h : service.step sha256 (.preflight i) = some service') :
    Stepped sha256 service service' (service.points sha256 (.preflight i)) := by
  rw [step] at h
  rw [points]
  split at h
  · rename_i r hhandler
    split at h
    · rename_i o hpreflight
      obtain rfl := Option.some_inj.mp h
      exact .answered i r .received (.ok o) hhandler rfl
        ((DurableUpdateStore.preflight_resolved_iff hw).mp hpreflight) rfl
    · rename_i hpreflight
      obtain rfl := Option.some_inj.mp h
      exact .silent rfl (answer?_setHandler hhandler rfl rfl)
  · exact absurd h (by simp)

theorem stepped_mutate {i : ℕ} (h : service.step sha256 (.mutate i) = some service') :
    Stepped sha256 service service' (service.points sha256 (.mutate i)) := by
  rw [step] at h
  rw [points]
  split at h
  · rename_i r hhandler
    obtain rfl := Option.some_inj.mp h
    exact .answered i r .excluding _ hhandler rfl rfl rfl
  · exact absurd h (by simp)

/-- The steps at the gate answer nobody. -/
theorem stepped_gate (h : service.step sha256 action = some service')
    (haction : (∃ i, action = .acquire i ∨ action = .exclude i) ∨
      ∃ d, action = .beginEmission d ∨ action = .endEmission d) :
    service'.store = service.store ∧ ∀ i, service'.answer? i = service.answer? i := by
  rcases haction with ⟨i, rfl | rfl⟩ | ⟨d, rfl | rfl⟩
  · rw [step] at h
    split at h
    · rename_i r hhandler
      split at h
      · obtain rfl := Option.some_inj.mp h
        exact ⟨rfl, answer?_setHandler hhandler rfl rfl⟩
      · obtain rfl := Option.some_inj.mp h
        exact ⟨rfl, answer?_setHandler hhandler rfl rfl⟩
    · exact absurd h (by simp)
  · rw [step] at h
    split at h
    · rename_i r hhandler
      split at h
      · obtain rfl := Option.some_inj.mp h
        exact ⟨rfl, answer?_setHandler hhandler rfl rfl⟩
      · exact absurd h (by simp)
    · exact absurd h (by simp)
  · rw [step] at h
    split at h
    · exact absurd h (by simp)
    · obtain rfl := Option.some_inj.mp h
      exact ⟨rfl, fun _ ↦ rfl⟩
  · rw [step] at h
    split at h
    · exact absurd h (by simp)
    · obtain rfl := Option.some_inj.mp h
      exact ⟨rfl, fun _ ↦ rfl⟩

theorem stepped (hw : ControlWellFormed service.store.tables)
    (h : service.step sha256 action = some service') :
    Stepped sha256 service service' (service.points sha256 action) := by
  cases action with
  | other request =>
    obtain rfl := Option.some_inj.mp h
    exact .other request rfl rfl
  | receive r =>
    obtain rfl := Option.some_inj.mp h
    exact .silent rfl (answer?_receive r)
  | preflight i => exact stepped_preflight hw h
  | acquire i =>
    obtain ⟨hstore, hanswers⟩ := stepped_gate h (.inl ⟨i, .inl rfl⟩)
    exact .silent hstore hanswers
  | exclude i =>
    obtain ⟨hstore, hanswers⟩ := stepped_gate h (.inl ⟨i, .inr rfl⟩)
    exact .silent hstore hanswers
  | mutate i => exact stepped_mutate h
  | beginEmission d =>
    obtain ⟨hstore, hanswers⟩ := stepped_gate h (.inr ⟨d, .inl rfl⟩)
    exact .silent hstore hanswers
  | endEmission d =>
    obtain ⟨hstore, hanswers⟩ := stepped_gate h (.inr ⟨d, .inr rfl⟩)
    exact .silent hstore hanswers

/-- A step changes the store as the atomic requests it stands for do. -/
theorem Stepped.store_eq {done : List (Option ℕ × Request)}
    (h : Stepped sha256 service service' done) :
    service'.store = (done.map Prod.snd).foldl (DurableUpdateStore.step sha256) service.store := by
  cases h with
  | silent store answers => exact store
  | other request store handlers => exact store
  | answered i r phase result received unanswered revoked handlers =>
    exact (congrArg Prod.snd revoked).symm

/-- A step adds to what is due to a handler exactly the atomic request it stands for on its
behalf. -/
theorem Stepped.completed_eq {done : List (Option ℕ × Request)}
    (h : Stepped sha256 service service' done) (i : ℕ) :
    service'.completed i = service.completed i ++ done.filter fun point ↦ point.1 = some i := by
  cases h with
  | silent store answers => rw [completed, completed, answers, List.filter_nil, List.append_nil]
  | other request store handlers => simp [completed, answer?, handlers]
  | answered j r phase result received unanswered revoked handlers =>
    have hlt := (List.getElem?_eq_some_iff.mp received).1
    by_cases hij : j = i
    · subst hij
      have hbefore : service.answer? j = none := by
        rw [answer?_eq received, RevokeHandler.answer?, unanswered, Option.map_none]
      have hafter : service'.answer? j = some (r, result) := by
        rw [answer?, handlers, List.getElem?_set_self hlt]
        rfl
      simp [completed, hbefore, hafter]
    · simp [completed, answer?, handlers, List.getElem?_set_ne hij, hij]

theorem wellFormed_step (hw : WellFormed service.store.tables)
    (h : service.step sha256 action = some service') : WellFormed service'.store.tables := by
  rw [(stepped hw.control h).store_eq]
  exact DurableUpdateStore.wellFormed_runRequests hw _

variable {actions : List RevokeAction}

theorem wellFormed_of_run (hrun : Transition.run (step sha256) initial actions = some service) :
    WellFormed service.store.tables :=
  Transition.invariant (I := fun service : RevokeService ↦ WellFormed service.store.tables)
    (fun _ _ _ hw h ↦ wellFormed_step hw h) DurableUpdateStore.wellFormed_initial hrun

/-! ## The gate -/

/-- While a revocation excludes them, no notification of its document is being written, and no
document has more requests at its gate than there are places. -/
structure Gated (service : RevokeService) : Prop where
  excluded : ∀ d, service.excluded d = true → service.emissions d = 0
  bounded : ∀ d, service.waiters d ≤ maxControlWaitersPerDocument

theorem excluded_eq_true_iff {d : DocumentId} :
    service.excluded d = true ↔ ∃ handler ∈ service.handlers,
      handler.request.documentId = d ∧ handler.phase.excludes = true := by
  simp [RevokeService.excluded]

/-- A handler that does not hold the gate afterwards excludes nothing that was not excluded. -/
theorem excluded_of_setHandler {after : RevokeHandler} {d : DocumentId}
    (hafter : after.phase.excludes = false)
    (h : (service.setHandler i after).excluded d = true) : service.excluded d = true := by
  obtain ⟨handler, hmem, hdocument, hexcludes⟩ := excluded_eq_true_iff.mp h
  rcases List.mem_or_eq_of_mem_set hmem with hmem | rfl
  · exact excluded_eq_true_iff.mpr ⟨handler, hmem, hdocument, hexcludes⟩
  · exact absurd hexcludes (by simp [hafter])

theorem waiters_setHandler_le {before after : RevokeHandler} {d : DocumentId}
    (hi : service.handlers[i]? = some before) (hrequest : after.request = before.request)
    (hwaits : after.phase.waits = true → before.phase.waits = true) :
    (service.setHandler i after).waiters d ≤ service.waiters d := by
  obtain ⟨hlt, hget⟩ := List.getElem?_eq_some_iff.mp hi
  rw [waiters, waiters, handlers_setHandler, List.countP_set hlt, hget, hrequest]
  by_cases hbefore : before.request.documentId = d ∧ before.phase.waits = true
  · have hpos : 0 < service.handlers.countP fun handler ↦
        decide (handler.request.documentId = d ∧ handler.phase.waits = true) :=
      List.countP_pos_iff.mpr ⟨before, List.mem_of_getElem? hi, by simpa using hbefore⟩
    simp only [hbefore, and_self, decide_true, if_true]
    split <;> omega
  · have hafter : ¬(before.request.documentId = d ∧ after.phase.waits = true) :=
      fun h ↦ hbefore ⟨h.1, hwaits h.2⟩
    simp [hbefore, hafter]

/-- Only a request of the document itself takes a place at its gate, and only one. -/
theorem waiters_setHandler_admitted {r : RevokeCommand} {phase : RevokePhase} {d : DocumentId}
    (hi : service.handlers[i]? = some ⟨r, phase⟩) :
    (service.setHandler i ⟨r, .admitted⟩).waiters d ≤
      service.waiters d + if r.documentId = d then 1 else 0 := by
  obtain ⟨hlt, -⟩ := List.getElem?_eq_some_iff.mp hi
  rw [waiters, waiters, handlers_setHandler, List.countP_set hlt]
  have hadmitted : (if decide (r.documentId = d ∧ RevokePhase.admitted.waits = true) then
      1 else 0) = if r.documentId = d then 1 else 0 := by simp [RevokePhase.waits]
  rw [hadmitted]
  exact Nat.add_le_add_right (Nat.sub_le _ _) _

/-- A handler that keeps its request and takes nothing at the gate keeps the gate in order. -/
theorem Gated.setHandler (hg : service.Gated) {before after : RevokeHandler}
    (hi : service.handlers[i]? = some before) (hrequest : after.request = before.request)
    (hwaits : after.phase.waits = true → before.phase.waits = true)
    (hafter : after.phase.excludes = false) : (service.setHandler i after).Gated where
  excluded d h := hg.excluded d (excluded_of_setHandler hafter h)
  bounded d := (waiters_setHandler_le hi hrequest hwaits).trans (hg.bounded d)

theorem gated_step (hg : service.Gated) (h : service.step sha256 action = some service') :
    service'.Gated := by
  cases action with
  | other request =>
    obtain rfl := Option.some_inj.mp h
    exact ⟨hg.excluded, hg.bounded⟩
  | receive r =>
    obtain rfl := Option.some_inj.mp h
    refine ⟨fun d hd ↦ hg.excluded d ?_, fun d ↦ ?_⟩
    · simpa [RevokeService.excluded, RevokePhase.excludes] using hd
    · simpa [waiters, RevokePhase.waits] using hg.bounded d
  | preflight i =>
    rw [step] at h
    split at h
    · rename_i r hhandler
      split at h
      · obtain rfl := Option.some_inj.mp h
        exact hg.setHandler hhandler rfl (by simp [RevokePhase.waits]) rfl
      · obtain rfl := Option.some_inj.mp h
        exact hg.setHandler hhandler rfl (by simp [RevokePhase.waits]) rfl
    · exact absurd h (by simp)
  | acquire i =>
    rw [step] at h
    split at h
    · rename_i r hhandler
      split at h
      · rename_i hlt
        obtain rfl := Option.some_inj.mp h
        refine ⟨fun d hd ↦ hg.excluded d (excluded_of_setHandler rfl hd), fun d ↦ ?_⟩
        have hle := waiters_setHandler_admitted (d := d) hhandler
        split at hle
        · rename_i hd
          subst hd
          omega
        · exact hle.trans (hg.bounded d)
      · obtain rfl := Option.some_inj.mp h
        exact hg.setHandler hhandler rfl (by simp [RevokePhase.waits]) rfl
    · exact absurd h (by simp)
  | exclude i =>
    rw [step] at h
    split at h
    · rename_i r hhandler
      split at h
      · rename_i hfree
        obtain rfl := Option.some_inj.mp h
        have hwaiters : ∀ d, (service.setHandler i ⟨r, .excluding⟩).waiters d ≤ service.waiters d :=
          fun d ↦ waiters_setHandler_le hhandler rfl fun _ ↦ rfl
        refine ⟨fun d hd ↦ ?_, fun d ↦ (hwaiters d).trans (hg.bounded d)⟩
        obtain ⟨handler, hmem, hdocument, hexcludes⟩ := excluded_eq_true_iff.mp hd
        rcases List.mem_or_eq_of_mem_set hmem with hmem | rfl
        · exact hg.excluded d (excluded_eq_true_iff.mpr ⟨handler, hmem, hdocument, hexcludes⟩)
        · exact hdocument ▸ hfree.1
      · exact absurd h (by simp)
    · exact absurd h (by simp)
  | mutate i =>
    rw [step] at h
    split at h
    · rename_i r hhandler
      obtain rfl := Option.some_inj.mp h
      have hset : (service.setHandler i
          ⟨r, .answered (service.store.revokeCapability sha256 r).1⟩).Gated :=
        hg.setHandler hhandler rfl (by simp [RevokePhase.waits]) rfl
      exact ⟨hset.excluded, hset.bounded⟩
    · exact absurd h (by simp)
  | beginEmission d =>
    rw [step] at h
    split at h
    · exact absurd h (by simp)
    · rename_i hfree
      obtain rfl := Option.some_inj.mp h
      refine ⟨fun d' hd' ↦ ?_, hg.bounded⟩
      by_cases hd : d' = d
      · exact absurd (hd ▸ hd' : service.excluded d = true) hfree
      · exact (Function.update_of_ne hd _ _).trans (hg.excluded d' hd')
  | endEmission d =>
    rw [step] at h
    split at h
    · exact absurd h (by simp)
    · rename_i hpos
      obtain rfl := Option.some_inj.mp h
      refine ⟨fun d' hd' ↦ ?_, hg.bounded⟩
      have hzero := hg.excluded d' hd'
      by_cases hd : d' = d
      · exact absurd (hd ▸ hzero) hpos
      · exact (Function.update_of_ne hd _ _).trans hzero

theorem gated_of_run (hrun : Transition.run (step sha256) initial actions = some service) :
    service.Gated :=
  Transition.invariant (fun _ _ _ hg h ↦ gated_step hg h)
    ⟨fun _ h ↦ absurd h (by simp [RevokeService.excluded, initial]), fun _ ↦ Nat.zero_le _⟩ hrun

/-- A revocation is carried out while no notification of its document is being written. -/
theorem Gated.emissions_of_mutate (hg : service.Gated) {r : RevokeCommand} {phase : RevokePhase}
    (h : service.step sha256 (.mutate i) = some service')
    (hhandler : service.handlers[i]? = some ⟨r, phase⟩) : service.emissions r.documentId = 0 := by
  rw [step] at h
  split at h
  · rename_i r' hexcluding
    obtain ⟨rfl, -⟩ := RevokeHandler.mk.inj (Option.some_inj.mp (hhandler.symm.trans hexcluding))
    exact hg.excluded _ (excluded_eq_true_iff.mpr ⟨_, List.mem_of_getElem? hexcluding, rfl, rfl⟩)
  · exact absurd h (by simp)

/-! ## Linearizability -/

/-- The store of a run is what its atomic requests make of it. -/
theorem store_of_run (hrun : Transition.run (step sha256) initial actions = some service) :
    service.store = DurableUpdateStore.initial.run sha256
      ((Transition.history (step sha256) (points sha256) initial actions).map Prod.snd) := by
  rw [DurableUpdateStore.run, List.foldl_map]
  have hstore : ∀ (s : RevokeService) a s', WellFormed s.store.tables → s.step sha256 a = some s' →
      s'.store = (s.points sha256 a).foldl (fun store point ↦ store.step sha256 point.2) s.store :=
    fun s a s' hw h ↦ by rw [(stepped hw.control h).store_eq, List.foldl_map]
  exact Transition.history_refines (I := fun service : RevokeService ↦
    WellFormed service.store.tables)
    (fun _ _ _ hw h ↦ wellFormed_step hw h) hstore DurableUpdateStore.wellFormed_initial hrun

/-- A run has carried out for a handler exactly what is due to it. -/
theorem completed_of_run (hrun : Transition.run (step sha256) initial actions = some service)
    (i : ℕ) :
    (Transition.history (step sha256) (points sha256) initial actions).filter
      (fun point ↦ point.1 = some i) = service.completed i := by
  induction actions using List.reverseRecOn generalizing service with
  | nil =>
    obtain rfl := Option.some_inj.mp hrun
    rfl
  | append_singleton actions action ih =>
    obtain ⟨service₁, hrun₁, hstep⟩ := Transition.run_concat_eq_some_iff.mp hrun
    rw [Transition.history_concat hrun₁ hstep, List.filter_append, ih hrun₁]
    exact ((stepped (wellFormed_of_run hrun₁).control hstep).completed_eq i).symm

/-- A step that answers a handler carries its request out. -/
theorem Stepped.of_answer {done : List (Option ℕ × Request)}
    (h : Stepped sha256 service service' done) {r : RevokeCommand}
    {result : Except StoreError StoreControlOutcome}
    (hbefore : service.answer? i ≠ some (r, result))
    (hafter : service'.answer? i = some (r, result)) :
    done = [(some i, .revoke r)] ∧
      (∃ phase, service.handlers[i]? = some ⟨r, phase⟩ ∧ phase.answer? = none) ∧
      service.store.revokeCapability sha256 r = (result, service'.store) := by
  cases h with
  | silent store answers => exact absurd ((answers i).symm.trans hafter) hbefore
  | other request store handlers =>
    exact absurd (by rw [← hafter, answer?, answer?, handlers]) hbefore
  | answered j r' phase result' received unanswered revoked handlers =>
    by_cases hij : j = i
    · subst hij
      have hlt := (List.getElem?_eq_some_iff.mp received).1
      rw [answer?, handlers, List.getElem?_set_self hlt] at hafter
      obtain ⟨rfl, rfl⟩ := Prod.mk.inj (Option.some_inj.mp hafter)
      exact ⟨rfl, ⟨phase, received, unanswered⟩, revoked⟩
    · refine absurd ?_ hbefore
      rw [← hafter, answer?, answer?, handlers, List.getElem?_set_ne hij]

end RevokeService

/-- **The revocation in two phases is linearizable.**  On every reachable store the preflight
decides as the revocation does.  Hence every run of the handlers, however it is interleaved with
other requests, leaves the store that its atomic requests leave one after another; what is carried
out for a handler is its own request, once, when it is answered, and nothing when it is not; and the
answer and the change are those of the revocation at the instant of one step, at which the handler
was there and had not answered; no notification of the document is being written when it mutates. -/
theorem revocation_linearizable (sha256 : List UInt8 → Bytes verifierLength) :
    (∀ (requests : List Request) (r : RevokeCommand),
      (∀ o, (DurableUpdateStore.initial.run sha256 requests).preflightRevokeCapability sha256 r =
          .resolved o ↔
        (DurableUpdateStore.initial.run sha256 requests).revokeCapability sha256 r =
          (.ok o, DurableUpdateStore.initial.run sha256 requests)) ∧
      ((DurableUpdateStore.initial.run sha256 requests).preflightRevokeCapability sha256 r =
          .requiresMutation ↔
        ((DurableUpdateStore.initial.run sha256 requests).revokeCapability sha256 r).1 =
          .ok .inserted)) ∧
    ∀ (actions : List RevokeAction) (service : RevokeService),
      Transition.run (RevokeService.step sha256) .initial actions = some service →
      service.store = DurableUpdateStore.initial.run sha256
          ((Transition.history (RevokeService.step sha256) (RevokeService.points sha256) .initial
            actions).map Prod.snd) ∧
      ∀ i,
        (service.answer? i = none →
          (Transition.history (RevokeService.step sha256) (RevokeService.points sha256) .initial
            actions).filter (fun point ↦ point.1 = some i) = []) ∧
        ∀ r result, service.answer? i = some (r, result) →
          (Transition.history (RevokeService.step sha256) (RevokeService.points sha256) .initial
            actions).filter (fun point ↦ point.1 = some i) = [(some i, .revoke r)] ∧
          ∃ before action after service₁ service₂, actions = before ++ action :: after ∧
            Transition.run (RevokeService.step sha256) .initial before = some service₁ ∧
            service₁.step sha256 action = some service₂ ∧
            service₁.points sha256 action = [(some i, .revoke r)] ∧
            (action = .mutate i → service₁.emissions r.documentId = 0) ∧
            (∃ phase, service₁.handlers[i]? = some ⟨r, phase⟩ ∧ phase.answer? = none) ∧
            service₁.store.revokeCapability sha256 r = (result, service₂.store) := by
  refine ⟨fun requests r ↦ ?_, fun actions service hrun ↦
    ⟨RevokeService.store_of_run hrun, fun i ↦ ⟨fun hanswer ↦ ?_, fun r result hanswer ↦ ⟨?_, ?_⟩⟩⟩⟩
  · have hrun : WellFormed (DurableUpdateStore.initial.run sha256 requests).tables :=
      DurableUpdateStore.wellFormed_runRequests DurableUpdateStore.wellFormed_initial requests
    have hw := hrun.control
    exact ⟨fun o ↦ DurableUpdateStore.preflight_resolved_iff hw,
      DurableUpdateStore.preflight_requiresMutation_iff hw⟩
  · rw [RevokeService.completed_of_run hrun, RevokeService.completed, hanswer, Option.elim_none]
  · rw [RevokeService.completed_of_run hrun, RevokeService.completed, hanswer, Option.elim_some]
  · obtain ⟨before, action, after, service₁, service₂, hactions, hbefore, hstep, -, hnot, hdone⟩ :=
      Transition.exists_step_of_run
        (P := fun service : RevokeService ↦ service.answer? i = some (r, result)) hrun
        (by simp [RevokeService.initial, RevokeService.answer?]) hanswer
    obtain ⟨hpoints, hreceived, hrevoked⟩ := (RevokeService.stepped
      (RevokeService.wellFormed_of_run hbefore).control hstep).of_answer hnot hdone
    refine ⟨before, action, after, service₁, service₂, hactions, hbefore, hstep, hpoints, ?_,
      hreceived, hrevoked⟩
    rintro rfl
    obtain ⟨phase, hhandler, -⟩ := hreceived
    exact (RevokeService.gated_of_run hbefore).emissions_of_mutate hstep hhandler

/-- Two requests to revoke the child, one of them a repetition; an update of the child is accepted
between the check and the revocation, and both requests wait at the gate. -/
def Sample.revoking : List RevokeAction :=
  Sample.opening.map .other ++
    [.receive Sample.revoke, .receive Sample.revoke, .preflight 0, .preflight 1,
      .other (.accept Sample.accept), .acquire 0, .acquire 1, .exclude 0, .mutate 0, .exclude 1,
      .mutate 1]

/-- The first one commits and the second one finds it done, each at one instant, and while the first
one is at the store no notification of the document is being written. -/
theorem revocation_linearizable_sample :
    ∃ service, Transition.run (RevokeService.step Sample.sha256) .initial Sample.revoking =
        some service ∧
      service.answer? 0 = some (Sample.revoke, .ok .inserted) ∧
      service.answer? 1 = some (Sample.revoke, .ok .alreadyPresent) ∧
      service.store = DurableUpdateStore.initial.run Sample.sha256
        ((Transition.history (RevokeService.step Sample.sha256) (RevokeService.points Sample.sha256)
          .initial Sample.revoking).map Prod.snd) ∧
      (Transition.history (RevokeService.step Sample.sha256) (RevokeService.points Sample.sha256)
          .initial Sample.revoking).filter (fun point ↦ point.1 = some 1) =
        [(some 1, .revoke Sample.revoke)] ∧
      ∃ service₁ service₂ : RevokeService, service₁.store.revokeCapability Sample.sha256
        Sample.revoke = (.ok .inserted, service₂.store) := by
  have hview : (Transition.run (RevokeService.step Sample.sha256) .initial Sample.revoking).any
      (fun service ↦ decide (service.answer? 0 = some (Sample.revoke, .ok .inserted)) &&
        decide (service.answer? 1 = some (Sample.revoke, .ok .alreadyPresent))) = true := by
    decide +kernel
  obtain ⟨service, hrun, hanswers⟩ := (Option.any_eq_true _ _).mp hview
  simp only [Bool.and_eq_true, decide_eq_true_eq] at hanswers
  obtain ⟨hfirst, hsecond⟩ := hanswers
  obtain ⟨hstore, hhandlers⟩ :=
    (revocation_linearizable Sample.sha256).2 Sample.revoking service hrun
  obtain ⟨-, -, -, -, service₁, service₂, -, -, -, -, -, -, hrevoked⟩ :=
    (hhandlers 0).2 _ _ hfirst
  exact ⟨service, hrun, hfirst, hsecond, hstore, ((hhandlers 1).2 _ _ hsecond).1, service₁,
    service₂, hrevoked⟩

end Renee
