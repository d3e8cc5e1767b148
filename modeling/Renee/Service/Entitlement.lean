import Renee.Service.Handoff
import Renee.Store.Coherence

/-!
# Live subscriptions are entitled

What `authority_coherent` says of a store that takes every request in one step holds among
concurrent users as well: a subscription that is active, on a channel whose lease is held, is under
a capability that has not been revoked, unless a revocation that has committed is still ending what
it has found.

* `RegistrySystem.Entitled` is what the registry keeps up.  Its `exposed` are the documents on which
  a live subscription may have lost its capability.
* `obeys_contexts`: what is live when a revocation commits is among what it has found.
* `SharedStore.Entitled` puts it together with a revocation that still asks (`Entitled.step`).
-/

set_option autoImplicit false

namespace Renee

open ByteString Interference SharedProgram Ancestry

/-! ## In the registry -/

namespace RegistrySystem

variable {P P' : DocumentId → CapabilityId → Prop} {exposed exposed' : DocumentId → Prop}
  {system system' : RegistrySystem} {action : RegistryAction} {call : RegistryCall} {l : Ledger}

/-- `P` holds of the live subscriptions, unless the operation in progress is going to end them, and
of what it is going to hand out. -/
structure Entitled (P : DocumentId → CapabilityId → Prop) (exposed : DocumentId → Prop)
    (system : RegistrySystem) : Prop where
  live : ∀ receiver ∈ system.receivers, Taken system.shared receiver.entry →
    P receiver.entry.documentId receiver.entry.capabilityId ∨ exposed receiver.entry.documentId ∧
      ∃ holder ∈ system.holder, holder.call.picks receiver.entry = true
  registering : ∀ holder ∈ system.holder, ∀ channel d c,
    holder.call = .register channel d c → P d c

theorem Entitled.mono (h : system.Entitled P exposed) (hP : ∀ d c, P d c → P' d c) :
    system.Entitled P' exposed :=
  ⟨fun receiver hmem htaken ↦ (h.live receiver hmem htaken).imp (hP _ _) id,
    fun holder hmem channel d c heq ↦ hP d c (h.registering holder hmem channel d c heq)⟩

/-- While no operation is in progress every live subscription is entitled. -/
theorem Entitled.live_of_free (h : system.Entitled P exposed) (hfree : system.holder = none)
    {receiver : Receiver} (hmem : receiver ∈ system.receivers)
    (htaken : Taken system.shared receiver.entry) :
    P receiver.entry.documentId receiver.entry.capabilityId := by
  refine (h.live receiver hmem htaken).resolve_right ?_
  rintro ⟨-, holder, hholder, -⟩
  rw [hfree] at hholder
  exact absurd hholder (by simp)

theorem Entitled.of_free (h : system.Entitled P exposed) (hfree : system.holder = none) :
    system.Entitled P exposed' :=
  ⟨fun _ hmem htaken ↦ .inl (h.live_of_free hfree hmem htaken), h.registering⟩

/-- An operation goes on, or returns and has ended what it was going to. -/
theorem entitled_advance {program : SharedProgram RegistryOutcome}
    (hlive : ∀ receiver ∈ system.receivers, Taken system.shared receiver.entry →
      P receiver.entry.documentId receiver.entry.capabilityId ∨
        exposed receiver.entry.documentId ∧ call.picks receiver.entry = true)
    (hregistering : ∀ channel d c, call = .register channel d c → P d c)
    (hleaves : ∀ outcome, program = .result outcome →
      ∃ s₀, Leaves call system.fields s₀ system.shared outcome)
    (hpicked : ∀ outcome, program = .result outcome → ∀ receiver ∈ system.receivers,
      call.picks receiver.entry = true → ¬Taken system.shared receiver.entry) :
    (system.advance call program).Entitled P exposed := by
  cases program with
  | access o k =>
    refine ⟨fun receiver hmem htaken ↦ (hlive receiver hmem htaken).imp id fun h ↦
      ⟨h.1, _, rfl, h.2⟩, ?_⟩
    intro holder hholder
    obtain rfl := Option.some_inj.mp hholder
    exact hregistering
  | result outcome =>
    refine ⟨fun receiver hmem htaken ↦ .inl ?_, fun holder hmem ↦ absurd hmem (by simp [advance])⟩
    rw [receivers_return] at hmem
    rcases List.mem_append.mp hmem with hold | hnew
    · refine (hlive receiver hold htaken).resolve_right fun h ↦ ?_
      exact hpicked outcome rfl receiver hold h.2 htaken
    · obtain ⟨entry, hentry, rfl⟩ := List.mem_map.mp hnew
      obtain ⟨s₀, hleaves⟩ := hleaves outcome rfl
      cases hleaves with
      | registered call_eq swept room =>
        obtain rfl := Option.some_inj.mp (Option.mem_toList.mp hentry)
        exact hregistering _ _ _ call_eq
      | done | opened | invalidChannel | backpressure =>
        exact absurd hentry (by simp [RegistryReply.registered?])

/-- What an operation that has returned was going to end is not live. -/
theorem not_taken_of_concludes (hw : system.WellFormed) {outcome : RegistryOutcome} {l₀ : Ledger}
    (hshared : l.shared = system.shared) (h : Concludes call system.fields l₀ outcome l)
    {receiver : Receiver} (hmem : receiver ∈ system.receivers)
    (hpicks : call.picks receiver.entry = true) : ¬Taken system.shared receiver.entry := by
  intro htaken
  have hentry := hw.present receiver hmem fun hended ↦ hended htaken.1
  refine h.picked _ hentry hpicks ?_
  rw [Ledger.word, hshared]
  exact htaken.1

/-- An operation takes the mutex. -/
theorem entitled_call (hw : system.WellFormed) (hrecorded : system.Recorded l)
    (hlive : ∀ receiver ∈ system.receivers, Taken system.shared receiver.entry →
      P receiver.entry.documentId receiver.entry.capabilityId ∨
        exposed receiver.entry.documentId ∧ call.picks receiver.entry = true)
    (hregistering : ∀ channel d c, call = .register channel d c → P d c)
    (hstep : system.step (.call call) = some system') : system'.Entitled P exposed := by
  cases stepped hw hstep with
  | called _ free held eq =>
    subst eq
    have hobeys := obeys_program hw.sane held
    have hmeets : HolderMeets _ call _ (call.program system.fields) l := concludes_program
      hw.entries_nodup (fun _ hmem ↦ hw.subscriptionId_lt hmem) hrecorded.booked.sound
    refine entitled_advance hlive hregistering (fun outcome hresult ↦ ?_)
      fun outcome hresult receiver hmem hpicks ↦ ?_
    · rw [hresult] at hobeys
      exact ⟨_, hobeys⟩
    · rw [hresult] at hmeets
      exact not_taken_of_concludes hw hrecorded.booked.shared hmeets hmem hpicks
  | served i receiver receiver' s not_call => exact absurd rfl (not_call call)

/-- Any other step. -/
theorem Entitled.step (h : system.Entitled P exposed) (hw : system.WellFormed)
    (hrecorded : system.Recorded l) (hcall : ∀ call, action ≠ .call call)
    (hstep : system.step action = some system') : system'.Entitled P exposed := by
  have hstepped := stepped hw hstep
  cases hstepped with
  | called call free held eq => exact absurd rfl (hcall call)
  | worked call o k holder eq =>
    subst eq
    obtain ⟨s₀, hholds⟩ := hw.holder _ holder
    obtain ⟨hfollows, hobeys⟩ := hholds.obeys.step
    obtain ⟨-, l₀, hsettled, hmeets⟩ := hrecorded.holder _ holder
    obtain ⟨hkeeps, hmeets⟩ := Program.Meets.step (HolderRelies.refl _) hmeets
    refine entitled_advance (fun receiver hmem htaken ↦ ?_)
      (h.registering _ holder) (fun outcome hresult ↦ ?_)
        fun outcome hresult receiver hmem hpicks ↦ ?_
    · refine (h.live receiver hmem (htaken.of_follows hfollows)).imp id ?_
      rintro ⟨hexposed, holder', hholder', hpicks⟩
      obtain rfl := Option.some_inj.mp (holder.symm.trans hholder')
      exact ⟨hexposed, hpicks⟩
    · rw [hresult] at hobeys
      exact ⟨s₀, hobeys⟩
    · intro htaken
      have hentry := hw.present receiver hmem fun hended ↦
        hended (htaken.of_follows hfollows).1
      have hconcludes : Concludes call system.fields l₀ outcome (l.exec o).2 := by
        rw [← hrecorded.booked.shared] at hresult
        rw [show k (l.exec o).1 = .result outcome from hresult] at hmeets
        exact hmeets
      refine hconcludes.picked _ hentry hpicks ?_
      rw [← hrecorded.booked.shared] at htaken
      exact htaken.1
  | lost channelId s follows eq =>
    subst eq
    exact ⟨fun receiver hmem htaken ↦ h.live receiver hmem (htaken.of_follows follows),
      h.registering⟩
  | served i receiver receiver' s not_call not_work received follows progress eq =>
    subst eq
    refine ⟨fun other hmem htaken ↦ ?_, h.registering⟩
    rcases List.mem_or_eq_of_mem_set hmem with hmem | rfl
    · exact h.live other hmem (htaken.of_follows follows)
    · have hold := h.live receiver (List.mem_of_getElem? received)
      rw [progress.entry] at htaken ⊢
      exact hold (htaken.of_follows follows)

end RegistrySystem

/-! ## What a revocation finds -/

/-- What is live of a document is among what has been found. -/
def Found (fields : RegistryFields) (d : DocumentId) (entries : List SubscriptionEntry)
    (s : Shared) : Prop :=
  ∀ entry ∈ fields.subscriptions, entry.documentId = d → Taken s entry → entry ∈ entries

theorem obeys_contexts (fields : RegistryFields) (d : DocumentId) (s : Shared) :
    Obeys ∅ Set.univ (Found fields d) (contextsProgram fields d) s := by
  refine Obeys.mono (Program.meets_filter (I := fun _ ↦ True) (P := fun _ ↦ True)
    (D := fun (entry : SubscriptionEntry) s ↦ entry.documentId = d → ¬Taken s entry)
    (fun _ _ _ _ ↦ trivial) (fun entry ↦ stable_of_follows fun s s' hs h hd htaken ↦
      hs hd (Taken.of_follows h htaken))
    (fun entry _ s _ ↦ ?_) trivial) fun kept s h entry hmem hd htaken ↦
      (h.2.2 entry hmem).resolve_right fun hleft ↦ hleft hd htaken
  rw [contextsEntry]
  split
  · exact fun hd ↦ absurd hd ‹_›
  change Obeys ∅ Set.univ _ (load entry.subscriptionId >>= _) s
  rw [obeys_bind, obeys_load]
  intro s₁ h₁
  split
  · exact fun _ htaken ↦ absurd htaken.1 ‹_›
  · refine obeys_upgrade.mpr fun s₂ h₂ ↦ ?_
    split
    · trivial
    · rename_i hlost
      exact fun _ htaken ↦ hlost (by simpa using htaken.2)

namespace DurableUpdateStore

variable {sha256 : List UInt8 → Bytes verifierLength} {s : DurableUpdateStore} {request : Request}
  {d : DocumentId} {c : CapabilityId}

/-- A capability stays active, unless a revocation that commits has its target above it. -/
theorem active_step (hw : WellFormed s.tables) (h : s.tables.Active d c)
    (hout : ∀ r, request = .revoke r → (s.revokeCapability sha256 r).1 = .ok .inserted →
      ¬Below s.tables r d c) : (s.step sha256 request).tables.Active d c := by
  by_cases hsame : (s.step sha256 request).tables = s.tables
  · rwa [hsame]
  obtain ⟨m, hm, heffect⟩ := (effect_step sha256 s request).resolve_left hsame
  refine heffect.active hw h ?_
  rintro r rfl
  obtain rfl : request = .revoke r := by
    cases request <;> simp_all [Request.mutation?]
  refine hout r rfl ?_
  rcases revokeCapability_spec (Prod.eta (Renee.revokeCapability sha256 s.tables r)).symm with
    ⟨hcommit, -⟩ | ⟨-, heq⟩
  · exact (revokeCapability_fst r).trans hcommit
  · exact absurd ((tables_step sha256 s (.revoke r)).trans heq) hsame

/-- A subscription is asked for with authority. -/
theorem active_of_registryCall? {channel : BrokerChannel}
    (h : s.registryCall? sha256 request = some (.register channel d c)) : s.tables.Active d c := by
  cases request with
  | subscribe r =>
    rw [registryCall?] at h
    split at h
    · rename_i hauth
      obtain ⟨-, rfl, rfl⟩ := RegistryCall.register.inj (Option.some_inj.mp h)
      rw [Bool.and_eq_true, authorize, decide_eq_true_eq] at hauth
      obtain ⟨row, hrow, hactive, -⟩ := Tables.bears_of_authorizeDocument
        (show authorizeDocument sha256 s.tables r.documentId r.capabilityId r.authenticator .read ≠
          .denied by rw [hauth.2]; simp)
      exact ⟨row, hrow, hactive⟩
    · exact absurd h (by simp)
  | accept r | closeChannel channel | publishRetirement d =>
    rw [registryCall?] at h
    split at h <;> exact absurd h (by simp)
  | _ => exact absurd h (by simp [registryCall?])

end DurableUpdateStore

/-! ## In the store -/

namespace SharedStore

variable {sha256 : List UInt8 → Bytes verifierLength} {t t' : SharedStore} {action : SharedAction}
  {l : Ledger} {exposed exposed' : DocumentId → Prop}

/-- The live subscriptions are under active capabilities, and a revocation in progress finds
them. -/
structure Entitled (t : SharedStore) (exposed : DocumentId → Prop) : Prop where
  registry : t.registry.Entitled t.store.tables.Active exposed
  revoking : ∀ r program, t.revoking = some (r, program) → t.registry.holder = none ∧
    exposed r.documentId ∧ Pending program ∧
      Obeys ∅ Set.univ (Found t.registry.fields r.documentId) program t.registry.shared

theorem Entitled.of_free (h : t.Entitled exposed) (hfree : t.registry.holder = none)
    (hrevoking : t.revoking = none) : t.Entitled exposed' :=
  ⟨h.registry.of_free hfree, fun _ _ heq ↦ absurd (hrevoking.symm.trans heq) (by simp)⟩

/-- The registry is called, when everything that is live is entitled or is going to be ended. -/
theorem entitled_registryCall (hw : t.registry.WellFormed) (hrecorded : t.registry.Recorded l)
    (hrevoking : t.revoking = none) {call : RegistryCall}
    (hlive : ∀ receiver ∈ t.registry.receivers, Taken t.registry.shared receiver.entry →
      t.store.tables.Active receiver.entry.documentId receiver.entry.capabilityId ∨
        exposed receiver.entry.documentId ∧ call.picks receiver.entry = true)
    (hregistering : ∀ channel d c, call = .register channel d c → t.store.tables.Active d c)
    (h : t.call call = some t') : t'.Entitled exposed := by
  obtain ⟨registry, hstep, rfl⟩ := Option.map_eq_some_iff.mp h
  exact ⟨RegistrySystem.entitled_call hw hrecorded hlive hregistering hstep,
    fun _ _ heq ↦ absurd (hrevoking.symm.trans heq) (by simp)⟩

/-- A revocation goes on asking, or commits and is going to end what is live below its target. -/
theorem entitled_revoke (h : t.registry.Entitled t.store.tables.Active exposed) (hin : t.InOrder)
    (hw : t.registry.WellFormed) (hrecorded : t.registry.Recorded l)
    (hfree : t.registry.holder = none) {r : RevokeCommand} (hexposed : exposed r.documentId)
    {program : SharedProgram (List SubscriptionEntry)}
    (hobeys : Obeys ∅ Set.univ (Found t.registry.fields r.documentId) program t.registry.shared)
    (hstep : t.revoke sha256 r program = some t') : t'.Entitled exposed := by
  cases program with
  | access o k =>
    obtain rfl := Option.some_inj.mp hstep
    refine ⟨h, fun r' program' heq ↦ ?_⟩
    obtain ⟨rfl, rfl⟩ := Prod.mk.inj (Option.some_inj.mp heq)
    exact ⟨hfree, hexposed, pending_access, hobeys⟩
  | result entries =>
    rw [revoke] at hstep
    refine entitled_registryCall (t := { t with revoking := none }.serve sha256 (.revoke r)) hw
      hrecorded rfl (fun receiver hmem htaken ↦ ?_) (by simp) hstep
    have hactive := h.live_of_free hfree hmem htaken
    by_cases hbelow :
        DurableUpdateStore.Below t.store.tables r receiver.entry.documentId
          receiver.entry.capabilityId
    · refine .inr ⟨hbelow.1 ▸ hexposed, List.contains_iff_mem.mpr (List.mem_map.mpr
        ⟨receiver.entry, List.mem_filter.mpr ⟨?_, ?_⟩, rfl⟩)⟩
      · exact hobeys _ (hw.present receiver hmem fun hended ↦ hended htaken.1) hbelow.1 htaken
      · obtain ⟨row, hrow, -⟩ := hactive
        rw [hbelow.1] at hrow
        rw [(hin.tables.control.forest _).isDescendantOrSelf_iff hrow, ← hbelow.1]
        exact hbelow.2
    · refine .inl (DurableUpdateStore.active_step hin.tables hactive ?_)
      rintro r' heq -
      obtain rfl := Request.revoke.inj heq
      exact hbelow

/-- The store does its part of a request that revokes nothing, and the registry may be told. -/
theorem entitled_elim (h : t.Entitled exposed) (hin : t.InOrder) (hw : t.registry.WellFormed)
    (hrecorded : t.registry.Recorded l) (hfree : t.registry.holder = none)
    (hrevoking : t.revoking = none) {request : Request}
    (hout : ∀ r, request = .revoke r → (t.store.revokeCapability sha256 r).1 ≠ .ok .inserted)
    (hstep : (t.store.registryCall? sha256 request).elim (some (t.serve sha256 request))
      (t.serve sha256 request).call = some t') : t'.Entitled exposed := by
  have hactive (d : DocumentId) (c : CapabilityId) (hactive : t.store.tables.Active d c) :
      (t.store.step sha256 request).tables.Active d c :=
    DurableUpdateStore.active_step hin.tables hactive fun r heq hcommit ↦
      absurd hcommit (hout r heq)
  cases hcall : t.store.registryCall? sha256 request with
  | none =>
    rw [hcall] at hstep
    obtain rfl := Option.some_inj.mp hstep
    exact ⟨h.registry.mono hactive, h.revoking⟩
  | some call =>
    rw [hcall] at hstep
    refine entitled_registryCall (t := t.serve sha256 request) hw hrecorded hrevoking
      (fun receiver hmem htaken ↦ .inl ?_) (fun channel d c heq ↦ ?_) hstep
    · exact hactive _ _ (h.registry.live_of_free hfree hmem htaken)
    · exact hactive d c (DurableUpdateStore.active_of_registryCall? (heq ▸ hcall))

theorem Entitled.take (h : t.Entitled exposed) (hin : t.InOrder) (hw : t.registry.WellFormed)
    (hrecorded : t.registry.Recorded l) (hfree : t.registry.holder = none)
    (hrevoking : t.revoking = none) {request : Request}
    (hexposed : ∀ r, request = .revoke r → exposed r.documentId)
    (hstep : t.take sha256 request = some t') : t'.Entitled exposed := by
  have hlive := fun (receiver : Receiver) (hmem : receiver ∈ t.registry.receivers) htaken ↦
    h.registry.live_of_free hfree hmem htaken
  have helim (hout : ∀ r, request = .revoke r →
        (t.store.revokeCapability sha256 r).1 ≠ .ok .inserted)
      (hstep : (t.store.registryCall? sha256 request).elim (some (t.serve sha256 request))
        (t.serve sha256 request).call = some t') : t'.Entitled exposed :=
    entitled_elim h hin hw hrecorded hfree hrevoking hout hstep
  cases request with
  | next channelId subscriptionId | cancel subscriptionId | reopen provision generation broker =>
    exact absurd hstep (by simp [SharedStore.take])
  | revoke r =>
    rw [SharedStore.take] at hstep
    split at hstep
    · exact entitled_revoke h.registry hin hw hrecorded hfree (hexposed r rfl)
        (obeys_contexts _ _ _) hstep
    · rename_i hout
      refine helim (fun r' heq ↦ ?_) hstep
      obtain rfl := Request.revoke.inj heq
      exact hout
  | subscribe r =>
    rw [SharedStore.take] at hstep
    cases hcall : t.store.registryCall? sha256 (.subscribe r) with
    | none =>
      rw [hcall] at hstep
      obtain rfl := Option.some_inj.mp hstep
      exact h
    | some call =>
      rw [hcall] at hstep
      refine entitled_registryCall hw hrecorded hrevoking
        (fun receiver hmem htaken ↦ .inl (hlive receiver hmem htaken))
        (fun channel d c heq ↦ ?_) hstep
      exact DurableUpdateStore.active_of_registryCall? (heq ▸ hcall)
  | openChannel =>
    exact entitled_registryCall hw hrecorded hrevoking
      (fun receiver hmem htaken ↦ .inl (hlive receiver hmem htaken)) (by simp) hstep
  | _ => exact helim (by simp) hstep

/-- **Every step keeps the live subscriptions entitled**, when revocations are on documents that are
exposed. -/
theorem Entitled.step (h : t.Entitled exposed) (hin : t.InOrder) (hw : t.registry.WellFormed)
    (hrecorded : t.registry.Recorded l)
    (hexposed : ∀ r, action = .request (.revoke r) → exposed r.documentId)
    (hstep : t.step sha256 action = some t') : t'.Entitled exposed := by
  cases action with
  | request request =>
    rw [SharedStore.step] at hstep
    split at hstep
    · rename_i hfree
      exact h.take hin hw hrecorded (Option.isNone_iff_eq_none.mp hfree.1)
        (Option.isNone_iff_eq_none.mp hfree.2) (fun r heq ↦ hexposed r (congrArg _ heq)) hstep
    · exact absurd hstep (by simp)
  | work =>
    rw [SharedStore.step] at hstep
    split at hstep
    · rename_i r o k hrevoking
      obtain ⟨hfree, hexposed, -, hobeys⟩ := h.revoking r _ hrevoking
      obtain ⟨hsame, -⟩ := (hin.looks r _ hrevoking).access t.registry.shared
      obtain ⟨-, hobeys⟩ := hobeys.step
      dsimp only at hstep
      rw [hsame] at hstep hobeys
      exact entitled_revoke h.registry hin hw hrecorded hfree hexposed hobeys hstep
    · exact absurd hstep (by simp)
    · rename_i hrevoking
      obtain ⟨registry, hregistry, rfl⟩ := Option.map_eq_some_iff.mp hstep
      exact ⟨h.registry.step hw hrecorded (by simp) hregistry,
        fun _ _ heq ↦ absurd (hrevoking.symm.trans heq) (by simp)⟩
  | user action =>
    rw [SharedStore.step] at hstep
    split at hstep
    · rename_i huser
      obtain ⟨registry, hregistry, rfl⟩ := Option.map_eq_some_iff.mp hstep
      have hcall : ∀ call, action ≠ .call call := fun call heq ↦ by
        simp [heq, RegistryAction.byUser] at huser
      have hwork : action ≠ .work := fun heq ↦ by simp [heq, RegistryAction.byUser] at huser
      refine ⟨h.registry.step hw hrecorded hcall hregistry, fun r program heq ↦ ?_⟩
      obtain ⟨hfree, hrevoked, hpending, hobeys⟩ := h.revoking r program heq
      cases RegistrySystem.stepped hw hregistry with
      | called call => exact absurd rfl (hcall call)
      | worked call => exact absurd rfl hwork
      | lost channelId s follows eq =>
        subst eq
        exact ⟨hfree, hrevoked, hpending, hobeys.of_follows hpending follows.weaken⟩
      | served i receiver receiver' s not_call not_work received follows progress eq =>
        subst eq
        exact ⟨hfree, hrevoked, hpending, hobeys.of_follows hpending follows.weaken⟩
    · exact absurd hstep (by simp)

/-- A capability stays active while there is no revocation on its document. -/
theorem Entitled.active_step (h : t.Entitled exposed) (hin : t.InOrder) {d : DocumentId}
    {c : CapabilityId} (hexposed : ¬exposed d)
    (hrequest : ∀ r, action = .request (.revoke r) → r.documentId ≠ d)
    (hactive : t.store.tables.Active d c) (hstep : t.step sha256 action = some t') :
    t'.store.tables.Active d c := by
  rcases store_step hstep with hsame | ⟨request, hstore, hwhich⟩
  · rwa [hsame]
  rw [hstore]
  refine DurableUpdateStore.active_step hin.tables hactive ?_
  rintro r rfl - ⟨rfl, -⟩
  rcases hwhich with rfl | ⟨r', program, heq, hrevoking⟩
  · exact hrequest r rfl rfl
  · obtain rfl := Request.revoke.inj heq
    exact hexposed (h.revoking r program hrevoking).2.1

/-- In every state that the store reaches, when every document may be exposed. -/
theorem Reached.entitled (h : t.Reached sha256) : t.Entitled fun _ ↦ True := by
  refine h.induction (I := fun t ↦ t.Entitled fun _ ↦ True) (fun _ _ _ _ ↦ ?_)
    fun t action t' hreached h hstep ↦ ?_
  · exact ⟨⟨fun receiver hmem ↦ absurd hmem (by simp [opened, RegistrySystem.new]),
      fun holder hmem ↦ absurd hmem (by simp [opened, RegistrySystem.new])⟩,
      fun _ _ heq ↦ absurd heq (by simp [opened])⟩
  · obtain ⟨hw, l, hrecorded⟩ := hreached.recorded
    exact h.step hreached.inOrder hw hrecorded (fun _ _ ↦ trivial) hstep

end SharedStore

end Renee
