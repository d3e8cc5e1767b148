import Renee.Service.Entitlement

/-!
# Why subscriptions are ended

The registry ends subscriptions when it is told to.  What it is told is true: a subscription that it
ends as revoked is under a capability that has been revoked, and the document of one that it ends as
retired has been retired.

* `SharedStore.Grounds` says what holds when the registry is called (`Reached.called_step`).
* `Reached.ends_revoked` and `Reached.ends_retired` are about every call since the store was opened.
* `Reached.broker`: the store and the registry recognize the same channels.
-/

set_option autoImplicit false

namespace Renee

open ByteString Interference SharedProgram Ancestry

/-- Subscriptions to a document that are in the registry. -/
def Finds (fields : RegistryFields) (d : DocumentId) (entries : List SubscriptionEntry) : Prop :=
  ∀ entry ∈ entries, entry ∈ fields.subscriptions ∧ entry.documentId = d

theorem yields_contexts (fields : RegistryFields) (d : DocumentId) :
    (contextsProgram fields d).Yields (Finds fields d) := by
  refine Program.yields_filter (fun entry ↦ ?_) fields.subscriptions
  rw [contextsEntry]
  split
  · exact fun h ↦ absurd h (by simp)
  rename_i hd
  refine (Program.yields_perform (SharedAccess.load entry.subscriptionId)).bind fun state _ ↦ ?_
  split
  · exact fun h ↦ absurd h (by simp)
  · exact fun alive _ ↦ not_not.mp hd

/-- What a receiver has returned stays. -/
theorem RegistrySystem.receiver_step {system system' : RegistrySystem} {action : RegistryAction}
    {receiver : Receiver} {i : ℕ} (hw : system.WellFormed)
    (hi : system.receivers[i]? = some receiver) (hstep : system.step action = some system') :
    ∃ receiver', system'.receivers[i]? = some receiver' ∧ receiver'.entry = receiver.entry ∧
      receiver.returned <+: receiver'.returned := by
  obtain ⟨receiver', hi', hprogress⟩ := (stepped hw hstep).progress hw hi
  refine ⟨receiver', hi', hprogress.entry, ?_⟩
  rcases hprogress.returned with hsame | ⟨poll, hnew, -⟩
  · exact hsame ▸ List.prefix_refl _
  · exact hnew ▸ List.prefix_append _ _

namespace SharedStore

variable {sha256 : List UInt8 → Bytes verifierLength} {t t' : SharedStore} {action : SharedAction}
  {call : RegistryCall}

/-- Why the registry is called in a step. -/
def Grounds (t t' : SharedStore) (action : SharedAction) : RegistryCall → Prop
  | .invalidateSubscriptions subscriptionIds _ => ∀ id ∈ subscriptionIds,
    ∃ entry ∈ t.registry.fields.subscriptions, entry.subscriptionId = id ∧
      t'.store.tables.IsRevoked entry.documentId entry.capabilityId
  | .invalidateDocument d _ => ∃ row, t'.store.tables.document? d = some row ∧ row.retired = true
  | .closeChannel channel =>
    action = .request (.closeChannel channel) ∧ t.store.subscriptions.recognizes channel = true
  | _ => True

variable (sha256) in
/-- A revocation that asks is going to commit, and finds subscriptions to its document. -/
def Asks (t : SharedStore) : Prop := ∀ r program, t.revoking = some (r, program) →
  (t.store.revokeCapability sha256 r).1 = .ok .inserted ∧
    program.Yields (Finds t.registry.fields r.documentId)

theorem asks_of_none (h : t.revoking = none) : t.Asks sha256 :=
  fun _ _ heq ↦ absurd (h.symm.trans heq) (by simp)

/-- The registry is called, and nothing else is. -/
theorem called_call {call' : RegistryCall} (hw : t.registry.WellFormed) (h : t.call call' = some t')
    (hcall : call ∈ t'.registry.called) : call ∈ t.registry.called ∨ call = call' := by
  obtain ⟨registry, hregistry, rfl⟩ := Option.map_eq_some_iff.mp h
  exact (RegistrySystem.called_step hw hregistry hcall).imp id
    fun heq ↦ (RegistryAction.call.inj heq).symm

/-- What a revocation that commits ends is revoked. -/
theorem isRevoked_of_mem {r : RevokeCommand} {entries : List SubscriptionEntry} {id : ℕ}
    (hw : WellFormed t.store.tables)
    (hcommit : (t.store.revokeCapability sha256 r).1 = .ok .inserted)
    (hfinds : Finds t.registry.fields r.documentId entries) (hmem : id ∈ t.revokedIds r entries) :
    ∃ entry ∈ t.registry.fields.subscriptions, entry.subscriptionId = id ∧
      (t.store.step sha256 (.revoke r)).tables.IsRevoked entry.documentId entry.capabilityId := by
  obtain ⟨entry, hentry, rfl⟩ := List.mem_map.mp hmem
  obtain ⟨hentry, hbelow⟩ := List.mem_filter.mp hentry
  obtain ⟨hsubscribed, hdocument⟩ := hfinds entry hentry
  refine ⟨entry, hsubscribed, rfl, ?_⟩
  obtain ⟨n, -, hdescends⟩ := reaches_iff.mp hbelow
  rw [DurableUpdateStore.revokeCapability_fst] at hcommit
  obtain ⟨revision, hrevoked⟩ : ∃ revision, Revoked sha256 t.store.tables
      (t.store.step sha256 (.revoke r)).tables r revision := by
    rw [DurableUpdateStore.tables_step]
    exact (revokeCapability_spec (Prod.eta _).symm).elim And.right fun h ↦ absurd hcommit h.1
  exact (hrevoked.isRevoked_iff hw.control _ _).mpr (.inr ⟨hdocument, n, hdocument ▸ hdescends⟩)

/-- A revocation goes on asking, or commits and ends what it has found. -/
theorem grounds_revoke (hin : t.InOrder) (hw : t.registry.WellFormed) {r : RevokeCommand}
    {program : SharedProgram (List SubscriptionEntry)}
    (hcommit : (t.store.revokeCapability sha256 r).1 = .ok .inserted)
    (hyields : program.Yields (Finds t.registry.fields r.documentId))
    (hstep : t.revoke sha256 r program = some t') :
    t'.Asks sha256 ∧ ∀ call ∈ t'.registry.called, call ∈ t.registry.called ∨
    Grounds t t' action call := by
  cases program with
  | access o k =>
    obtain rfl := Option.some_inj.mp hstep
    refine ⟨fun r' program' heq ↦ ?_, fun call hcall ↦ .inl hcall⟩
    obtain ⟨rfl, rfl⟩ := Prod.mk.inj (Option.some_inj.mp heq)
    exact ⟨hcommit, hyields⟩
  | result entries =>
    have hstore := store_call hstep
    refine ⟨asks_of_none ?_, fun call hcall ↦ ?_⟩
    · obtain ⟨registry, -, rfl⟩ := Option.map_eq_some_iff.mp hstep
      rfl
    · have hstep : ({ t with revoking := none }.serve sha256 (.revoke r)).call
          (.invalidateSubscriptions (t.revokedIds r entries) .revoked) = some t' := hstep
      refine (called_call (t := { t with revoking := none }.serve sha256 (.revoke r)) hw hstep
        hcall).imp id ?_
      rintro rfl id hmem
      obtain ⟨entry, hentry, hid, hrevoked⟩ := isRevoked_of_mem hin.tables hcommit hyields hmem
      exact ⟨entry, hentry, hid, hstore ▸ hrevoked⟩

/-- A request of which the registry hears at once, or not at all. -/
theorem grounds_elim (hin : t.InOrder) (hw : t.registry.WellFormed) (hrevoking : t.revoking = none)
    {request : Request} (hstep : (t.store.registryCall? sha256 request).elim
      (some (t.serve sha256 request)) (t.serve sha256 request).call = some t') :
    t'.Asks sha256 ∧ ∀ call ∈ t'.registry.called,
      call ∈ t.registry.called ∨ Grounds t t' (.request request) call := by
  cases hcalled : t.store.registryCall? sha256 request with
  | none =>
    rw [hcalled] at hstep
    obtain rfl := Option.some_inj.mp hstep
    exact ⟨asks_of_none hrevoking, fun call hcall ↦ .inl hcall⟩
  | some call' =>
    rw [hcalled] at hstep
    have hstore : t'.store = t.store.step sha256 request := store_call hstep
    refine ⟨asks_of_none ?_, fun call hcall ↦ ?_⟩
    · obtain ⟨registry, -, rfl⟩ := Option.map_eq_some_iff.mp hstep
      exact hrevoking
    refine (called_call (t := t.serve sha256 request) hw hstep hcall).imp id ?_
    rintro rfl
    cases request with
    | accept r | subscribe r =>
      rw [DurableUpdateStore.registryCall?] at hcalled
      split at hcalled
      · exact Option.some_inj.mp hcalled ▸ trivial
      · exact absurd hcalled (by simp)
    | openChannel => exact Option.some_inj.mp hcalled ▸ trivial
    | closeChannel channel =>
      rw [DurableUpdateStore.registryCall?] at hcalled
      split at hcalled
      · exact Option.some_inj.mp hcalled ▸ ⟨rfl, ‹_›⟩
      · exact absurd hcalled (by simp)
    | publishRetirement d =>
      rw [DurableUpdateStore.registryCall?] at hcalled
      split at hcalled
      · rename_i hretired
        obtain ⟨row, hrow, hretired⟩ := (Option.any_eq_true _ _).mp hretired
        have hpersists :
            Persists t.store.tables (t.store.step sha256 (.publishRetirement d)).tables :=
          DurableUpdateStore.persists_step hin.tables _
        obtain ⟨row', hrow', -, hkept⟩ := hpersists.document hrow
        exact Option.some_inj.mp hcalled ▸ ⟨row', hstore ▸ hrow', hkept hretired⟩
      · exact absurd hcalled (by simp)
    | _ => exact absurd hcalled (by simp [DurableUpdateStore.registryCall?])

theorem grounds_take (hin : t.InOrder) (hw : t.registry.WellFormed) (hrevoking : t.revoking = none)
    {request : Request} (hstep : t.take sha256 request = some t') :
    t'.Asks sha256 ∧ ∀ call ∈ t'.registry.called,
      call ∈ t.registry.called ∨ Grounds t t' (.request request) call := by
  -- the registry is called, and only it
  have hcalled {call' : RegistryCall} (hgrounds : Grounds t t' (.request request) call')
      (hstep : t.call call' = some t') : t'.Asks sha256 ∧ ∀ call ∈ t'.registry.called,
        call ∈ t.registry.called ∨ Grounds t t' (.request request) call := by
    refine ⟨asks_of_none ?_, fun call hcall ↦ (called_call hw hstep hcall).imp id ?_⟩
    · obtain ⟨registry, -, rfl⟩ := Option.map_eq_some_iff.mp hstep
      exact hrevoking
    · rintro rfl
      exact hgrounds
  cases request with
  | next channelId subscriptionId | cancel subscriptionId | reopen provision generation broker =>
    exact absurd hstep (by simp [take])
  | revoke r =>
    rw [take] at hstep
    split at hstep
    · exact grounds_revoke hin hw ‹_› (yields_contexts _ _) hstep
    · refine grounds_elim hin hw hrevoking ?_
      exact hstep
  | subscribe r =>
    rw [take] at hstep
    cases hcall : t.store.registryCall? sha256 (.subscribe r) with
    | none =>
      rw [hcall] at hstep
      obtain rfl := Option.some_inj.mp hstep
      exact ⟨asks_of_none hrevoking, fun call hcall ↦ .inl hcall⟩
    | some call =>
      rw [hcall] at hstep
      refine hcalled ?_ hstep
      rw [DurableUpdateStore.registryCall?] at hcall
      split at hcall
      · exact Option.some_inj.mp hcall ▸ trivial
      · exact absurd hcall (by simp)
  | openChannel => exact hcalled (show Grounds t t' _ .openChannel from trivial) hstep
  | _ => exact grounds_elim hin hw hrevoking hstep

/-- **Whenever the registry is called there is reason to.** -/
theorem grounds_step (hin : t.InOrder) (hw : t.registry.WellFormed) (h : t.Asks sha256)
    (hstep : t.step sha256 action = some t') :
    t'.Asks sha256 ∧ ∀ call ∈ t'.registry.called, call ∈ t.registry.called ∨
    Grounds t t' action call := by
  cases action with
  | request request =>
    rw [step] at hstep
    split at hstep
    · rename_i hfree
      exact grounds_take hin hw (Option.isNone_iff_eq_none.mp hfree.2) hstep
    · exact absurd hstep (by simp)
  | work =>
    rw [step] at hstep
    split at hstep
    · rename_i r o k hrevoking
      obtain ⟨hcommit, hyields⟩ := h r _ hrevoking
      obtain ⟨hsame, -⟩ := (hin.looks r _ hrevoking).access t.registry.shared
      dsimp only at hstep
      rw [hsame] at hstep
      exact grounds_revoke hin hw hcommit (hyields _) hstep
    · exact absurd hstep (by simp)
    · rename_i hrevoking
      obtain ⟨registry, hregistry, rfl⟩ := Option.map_eq_some_iff.mp hstep
      exact ⟨asks_of_none hrevoking, fun call hcall ↦
        .inl ((RegistrySystem.called_step hw hregistry hcall).resolve_right (by simp))⟩
  | user action =>
    rw [step] at hstep
    split at hstep
    · rename_i huser
      obtain ⟨registry, hregistry, rfl⟩ := Option.map_eq_some_iff.mp hstep
      refine ⟨fun r program heq ↦ ?_, fun call hcall ↦
        .inl ((RegistrySystem.called_step hw hregistry hcall).resolve_right fun heq ↦ ?_)⟩
      · have hfields : registry.fields = t.registry.fields := by
          cases RegistrySystem.stepped hw hregistry with
          | called call | worked call => exact absurd huser (by simp [RegistryAction.byUser])
          | lost channelId s follows eq => exact eq ▸ rfl
          | served i receiver receiver' s not_call not_work received follows progress eq =>
            exact eq ▸ rfl
        exact (h r program heq).imp id fun hyields ↦ hfields ▸ hyields
      · exact absurd huser (by simp [heq, RegistryAction.byUser])
    · exact absurd hstep (by simp)

theorem Reached.asks (h : t.Reached sha256) : t.Asks sha256 :=
  h.induction (fun _ _ _ _ ↦ asks_of_none rfl) fun _ _ _ ht h hstep ↦
    (grounds_step ht.inOrder ht.recorded.1 h hstep).1

theorem Reached.called_step (h : t.Reached sha256) (hstep : t.step sha256 action = some t')
    (hcall : call ∈ t'.registry.called) : call ∈ t.registry.called ∨ Grounds t t' action call :=
  (grounds_step h.inOrder h.recorded.1 h.asks hstep).2 call hcall

/-! ## What has been ended -/

/-- What has been said of subscriptions and documents is true. -/
structure Honest (t : SharedStore) : Prop where
  revoked : ∀ subscriptionIds reason, .invalidateSubscriptions subscriptionIds reason ∈
    t.registry.called →
    ∀ id ∈ subscriptionIds, ∃ receiver ∈ t.registry.receivers, receiver.entry.subscriptionId = id ∧
      t.store.tables.IsRevoked receiver.entry.documentId receiver.entry.capabilityId
  retired : ∀ d reason, .invalidateDocument d reason ∈ t.registry.called →
    ∃ row, t.store.tables.document? d = some row ∧ row.retired = true

/-- What a step leaves to the users of the store. -/
structure Stays (t t' : SharedStore) : Prop where
  receivers : ∀ (i : ℕ) (receiver : Receiver), t.registry.receivers[i]? = some receiver →
    ∃ receiver' : Receiver, t'.registry.receivers[i]? = some receiver' ∧
      receiver'.entry = receiver.entry ∧ receiver.returned <+: receiver'.returned
  follows : Follows ∅ t.registry.shared t'.registry.shared
  tables : Persists t.store.tables t'.store.tables

theorem Stays.refl (t : SharedStore) : Stays t t :=
  ⟨fun _ receiver hi ↦ ⟨receiver, hi, rfl, List.prefix_refl _⟩, .refl .., .refl _⟩

theorem Stays.trans {t'' : SharedStore} (h : Stays t t') (h' : Stays t' t'') : Stays t t'' where
  receivers i receiver hi := by
    obtain ⟨receiver', hi', hentry, hreturned⟩ := h.receivers i receiver hi
    obtain ⟨receiver'', hi'', hentry', hreturned'⟩ := h'.receivers i receiver' hi'
    exact ⟨receiver'', hi'', hentry'.trans hentry, hreturned.trans hreturned'⟩
  follows := h.follows.trans h'.follows
  tables := h.tables.trans h'.tables

theorem Reached.stays (h : t.Reached sha256) (hstep : t.step sha256 action = some t') :
    Stays t t' := by
  obtain ⟨hw, -⟩ := h.recorded
  have htables : Persists t.store.tables t'.store.tables := by
    rcases store_step hstep with hsame | ⟨request, hstore, -⟩
    · exact hsame ▸ .refl _
    · exact hstore ▸ DurableUpdateStore.persists_step h.inOrder.tables request
  rcases registry_step h.inOrder hstep with hsame | ⟨action', -, hregistry⟩
  · exact ⟨by rw [hsame]; exact (Stays.refl t).receivers, hsame ▸ .refl .., htables⟩
  · exact ⟨fun i receiver hi ↦ RegistrySystem.receiver_step hw hi hregistry,
      (RegistrySystem.stepped hw hregistry).follows hw, htables⟩

theorem Reached.honest (h : t.Reached sha256) : t.Honest := by
  refine h.induction (I := Honest) (fun _ _ _ _ ↦ ?_) fun t action t' ht h hstep ↦ ?_
  · exact ⟨fun _ _ hcall ↦
      absurd hcall (by simp [opened, RegistrySystem.called, RegistrySystem.new]),
      fun _ _ hcall ↦ absurd hcall (by simp [opened, RegistrySystem.called, RegistrySystem.new])⟩
  have hstays := ht.stays hstep
  refine ⟨fun ids reason hcall id hid ↦ ?_, fun d reason hcall ↦ ?_⟩
  · obtain ⟨receiver, hmem, hsame, hrevoked⟩ : ∃ receiver ∈ t.registry.receivers,
        receiver.entry.subscriptionId = id ∧
          t'.store.tables.IsRevoked receiver.entry.documentId receiver.entry.capabilityId := by
      rcases ht.called_step hstep hcall with hold | hgrounds
      · obtain ⟨receiver, hmem, hsame, hrevoked⟩ := h.revoked ids reason hold id hid
        exact ⟨receiver, hmem, hsame, hrevoked.persists hstays.tables⟩
      · obtain ⟨entry, hentry, hsame, hrevoked⟩ := hgrounds id hid
        obtain ⟨receiver, hmem, rfl⟩ := List.mem_map.mp (ht.recorded.1.handed entry hentry)
        exact ⟨receiver, hmem, hsame, hrevoked⟩
    obtain ⟨i, hi⟩ := List.getElem?_of_mem hmem
    obtain ⟨receiver', hi', hentry, -⟩ := hstays.receivers i receiver hi
    exact ⟨receiver', List.mem_of_getElem? hi', hentry ▸ hsame, hentry ▸ hrevoked⟩
  · rcases ht.called_step hstep hcall with hold | hgrounds
    · obtain ⟨row, hrow, hretired⟩ := h.retired d reason hold
      obtain ⟨row', hrow', -, hkept⟩ := hstays.tables.document hrow
      exact ⟨row', hrow', hkept hretired⟩
    · exact hgrounds

/-- **What has been ended as revoked is revoked.** -/
theorem Reached.ends_revoked (h : t.Reached sha256) {receiver : Receiver}
    (hmem : receiver ∈ t.registry.receivers) (hcall : call ∈ t.registry.called)
    (hends : call.ends receiver.entry = some .revoked) :
    t.store.tables.IsRevoked receiver.entry.documentId receiver.entry.capabilityId := by
  have hgenuine := (h.called call hcall).1
  cases call with
  | invalidateSubscriptions subscriptionIds reason =>
    obtain ⟨hid, -⟩ := Option.ite_none_right_eq_some.mp hends
    obtain ⟨other, hother, hsame, hrevoked⟩ :=
      h.honest.revoked _ _ hcall _ (List.contains_iff_mem.mp hid)
    obtain rfl : other = receiver :=
      List.inj_on_of_nodup_map h.recorded.1.handed_nodup hother hmem hsame
    exact hrevoked
  | invalidateDocument d reason =>
    obtain ⟨-, hreason⟩ := Option.ite_none_right_eq_some.mp hends
    obtain rfl : reason = .retired := hgenuine
    exact absurd hreason (by simp)
  | notify d u | closeChannel channel =>
    exact absurd (Option.ite_none_right_eq_some.mp hends).2 (by simp)
  | openChannel | register channel d c | shutdown =>
    exact absurd hends (by simp [RegistryCall.ends])

/-- **What has been ended as retired is retired.** -/
theorem Reached.ends_retired (h : t.Reached sha256) {entry : SubscriptionEntry}
    (hcall : call ∈ t.registry.called) (hends : call.ends entry = some .retired) :
    ∃ row, t.store.tables.document? entry.documentId = some row ∧ row.retired = true := by
  have hgenuine := (h.called call hcall).1
  cases call with
  | invalidateSubscriptions subscriptionIds reason =>
    obtain ⟨-, hreason⟩ := Option.ite_none_right_eq_some.mp hends
    obtain rfl : reason = .revoked := hgenuine
    exact absurd hreason (by simp)
  | invalidateDocument d reason =>
    obtain ⟨rfl, -⟩ := Option.ite_none_right_eq_some.mp hends
    exact h.honest.retired _ _ hcall
  | notify d u | closeChannel channel =>
    exact absurd (Option.ite_none_right_eq_some.mp hends).2 (by simp)
  | openChannel | register channel d c | shutdown =>
    exact absurd hends (by simp [RegistryCall.ends])

/-! ## The broker -/

/-- The store and the registry are of one broker. -/
theorem Reached.broker (h : t.Reached sha256) :
    t.store.subscriptions = .new t.registry.fields.broker := by
  refine h.induction (I := fun t ↦ t.store.subscriptions = .new t.registry.fields.broker)
    (fun earlier provision generation broker ↦ ?_) fun t action t' ht h hstep ↦ ?_
  · rw [opened, DurableUpdateStore.run_concat]
    rfl
  · obtain ⟨requests, actions, hcarries, hheard, -⟩ := step_spec ht.inOrder hstep
    have hbroker : t'.registry.fields.broker = t.registry.fields.broker := by
      rcases registry_step ht.inOrder hstep with hsame | ⟨action', -, hregistry⟩
      · rw [hsame]
      · exact ((RegistrySystem.stepped ht.recorded.1 hregistry).onward ht.recorded.1).broker
    rw [hbroker]
    exact subscriptions_of_carries hcarries h

/-- The registry is called to close a channel of this broker, by whoever asks for it. -/
theorem Reached.closes (h : t.Reached sha256) (hstep : t.step sha256 action = some t')
    {channel : BrokerChannel} (hcall : .closeChannel channel ∈ t'.registry.called) :
    .closeChannel channel ∈ t.registry.called ∨
      action = .request (.closeChannel channel) ∧ t.registry.fields.recognizes channel = true := by
  refine (h.called_step hstep hcall).imp id fun hgrounds ↦ ⟨hgrounds.1, ?_⟩
  have hrecognized := hgrounds.2
  rw [h.broker] at hrecognized
  exact hrecognized

end SharedStore

end Renee
