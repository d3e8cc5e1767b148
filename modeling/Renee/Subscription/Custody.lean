import Renee.Subscription.Reporting

/-!
# What others leave alone

The lease of a channel is given up by its owner, or by an operation to which the owner has passed
the channel (`keepsLease_step`), and a receiver is closed by the party that has it (`closed_step`).
So whoever has a channel and receivers knows what to expect of them, whatever all the others do.
-/

set_option autoImplicit false

namespace Renee

open ByteString Interference SharedProgram
open UpdateSubscriptionRegistry (UpdateSubscriptionPoll)

/-- The access does not give up the lease of the channel. -/
def SharedAccess.Spares (channelId : ℕ) : SharedAccess → Prop
  | .dropLease channelId' => channelId' ≠ channelId
  | _ => True

variable {channelId : ℕ}

theorem lost_of_spares {o : SharedAccess} (h : o.Spares channelId) {s : Shared}
    (hlost : channelId ∈ (s.exec o).2.lost) : channelId ∈ s.lost := by
  cases o with
  | dropLease channelId' => exact (List.mem_cons.mp hlost).resolve_left (Ne.symm h)
  | trySend id u =>
    simp only [Shared.exec] at hlost
    split_ifs at hlost <;> exact hlost
  | recv id =>
    simp only [Shared.exec] at hlost
    split at hlost <;> exact hlost
  | _ => exact hlost

/-! ## The operations of the registry -/

/-- A program that does not give up the lease of the channel. -/
abbrev KeepsLease (channelId : ℕ) {α : Type} (program : SharedProgram α) : Prop :=
  program.Every (SharedAccess.Spares channelId)

theorem keepsLease_load (id : ℕ) : KeepsLease channelId (load id) := Program.every_perform trivial

theorem keepsLease_upgrade (id : ℕ) : KeepsLease channelId (upgrade id) :=
    Program.every_perform trivial

theorem keepsLease_trySend (id : ℕ) (u : UpdateId) : KeepsLease channelId (trySend id u) :=
  Program.every_perform trivial

theorem keepsLease_isClosed (id : ℕ) : KeepsLease channelId (isClosed id) :=
  Program.every_perform trivial

theorem keepsLease_dropSender (id : ℕ) : KeepsLease channelId (dropSender id) :=
  Program.every_perform trivial

theorem keepsLease_invalidate (id : ℕ) (reason : UpdateSubscriptionEnd) :
    KeepsLease channelId (invalidate id reason) := Program.every_perform trivial

theorem keepsLease_retain {closure : SubscriptionEntry → SharedProgram Bool}
    (h : ∀ entry, KeepsLease channelId (closure entry)) (entries : List SubscriptionEntry) :
    KeepsLease channelId (SharedProgram.retain closure entries) := by
  refine Program.every_filter (fun entry ↦ (h entry).bind fun keep ↦ ?_) entries
  split
  · exact (keepsLease_dropSender _).bind fun _ ↦ trivial
  · trivial

theorem keepsLease_pruneEntry (entry : SubscriptionEntry) :
    KeepsLease channelId (pruneEntry entry) := by
  refine (keepsLease_load _).bind fun state ↦ ?_
  split
  · trivial
  refine (keepsLease_upgrade _).bind fun alive ↦ ?_
  split
  · exact (keepsLease_invalidate _ _).bind fun _ ↦ trivial
  · exact (keepsLease_isClosed _).bind fun _ ↦ trivial

theorem keepsLease_notifyEntry (d : DocumentId) (u : UpdateId) (entry : SubscriptionEntry) :
    KeepsLease channelId (notifyEntry d u entry) := by
  refine (keepsLease_load _).bind fun state ↦ ?_
  split
  · trivial
  refine (keepsLease_upgrade _).bind fun alive ↦ ?_
  split
  · exact (keepsLease_invalidate _ _).bind fun _ ↦ trivial
  split
  · trivial
  refine (keepsLease_trySend _ _).bind fun sent ↦ ?_
  split
  · trivial
  · exact (keepsLease_invalidate _ _).bind fun _ ↦ trivial
  · exact (keepsLease_invalidate _ _).bind fun _ ↦ trivial

theorem keepsLease_invalidateEntry (p : SubscriptionEntry → Bool) (reason : UpdateSubscriptionEnd)
    (entry : SubscriptionEntry) : KeepsLease channelId (invalidateEntry p reason entry) := by
  rw [invalidateEntry]
  split
  · exact (keepsLease_invalidate _ _).bind fun _ ↦ trivial
  · trivial

theorem keepsLease_closeChannelEntry (id : ℕ) (entry : SubscriptionEntry) :
    KeepsLease channelId (closeChannelEntry id entry) := by
  refine (keepsLease_upgrade _).bind fun alive ↦ ?_
  split
  · exact (keepsLease_invalidate _ _).bind fun _ ↦ trivial
  · trivial

theorem keepsLease_countChannel (id : ℕ) (entries : List SubscriptionEntry) :
    KeepsLease channelId (countChannel id entries) := by
  induction entries with
  | nil => trivial
  | cons entry entries ih => exact (keepsLease_upgrade _).bind fun alive ↦ ih.bind fun count ↦
    trivial

theorem keepsLease_retaining {closure : SubscriptionEntry → SharedProgram Bool}
    (h : ∀ entry, KeepsLease channelId (closure entry)) (fields : RegistryFields) :
    KeepsLease channelId (retaining fields closure) :=
  (keepsLease_retain h fields.subscriptions).bind fun _ ↦ trivial

/-- **An operation gives up the lease of a channel only if it is passed the channel to close
it.** -/
theorem keepsLease_program {fields : RegistryFields} {call : RegistryCall}
    (h : ∀ channel, call = .closeChannel channel → fields.recognizes channel = true →
      channel.id ≠ channelId) : KeepsLease channelId (call.program fields) := by
  cases call with
  | openChannel =>
    rw [RegistryCall.program]
    split <;> trivial
  | register channel d c =>
    rw [RegistryCall.program, registerProgram]
    split
    · trivial
    refine (keepsLease_retain keepsLease_pruneEntry _).bind fun entries ↦
      (keepsLease_countChannel _ _).bind fun count ↦ ?_
    dsimp only
    split_ifs
    · trivial
    · split <;> trivial
  | notify d u => exact keepsLease_retaining (keepsLease_notifyEntry d u) fields
  | invalidateSubscriptions subscriptionIds reason =>
    exact keepsLease_retaining (keepsLease_invalidateEntry _ reason) fields
  | invalidateDocument d reason =>
    exact keepsLease_retaining (keepsLease_invalidateEntry _ reason) fields
  | closeChannel channel =>
    rw [RegistryCall.program]
    split
    · trivial
    rename_i hrecognized
    refine (keepsLease_retaining (keepsLease_closeChannelEntry channel.id) fields).bind
      fun outcome ↦ ?_
    have hne := h channel rfl (by simpa using hrecognized)
    have hdrop : KeepsLease channelId (dropLease channel.id) := Program.every_perform hne
    exact hdrop.bind fun _ ↦ trivial
  | shutdown => exact keepsLease_retaining (keepsLease_invalidateEntry _ _) fields

theorem Leaves.broker_eq {call : RegistryCall} {fields : RegistryFields} {s₀ s : Shared}
    {outcome : RegistryOutcome} (h : Leaves call fields s₀ s outcome) :
    outcome.fields.broker = fields.broker := by
  cases h <;> rfl

namespace RegistrySystem

variable {system system' : RegistrySystem} {action : RegistryAction} {l l' : Ledger}
  {receiver : Receiver} {i : ℕ}

/-! ## Leases -/

/-- The operation in progress does not give up the lease of the channel. -/
def HolderSpares (system : RegistrySystem) (channelId : ℕ) : Prop :=
  ∀ holder ∈ system.holder, KeepsLease channelId holder.program

theorem holderSpares_advance {call : RegistryCall} {program : SharedProgram RegistryOutcome}
    (h : KeepsLease channelId program) : (system.advance call program).HolderSpares channelId := by
  intro holder hholder
  obtain ⟨rfl, -⟩ := holder_advance hholder
  exact h

theorem shared_advance (call : RegistryCall) (program : SharedProgram RegistryOutcome) :
    (system.advance call program).shared = system.shared := by
  cases program <;> rfl

/-- **A lease stays held** while its owner neither drops it nor passes the channel on. -/
theorem keepsLease_step (h : system.HolderSpares channelId) (hw : system.WellFormed)
    (hcall : ∀ channel, action = .call (.closeChannel channel) →
      system.fields.recognizes channel = true → channel.id ≠ channelId)
    (hdrop : action ≠ .dropChannel channelId) (hstep : system.step action = some system') :
    system'.HolderSpares channelId ∧
      (channelId ∈ system'.shared.lost → channelId ∈ system.shared.lost) := by
  cases action with
  | call call =>
    cases stepped hw hstep with
    | called _ free held eq =>
      subst eq
      exact ⟨holderSpares_advance (keepsLease_program fun channel heq ↦
        hcall channel (congrArg _ heq)), fun hlost ↦ shared_advance call _ ▸ hlost⟩
    | served i receiver receiver' s not_call => exact absurd rfl (not_call call)
  | work =>
    cases stepped hw hstep with
    | worked call o k holder eq =>
      subst eq
      obtain ⟨hspares, hrest⟩ := h _ holder
      refine ⟨holderSpares_advance (hrest _), fun hlost ↦ ?_⟩
      rw [shared_advance] at hlost
      exact lost_of_spares hspares hlost
    | served i receiver receiver' s not_call not_work => exact absurd rfl not_work
  | dropChannel channelId' =>
    rw [step] at hstep
    split at hstep
    · obtain rfl := Option.some_inj.mp hstep
      refine ⟨h, lost_of_spares (o := .dropLease channelId') ?_⟩
      rintro rfl
      exact hdrop rfl
    · exact absurd hstep (by simp)
  | next i | poll i | forget i | cancel i | drop i | proceed i =>
    cases stepped hw hstep with
    | served i receiver receiver' s not_call not_work received follows progress eq =>
      subst eq
      exact ⟨h, follows.leased channelId (Set.mem_univ _)⟩

/-! ## Receivers -/

/-- **A receiver is closed by whoever cancels it.** -/
theorem closed_step (hw : system.WellFormed) (h : system.Recorded l)
    (hstep : system.step action = some system') {id : ℕ}
    (hclosed : (system'.shared.cells id).closed = true) :
    (system.shared.cells id).closed = true ∨ ∃ i receiver, system.receivers[i]? = some receiver ∧
      receiver.entry.subscriptionId = id ∧ action.receiver? = some i ∧
        receiver.phase.cancels = true := by
  obtain ⟨l', haccounted⟩ := exists_accounted hw h.booked.shared hstep
  have hshared' := (haccounted.recorded hw h).2.booked.shared
  rw [← hshared'] at hclosed
  rw [← h.booked.shared]
  cases haccounted with
  | took call called free held eq => exact .inl hclosed
  | worked call o k work holder eq =>
    obtain ⟨hkeeps, -⟩ := h.work hw holder
    exact .inl ((hkeeps.closed _).symm.trans hclosed)
  | lost channelId drop eq => exact .inl hclosed
  | served j other other' l' about received served eq =>
    cases served with
    | next idle | poll waiting | forget waiting | cancel idle dropping => exact .inl hclosed
    | run o k running =>
      have hphase := (h.booked.receivers other (List.mem_of_getElem? received)).phase
      rw [running] at hphase
      obtain ⟨hkeeps, -⟩ := Program.Meets.step (ReceiverRelies.refl _) hphase.2
      exact .inl ((hkeeps.closed _ hclosed).resolve_right (by simp))
    | close dropping o k cancelling =>
      have hphase := (h.booked.receivers other (List.mem_of_getElem? received)).phase
      rw [cancelling] at hphase
      obtain ⟨hkeeps, -⟩ := Program.Meets.step (ReceiverRelies.refl _) hphase.2
      exact (hkeeps.closed _ hclosed).imp (fun hold ↦ hold) fun hid ↦
        ⟨j, other, received, hid.2.symm, about, by rw [cancelling]; rfl⟩

/-- The receiver that nobody cancels stays open. -/
theorem closed_step_of_receiver (hw : system.WellFormed) (h : system.Recorded l)
    (hi : system.receivers[i]? = some receiver) (hstep : system.step action = some system')
    (hother : action.receiver? = some i → receiver.phase.cancels = false)
    (hclosed : (system'.shared.cells receiver.entry.subscriptionId).closed = true) :
    (system.shared.cells receiver.entry.subscriptionId).closed = true := by
  refine (closed_step hw h hstep hclosed).resolve_right ?_
  rintro ⟨j, other, hj, hid, habout, hcancels⟩
  obtain rfl : j = i := by
    by_contra hne
    exact hw.subscriptionId_ne hi hj hne hid
  obtain rfl := Option.some_inj.mp (hj.symm.trans hi)
  exact absurd (hcancels.symm.trans (hother habout)) (by simp)

/-- What others do to a receiver. -/
theorem receiver_step_of_ne (hw : system.WellFormed) (h : system.Recorded l)
    (hi : system.receivers[i]? = some receiver) (hstep : system.step action = some system')
    (hother : action.receiver? ≠ some i) : system'.receivers[i]? = some receiver := by
  obtain ⟨l', haccounted⟩ := exists_accounted hw h.booked.shared hstep
  obtain ⟨receiver', hi', ⟨rfl, -⟩ | ⟨habout, -⟩⟩ := haccounted.receiver_spec hw h hi
  · exact hi'
  · exact absurd habout hother

/-- A subscription that is handed out is open. -/
theorem opened_step (hw : system.WellFormed) (h : system.Recorded l)
    (hstep : system.step action = some system') {id : ℕ}
    (hid : system.fields.nextSubscriptionId ≤ id) : (system'.shared.cells id).closed = false := by
  refine Bool.eq_false_of_not_eq_true fun hclosed ↦ ?_
  rcases closed_step hw h hstep hclosed with hold | ⟨i, receiver, hi, rfl, -⟩
  · have hactive := (h.booked.fresh id hid).1
    rw [Ledger.word, h.booked.shared] at hactive
    exact hw.sane id hold hactive
  · exact absurd (hw.handed_lt receiver (List.mem_of_getElem? hi)) (Nat.not_lt.mpr hid)

/-! ## What a step does to the operations -/

/-- An operation takes the mutex, or has it. -/
def Takes (system : RegistrySystem) (action : RegistryAction) (call : RegistryCall) : Prop :=
  action = .call call ∧ system.holder = none ∨ ∃ holder, system.holder = some holder ∧
    holder.call = call

theorem Takes.eq {call call' : RegistryCall} (h : system.Takes action call)
    (h' : system.Takes action call') : call = call' := by
  rcases h with ⟨rfl, hfree⟩ | ⟨holder, hholder, rfl⟩ <;>
    rcases h' with ⟨heq, hfree'⟩ | ⟨holder', hholder', rfl⟩
  · exact RegistryAction.call.inj heq
  · exact absurd (hfree.symm.trans hholder') (by simp)
  · exact absurd (hfree'.symm.trans hholder) (by simp)
  · rw [Option.some_inj.mp (hholder.symm.trans hholder')]

/-- The broker stays the same, an operation in progress goes on, and what has been answered
stays. -/
structure Onward (system system' : RegistrySystem) (action : RegistryAction) : Prop where
  broker : system'.fields.broker = system.fields.broker
  answered : (system'.answered = system.answered ∧
      system'.receivers.length = system.receivers.length ∧
      ∀ call, system.Takes action call → ∃ holder ∈ system'.holder, holder.call = call) ∨
    ∃ call reply, system.Takes action call ∧ system'.holder = none ∧
      system'.answered = system.answered ++ [(call, reply)] ∧
      ((reply.registered? = none ∧ system'.receivers.length = system.receivers.length) ∨
        ∃ channel d c entry, call = .register channel d c ∧ reply = .registered (.ok entry) ∧
          entry.channelId = channel.id ∧ system.fields.nextSubscriptionId ≤ entry.subscriptionId ∧
          system'.receivers = system.receivers ++ [⟨entry, .idle, []⟩])

theorem onward_advance (before : RegistrySystem) {call : RegistryCall}
    {program : SharedProgram RegistryOutcome} (hfields : before.fields = system.fields)
    (hanswered : before.answered = system.answered)
    (hreceivers : before.receivers = system.receivers)
    (hcall : system.Takes action call) (hleaves : ∀ outcome, program = .result outcome →
      ∃ s₀ s, Leaves call system.fields s₀ s outcome) :
    Onward system (before.advance call program) action := by
  cases program with
  | access o k =>
    exact ⟨congrArg _ hfields, .inl ⟨hanswered, congrArg _ hreceivers,
      fun call' hcall' ↦ ⟨_, rfl, hcall.eq hcall'⟩⟩⟩
  | result outcome =>
    obtain ⟨s₀, s, hleaves⟩ := hleaves outcome rfl
    have hbroker : (before.advance call (.result outcome)).fields.broker = system.fields.broker :=
      hleaves.broker_eq
    refine ⟨hbroker, .inr ⟨call, outcome.reply, hcall, rfl, by rw [← hanswered]; rfl, ?_⟩⟩
    rw [receivers_return, hreceivers]
    cases hleaves with
    | registered call_eq swept room =>
      exact .inr ⟨_, _, _, _, call_eq, rfl, rfl, le_rfl, rfl⟩
    | done | opened | invalidChannel | backpressure =>
      exact .inl ⟨rfl, congrArg _ (List.append_nil _)⟩

theorem Stepped.onward (h : Stepped system system' action) (hw : system.WellFormed) :
    Onward system system' action := by
  cases h with
  | called call free held eq =>
    have hobeys := obeys_program hw.sane held
    refine eq ▸ onward_advance system rfl rfl rfl (.inl ⟨rfl, free⟩) fun outcome heq ↦ ?_
    rw [heq] at hobeys
    exact ⟨_, _, hobeys⟩
  | worked call o k holder eq =>
    obtain ⟨s₀, hholds⟩ := hw.holder _ holder
    have hobeys := hholds.obeys.step.2
    refine eq ▸ onward_advance { system with shared := (system.shared.exec o).2 } rfl rfl rfl
      (.inr ⟨_, holder, rfl⟩) fun outcome heq ↦ ?_
    rw [heq] at hobeys
    exact ⟨_, _, hobeys⟩
  | lost channelId s follows eq =>
    refine eq ▸ ⟨rfl, .inl ⟨rfl, rfl, fun call hcall ↦ ?_⟩⟩
    exact hcall.resolve_left fun h ↦ absurd h.1 (by simp)
  | served i receiver receiver' s not_call not_work received follows progress eq =>
    refine eq ▸ ⟨rfl, .inl ⟨rfl, List.length_set .., fun call hcall ↦ ?_⟩⟩
    exact hcall.resolve_left fun h ↦ not_call call h.1

/-- A `next` that waits is given up. -/
theorem step_forget (hi : system.receivers[i]? = some receiver)
    (hstep : system.step (.forget i) = some system') : receiver.phase = .waiting ∧
      system' = system.setReceiver i { receiver with phase := .idle } := by
  rw [step, begin, hi, Option.bind_some, Option.map_eq_some_iff] at hstep
  obtain ⟨receiver', hstart, rfl⟩ := hstep
  split at hstart
  · exact Option.some_inj.mp hstart ▸ ⟨‹_›, rfl⟩
  · exact absurd hstart (by simp)

/-- `cancel` is called, by `drop` or not. -/
theorem step_cancel (hi : system.receivers[i]? = some receiver) {dropping : Bool}
    (haction : action = if dropping then .drop i else .cancel i)
    (hstep : system.step action = some system') : receiver.phase = .idle ∧
      system' = system.setReceiver i
        { receiver with phase := .cancelling dropping (cancelProgram receiver.entry) } := by
  cases dropping with
  | false =>
    obtain rfl : action = .cancel i := haction
    rw [step, begin, hi, Option.bind_some, Option.map_eq_some_iff] at hstep
    obtain ⟨receiver', hstart, rfl⟩ := hstep
    split at hstart
    · exact Option.some_inj.mp hstart ▸ ⟨‹_›, rfl⟩
    · exact absurd hstart (by simp)
  | true =>
    obtain rfl : action = .drop i := haction
    rw [step, begin, hi, Option.bind_some, Option.map_eq_some_iff] at hstep
    obtain ⟨receiver', hstart, rfl⟩ := hstep
    split at hstart
    · exact Option.some_inj.mp hstart ▸ ⟨‹_›, rfl⟩
    · exact absurd hstart (by simp)

/-- The next access of what is being done with a receiver. -/
theorem step_proceed (hi : system.receivers[i]? = some receiver)
    (hstep : system.step (.proceed i) = some system') :
    (∃ o k, receiver.phase = .running (.access o k) ∧
      system' = { system with shared := (system.shared.exec o).2 }.setReceiver i
        (advanceNext receiver (k (system.shared.exec o).1))) ∨
    ∃ dropping o k, receiver.phase = .cancelling dropping (.access o k) ∧
      system' = { system with shared := (system.shared.exec o).2 }.setReceiver i
        (advanceCancel receiver dropping (k (system.shared.exec o).1)) := by
  rw [step, proceed, hi] at hstep
  dsimp only at hstep
  split at hstep
  · exact .inl ⟨_, _, ‹_›, (Option.some_inj.mp hstep).symm⟩
  · exact .inr ⟨_, _, _, ‹_›, (Option.some_inj.mp hstep).symm⟩
  · exact absurd hstep (by simp)

end RegistrySystem

end Renee
