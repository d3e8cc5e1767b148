import Mathlib.Data.List.Perm.Subperm
import Renee.Subscription.Discipline

/-!
# What holds of the subscription registry among its users

`RegistrySystem.WellFormed` holds in every state of every run: the entries of the registry are of
subscriptions that were handed out, every active subscription has its entry, the bounds hold for the
entries, and everything that is in progress keeps to the discipline of `Follows`.

* `RegistrySystem.stepped` says what a step can do: an operation takes the mutex, it makes an
  access, or somebody else does something within the discipline.
* `RegistrySystem.origin_of_run` finds the moment at which the operation in progress took the mutex.
* `registry_interleaving` collects what follows: the bounds on active subscriptions, their entries,
  the meaning of backpressure, and that an ended subscription stays as it is and notifies of
  nothing.
* `backpressure_without_subscriptions`: `register` also answers so when all numbers have been
  issued.
-/

set_option autoImplicit false

namespace Renee

open ByteString Interference
open UpdateSubscriptionRegistry (UpdateSubscriptionPoll)

/-! ## Programs in progress -/

/-- The program still has an access to make. -/
def Pending {α : Type} (program : SharedProgram α) : Prop := ∃ o k, program = .access o k

theorem pending_access {α : Type} {o : SharedAccess} {k : o.Answer → SharedProgram α} :
    Pending (.access o k) := ⟨o, k, rfl⟩

variable {α : Type} {post : α → Shared → Prop} {relied kept : Set ℕ} {s s' s₀ : Shared}

theorem Obeys.of_follows {program : SharedProgram α} (h : Obeys relied kept post program s)
    (hpending : Pending program) (hs : Follows relied s s') :
      Obeys relied kept post program s' := by
  obtain ⟨o, k, rfl⟩ := hpending
  exact Program.Meets.of_rely (fun h₁ h₂ ↦ h₁.trans h₂) h hs

theorem Obeys.step {o : SharedAccess} {k : o.Answer → SharedProgram α}
    (h : Obeys relied kept post (.access o k) s) :
    Follows kept s (s.exec o).2 ∧ Obeys relied kept post (k (s.exec o).1) (s.exec o).2 :=
  Program.Meets.step (Follows.refl relied) h

/-- An operation that found `fields` and `s₀` is in progress. -/
structure Holds (fields : RegistryFields) (s₀ s : Shared) (holder : RegistryHolder) : Prop where
  pending : Pending holder.program
  obeys : Obeys (holder.call.relies fields) ∅
    (fun outcome s ↦ Leaves holder.call fields s₀ s outcome) holder.program s

theorem Holds.of_follows {fields : RegistryFields} {holder : RegistryHolder}
    (h : Holds fields s₀ s holder) (hs : Follows (holder.call.relies fields) s s') :
    Holds fields s₀ s' holder :=
  ⟨h.pending, h.obeys.of_follows h.pending hs⟩

/-- What is being done with a receiver keeps to the discipline. -/
def ReceiverPhase.Proper (entry : SubscriptionEntry) (s : Shared) : ReceiverPhase → Prop
  | .running program => Pending program ∧ Obeys ∅ Set.univ (Delivered entry) program s
  | .cancelling _ program =>
    Pending program ∧ Obeys ∅ Set.univ (fun _ s ↦ Ended entry s) program s
  | _ => True

theorem ReceiverPhase.Proper.of_follows {entry : SubscriptionEntry} {phase : ReceiverPhase}
    (h : phase.Proper entry s) (hs : Follows ∅ s s') : phase.Proper entry s' := by
  cases phase with
  | running program => exact ⟨h.1, h.2.of_follows h.1 hs⟩
  | cancelling dropping program => exact ⟨h.1, h.2.of_follows h.1 hs⟩
  | idle => trivial
  | waiting => trivial
  | dropped => trivial

namespace RegistrySystem

variable {system system' : RegistrySystem} {action : RegistryAction} {receiver : Receiver}

/-! ## The invariant -/

/-- The subscription has not ended. -/
def isActive (system : RegistrySystem) (receiver : Receiver) : Bool :=
  (system.shared.cells receiver.entry.subscriptionId).state = active

/-- The subscription has not ended, and its channel is not lost. -/
def isLive (system : RegistrySystem) (receiver : Receiver) : Bool :=
  system.isActive receiver && !system.shared.lost.contains receiver.entry.channelId

theorem isActive_iff : system.isActive receiver = true ↔ ¬Ended receiver.entry system.shared := by
  rw [isActive, decide_eq_true_eq, Ended, not_not]

theorem isLive_iff : system.isLive receiver = true ↔ Taken system.shared receiver.entry := by
  simp [isLive, isActive, Taken]

/-- The channels whose leases the operation in progress relies on. -/
def reliedOn (system : RegistrySystem) : Set ℕ :=
  system.holder.elim ∅ fun holder ↦ holder.call.relies system.fields

structure WellFormed (system : RegistrySystem) : Prop where
  sane : system.shared.Sane
  /-- The numbers of the subscriptions are distinct and have been issued. -/
  handed_nodup : (system.receivers.map fun receiver ↦ receiver.entry.subscriptionId).Nodup
  handed_lt : ∀ receiver ∈ system.receivers,
    receiver.entry.subscriptionId < system.fields.nextSubscriptionId
  entries_nodup : (system.fields.subscriptions.map SubscriptionEntry.subscriptionId).Nodup
  /-- There are no entries but those of subscriptions. -/
  handed : ∀ entry ∈ system.fields.subscriptions, entry ∈ system.receivers.map Receiver.entry
  /-- An active subscription has its entry. -/
  present : ∀ receiver ∈ system.receivers, ¬Ended receiver.entry system.shared →
    receiver.entry ∈ system.fields.subscriptions
  length_le : system.fields.subscriptions.length ≤ maxUpdateSubscriptions
  channel_le : ∀ channelId, (system.fields.subscriptions.countP fun entry ↦
    entry.channelId = channelId) ≤ maxUpdateSubscriptionsPerChannel
  document_le : ∀ d, (system.fields.subscriptions.countP fun entry ↦
    entry.documentId = d) ≤ maxUpdateSubscriptionsPerDocument
  holder : ∀ holder ∈ system.holder, ∃ s₀, Holds system.fields s₀ system.shared holder
  receivers : ∀ receiver ∈ system.receivers, receiver.phase.Proper receiver.entry system.shared

theorem wellFormed_new (broker : ℕ) : (new broker).WellFormed where
  sane _ h := absurd h (by simp [new, SubscriptionCell.new])
  handed_nodup := List.nodup_nil
  handed_lt _ h := absurd h (by simp [new])
  entries_nodup := List.nodup_nil
  handed _ h := absurd h (by simp [new, RegistryFields.new])
  present _ h := absurd h (by simp [new])
  length_le := Nat.zero_le _
  channel_le _ := Nat.zero_le _
  document_le _ := Nat.zero_le _
  holder _ h := absurd h (by simp [new])
  receivers _ h := absurd h (by simp [new])

/-- What is shared may change within the discipline. -/
theorem WellFormed.setShared (h : system.WellFormed)
    (hs : Follows system.reliedOn system.shared s) : { system with shared := s }.WellFormed where
  sane := hs.sane h.sane
  handed_nodup := h.handed_nodup
  handed_lt := h.handed_lt
  entries_nodup := h.entries_nodup
  handed := h.handed
  present receiver hreceiver hactive :=
    h.present receiver hreceiver fun hended ↦ hactive (hs.ended_of_ended hended)
  length_le := h.length_le
  channel_le := h.channel_le
  document_le := h.document_le
  holder holder hholder := by
    obtain ⟨s₀, hholds⟩ := h.holder holder hholder
    have hrelied : system.reliedOn = holder.call.relies system.fields := by
      rw [reliedOn, Option.mem_def.mp hholder, Option.elim_some]
    exact ⟨s₀, hholds.of_follows (hrelied ▸ hs)⟩
  receivers receiver hreceiver := (h.receivers receiver hreceiver).of_follows hs.weaken

/-- A receiver may be put in another phase that keeps to the discipline. -/
theorem WellFormed.setReceiver (h : system.WellFormed) {i : ℕ} {receiver receiver' : Receiver}
    (hi : system.receivers[i]? = some receiver) (hentry : receiver'.entry = receiver.entry)
    (hphase : receiver'.phase.Proper receiver.entry system.shared) :
    (system.setReceiver i receiver').WellFormed := by
  have hmem := List.mem_of_getElem? hi
  have hmap : ∀ {β : Type} (f : SubscriptionEntry → β),
      ((system.receivers.set i receiver').map fun r ↦ f r.entry) =
        system.receivers.map fun r ↦ f r.entry := by
    intro β f
    obtain ⟨hlt, hget⟩ := List.getElem?_eq_some_iff.mp hi
    rw [List.map_set, hentry, ← hget]
    exact (congrArg _ (List.getElem_map ..).symm).trans (List.set_getElem_self (by simpa using hlt))
  refine
    { h with
      handed_nodup := by
        rw [RegistrySystem.setReceiver, hmap SubscriptionEntry.subscriptionId]
        exact h.handed_nodup
      handed_lt := fun r hr ↦ ?_
      handed := fun entry he ↦ by
        have hid := hmap id
        simp only [id] at hid
        have hhanded := h.handed entry he
        rw [RegistrySystem.setReceiver]
        exact hid ▸ hhanded
      present := fun r hr ↦ ?_
      receivers := fun r hr ↦ ?_ }
  · rcases List.mem_or_eq_of_mem_set hr with hr | rfl
    · exact h.handed_lt r hr
    · exact hentry ▸ h.handed_lt receiver hmem
  · rcases List.mem_or_eq_of_mem_set hr with hr | rfl
    · exact h.present r hr
    · exact hentry ▸ h.present receiver hmem
  · rcases List.mem_or_eq_of_mem_set hr with hr | rfl
    · exact h.receivers r hr
    · exact hentry ▸ hphase

/-! ## Operations that return -/

/-- A pass over the entries removes those of ended subscriptions only. -/
theorem WellFormed.sweep (h : system.WellFormed) (hfree : system.holder = none)
    {P : SubscriptionEntry → Prop} {entries : List SubscriptionEntry}
    (hswept : Swept P system.fields.subscriptions entries system.shared) :
    { system with fields := { system.fields with subscriptions := entries } }.WellFormed where
  sane := h.sane
  handed_nodup := h.handed_nodup
  handed_lt := h.handed_lt
  entries_nodup := h.entries_nodup.sublist (hswept.sublist.map _)
  handed entry hentry := h.handed entry (hswept.sublist.subset hentry)
  present receiver hreceiver hactive :=
    (hswept.ended _ (h.present receiver hreceiver hactive)).resolve_right hactive
  length_le := hswept.sublist.length_le.trans h.length_le
  channel_le channelId := (hswept.sublist.countP_le ..).trans (h.channel_le channelId)
  document_le d := (hswept.sublist.countP_le ..).trans (h.document_le d)
  holder holder hholder := absurd hholder (by simp [hfree])
  receivers := h.receivers

/-- A subscription is handed out where there is room for it. -/
theorem WellFormed.push (h : system.WellFormed) (hfree : system.holder = none)
    {channelId : ℕ} {d : DocumentId} {entry : SubscriptionEntry}
    (hroom : ¬RegistryFull system.fields channelId d system.fields.subscriptions)
    (hchannel : entry.channelId = channelId) (hdocument : entry.documentId = d)
    (hid : entry.subscriptionId = system.fields.nextSubscriptionId) :
    { system with
      fields := { system.fields with
        nextSubscriptionId := system.fields.nextSubscriptionId + 1
        subscriptions := system.fields.subscriptions ++ [entry] }
      receivers := system.receivers ++ [Receiver.mk entry .idle []] }.WellFormed := by
  simp only [RegistryFull, not_or, not_le] at hroom
  obtain ⟨hlength, hchannels, hdocuments, -⟩ := hroom
  have hlt : ∀ other ∈ system.fields.subscriptions,
      other.subscriptionId < system.fields.nextSubscriptionId := by
    intro other hother
    obtain ⟨receiver, hreceiver, rfl⟩ := List.mem_map.mp (h.handed other hother)
    exact h.handed_lt receiver hreceiver
  refine
    { h with
      handed_nodup := ?_
      handed_lt := ?_
      entries_nodup := ?_
      handed := ?_
      present := ?_
      length_le := ?_
      channel_le := fun channelId' ↦ ?_
      document_le := fun d' ↦ ?_
      holder := fun holder hholder ↦ absurd hholder (by simp [hfree])
      receivers := ?_ }
  · rw [List.map_append, List.nodup_append]
    refine ⟨h.handed_nodup, List.nodup_singleton _, fun id hid' id' hnew heq ↦ ?_⟩
    obtain ⟨receiver, hreceiver, rfl⟩ := List.mem_map.mp hid'
    obtain rfl := List.mem_singleton.mp hnew
    exact absurd (heq.trans hid) (h.handed_lt receiver hreceiver).ne
  · intro receiver hreceiver
    rcases List.mem_append.mp hreceiver with hold | hnew
    · exact Nat.lt_succ_of_lt (h.handed_lt receiver hold)
    · obtain rfl := List.mem_singleton.mp hnew
      exact hid ▸ Nat.lt_succ_self _
  · rw [List.map_append, List.nodup_append]
    refine ⟨h.entries_nodup, List.nodup_singleton _, fun id hid' id' hnew heq ↦ ?_⟩
    obtain ⟨other, hother, rfl⟩ := List.mem_map.mp hid'
    obtain rfl := List.mem_singleton.mp hnew
    exact absurd (heq.trans hid) (hlt other hother).ne
  · intro other hother
    rw [List.map_append]
    rcases List.mem_append.mp hother with hold | hnew
    · exact List.mem_append_left _ (h.handed other hold)
    · exact List.mem_append_right _ hnew
  · intro receiver hreceiver hactive
    rcases List.mem_append.mp hreceiver with hold | hnew
    · exact List.mem_append_left _ (h.present receiver hold hactive)
    · obtain rfl := List.mem_singleton.mp hnew
      exact List.mem_append_right _ (List.mem_singleton_self _)
  · rw [List.length_append]
    exact hlength
  · rw [List.countP_append, List.countP_singleton]
    by_cases heq : channelId' = channelId
    · subst heq
      split <;> omega
    · rw [if_neg (by simpa [hchannel] using fun h ↦ heq h.symm)]
      exact h.channel_le channelId'
  · rw [List.countP_append, List.countP_singleton]
    by_cases heq : d' = d
    · subst heq
      split <;> omega
    · rw [if_neg (by simpa [hdocument] using fun h ↦ heq h.symm)]
      exact h.document_le d'
  · intro receiver hreceiver
    rcases List.mem_append.mp hreceiver with hold | hnew
    · exact h.receivers receiver hold
    · obtain rfl := List.mem_singleton.mp hnew
      trivial

theorem holder_advance_result {call : RegistryCall} {outcome : RegistryOutcome} :
    (system.advance call (.result outcome)).holder = none := rfl

/-- An operation that goes on or returns leaves the system in order. -/
theorem WellFormed.advance (h : system.WellFormed) (hfree : system.holder = none)
    {call : RegistryCall} {program : SharedProgram RegistryOutcome}
    (hobeys : Obeys (call.relies system.fields) ∅
      (fun outcome s ↦ Leaves call system.fields s₀ s outcome) program system.shared) :
    (system.advance call program).WellFormed := by
  cases program with
  | result outcome =>
    have hnone : ∀ holder ∈ (system.advance call (.result outcome)).holder,
        ∃ s₀, Holds (system.advance call (.result outcome)).fields s₀
          (system.advance call (.result outcome)).shared holder := by
      simp [holder_advance_result]
    cases (hobeys : Leaves call system.fields s₀ system.shared outcome) with
    | done swept => exact { h.sweep hfree swept with holder := hnone }
    | opened channel le => exact { h with holder := hnone }
    | invalidChannel => exact { h with holder := hnone }
    | backpressure call_eq swept full => exact { h.sweep hfree swept with holder := hnone }
    | registered call_eq swept room =>
      exact { (h.sweep hfree swept).push hfree room rfl rfl rfl with holder := hnone }
  | access o k =>
    refine { h with holder := fun holder hholder ↦ ?_ }
    obtain rfl := Option.some_inj.mp (Option.mem_def.mp hholder)
    exact ⟨s₀, pending_access, hobeys⟩

/-! ## Steps -/

/-- What happens to a receiver when something is done with it. -/
structure Progress (receiver receiver' : Receiver) (s : Shared) : Prop where
  entry : receiver'.entry = receiver.entry
  phase : receiver'.phase.Proper receiver.entry s
  returned : receiver'.returned = receiver.returned ∨ ∃ poll,
    receiver'.returned = receiver.returned ++ [poll] ∧ Delivered receiver.entry poll s

theorem progress_advanceNext {program : SharedProgram UpdateSubscriptionPoll}
    (h : Obeys ∅ Set.univ (Delivered receiver.entry) program s) :
    Progress receiver (advanceNext receiver program) s := by
  cases program with
  | result poll =>
    cases poll with
    | pending => exact ⟨rfl, trivial, .inl rfl⟩
    | notification u => exact ⟨rfl, trivial, .inr ⟨_, rfl, h⟩⟩
    | invalidated reason => exact ⟨rfl, trivial, .inr ⟨_, rfl, h⟩⟩
  | access o k => exact ⟨rfl, ⟨pending_access, h⟩, .inl rfl⟩

theorem progress_advanceCancel {dropping : Bool} {program : SharedProgram Unit}
    (h : Obeys ∅ Set.univ (fun _ s ↦ Ended receiver.entry s) program s) :
    Progress receiver (advanceCancel receiver dropping program) s := by
  cases program with
  | result a => cases dropping <;> exact ⟨rfl, trivial, .inl rfl⟩
  | access o k => exact ⟨rfl, ⟨pending_access, h⟩, .inl rfl⟩

/-- What a step does. -/
inductive Stepped (system system' : RegistrySystem) : RegistryAction → Prop
  /-- An operation takes the mutex. -/
  | called (call : RegistryCall) (free : system.holder = none)
      (held : ∀ channelId ∈ call.relies system.fields, channelId ∉ system.shared.lost)
      (eq : system' = system.advance call (call.program system.fields)) :
      Stepped system system' (.call call)
  /-- The operation that has it makes an access. -/
  | worked (call : RegistryCall) (o : SharedAccess) (k : o.Answer → SharedProgram RegistryOutcome)
      (holder : system.holder = some ⟨call, .access o k⟩)
      (eq : system' = { system with shared := (system.shared.exec o).2 }.advance call
        (k (system.shared.exec o).1)) :
      Stepped system system' .work
  /-- A channel is given up. -/
  | lost (channelId : ℕ) (s : Shared) (follows : Follows system.reliedOn system.shared s)
      (eq : system' = { system with shared := s }) :
      Stepped system system' (.dropChannel channelId)
  /-- Something is done with a receiver. -/
  | served {action : RegistryAction} (i : ℕ) (receiver receiver' : Receiver) (s : Shared)
      (not_call : ∀ call, action ≠ .call call) (not_work : action ≠ .work)
      (received : system.receivers[i]? = some receiver)
      (follows : Follows Set.univ system.shared s) (progress : Progress receiver receiver' s)
      (eq : system' = { system with shared := s }.setReceiver i receiver') :
      Stepped system system' action

/-- Something is begun with a receiver. -/
theorem stepped_begin {i : ℕ} {start : Receiver → Option Receiver}
    (h : system.begin i start = some system') (hcall : ∀ call, action ≠ .call call)
    (hwork : action ≠ .work)
    (hstart : ∀ receiver receiver', start receiver = some receiver' →
      Progress receiver receiver' system.shared) : Stepped system system' action := by
  rw [begin, Option.map_eq_some_iff] at h
  obtain ⟨receiver', hbegun, rfl⟩ := h
  obtain ⟨receiver, hreceiver, hreceiver'⟩ := Option.bind_eq_some_iff.mp hbegun
  exact .served i receiver receiver' system.shared hcall hwork hreceiver (.refl ..)
    (hstart receiver receiver' hreceiver') rfl

theorem stepped_proceed (hw : system.WellFormed) {i : ℕ} (h : system.proceed i = some system') :
    Stepped system system' (.proceed i) := by
  rw [proceed] at h
  split at h
  · rename_i receiver hreceiver
    have hproper := hw.receivers receiver (List.mem_of_getElem? hreceiver)
    split at h
    · rename_i o k hphase
      obtain rfl := Option.some_inj.mp h
      rw [hphase] at hproper
      obtain ⟨hfollows, hobeys⟩ := hproper.2.step
      exact .served i receiver _ _ (by simp) (by simp) hreceiver hfollows
        (progress_advanceNext hobeys) rfl
    · rename_i dropping o k hphase
      obtain rfl := Option.some_inj.mp h
      rw [hphase] at hproper
      obtain ⟨hfollows, hobeys⟩ := hproper.2.step
      exact .served i receiver _ _ (by simp) (by simp) hreceiver hfollows
        (progress_advanceCancel hobeys) rfl
    · exact absurd h (by simp)
  · exact absurd h (by simp)

/-- An operation that counts on the lease of a channel has it. -/
theorem held_of_canPass {call : RegistryCall} (h : call.channel?.all system.canPass = true) :
    ∀ channelId ∈ call.relies system.fields, channelId ∉ system.shared.lost := by
  intro channelId hrelied
  cases call with
  | register channel d c =>
    obtain ⟨hrecognized, rfl⟩ := hrelied
    simp only [RegistryCall.channel?, Option.all_some, canPass, hrecognized] at h
    have hheld : channel.id < system.fields.nextChannelId ∧ channel.id ∉ system.shared.lost := by
      simpa using h
    exact hheld.2
  | _ => exact hrelied.elim

/-- The operation in progress does not count on a channel that it has not borrowed. -/
theorem not_mem_reliedOn {channelId : ℕ} (h : system.borrowed channelId = false) :
    channelId ∉ system.reliedOn := by
  intro hrelied
  rw [reliedOn] at hrelied
  cases hholder : system.holder with
  | none => rw [hholder] at hrelied; exact hrelied
  | some holder =>
    rw [hholder, Option.elim_some] at hrelied
    cases hcall : holder.call with
    | register channel d c =>
      rw [hcall] at hrelied
      obtain ⟨hrecognized, rfl⟩ := hrelied
      simp [borrowed, hholder, hcall, RegistryCall.channel?, hrecognized] at h
    | _ => rw [hcall] at hrelied; exact hrelied

theorem stepped (hw : system.WellFormed) (h : system.step action = some system') :
    Stepped system system' action := by
  cases action with
  | call call =>
    rw [step] at h
    split at h
    · rename_i hguard
      obtain rfl := Option.some_inj.mp h
      exact .called call (by simpa using hguard.1) (held_of_canPass hguard.2) rfl
    · exact absurd h (by simp)
  | work =>
    rw [step] at h
    split at h
    · rename_i call o k hholder
      obtain rfl := Option.some_inj.mp h
      exact .worked call o k hholder rfl
    · exact absurd h (by simp)
  | dropChannel channelId =>
    rw [step] at h
    split at h
    · rename_i hguard
      obtain rfl := Option.some_inj.mp h
      exact .lost channelId _ (follows_dropLease (not_mem_reliedOn (by simpa using hguard.2))) rfl
    · exact absurd h (by simp)
  | next i =>
    refine stepped_begin h (by simp) (by simp) fun receiver receiver' hstart ↦ ?_
    split at hstart
    · obtain rfl := Option.some_inj.mp hstart
      exact progress_advanceNext obeys_next
    · exact absurd hstart (by simp)
  | poll i =>
    refine stepped_begin h (by simp) (by simp) fun receiver receiver' hstart ↦ ?_
    split at hstart
    · obtain rfl := Option.some_inj.mp hstart
      exact progress_advanceNext obeys_select
    · exact absurd hstart (by simp)
  | forget i =>
    refine stepped_begin h (by simp) (by simp) fun receiver receiver' hstart ↦ ?_
    split at hstart
    · obtain rfl := Option.some_inj.mp hstart
      exact ⟨rfl, trivial, .inl rfl⟩
    · exact absurd hstart (by simp)
  | cancel i =>
    refine stepped_begin h (by simp) (by simp) fun receiver receiver' hstart ↦ ?_
    split at hstart
    · obtain rfl := Option.some_inj.mp hstart
      exact progress_advanceCancel obeys_cancel
    · exact absurd hstart (by simp)
  | drop i =>
    refine stepped_begin h (by simp) (by simp) fun receiver receiver' hstart ↦ ?_
    split at hstart
    · obtain rfl := Option.some_inj.mp hstart
      exact progress_advanceCancel obeys_cancel
    · exact absurd hstart (by simp)
  | proceed i => exact stepped_proceed hw h

theorem Stepped.wellFormed (h : Stepped system system' action) (hw : system.WellFormed) :
    system'.WellFormed := by
  cases h with
  | called call free held eq => exact eq ▸ hw.advance free (obeys_program hw.sane held)
  | worked call o k holder eq =>
    obtain ⟨s₀, hholds⟩ := hw.holder _ (Option.mem_def.mpr holder)
    obtain ⟨hfollows, hobeys⟩ := hholds.obeys.step
    -- while it makes its access, the operation relies on nobody
    have hfree : { system with holder := none }.WellFormed :=
      { hw with holder := fun _ h ↦ absurd h (by simp) }
    exact eq ▸ (hfree.setShared (s := (system.shared.exec o).2) hfollows).advance rfl hobeys
  | lost channelId s follows eq => exact eq ▸ hw.setShared follows
  | served i receiver receiver' s not_call not_work received follows progress eq =>
    have hfollows : Follows system.reliedOn system.shared s := follows.mono (Set.subset_univ _)
    exact eq ▸ (hw.setShared hfollows).setReceiver received progress.entry progress.phase

/-- Every step keeps to the discipline. -/
theorem Stepped.follows (h : Stepped system system' action) (hw : system.WellFormed) :
    Follows ∅ system.shared system'.shared := by
  have hadvance : ∀ (system : RegistrySystem) call program,
      (system.advance call program).shared = system.shared := by
    intro system call program
    cases program <;> rfl
  cases h with
  | called call free held eq =>
    rw [eq, hadvance]
    exact .refl ..
  | worked call o k holder eq =>
    obtain ⟨s₀, hholds⟩ := hw.holder _ (Option.mem_def.mpr holder)
    rw [eq, hadvance]
    exact hholds.obeys.step.1
  | lost channelId s follows eq => exact eq ▸ follows.weaken
  | served i receiver receiver' s not_call not_work received follows progress eq =>
    exact eq ▸ follows.weaken

theorem receivers_advance {call : RegistryCall} {program : SharedProgram RegistryOutcome} {i : ℕ}
    (h : system.receivers[i]? = some receiver) :
    (system.advance call program).receivers[i]? = some receiver := by
  cases program with
  | access o k => exact h
  | result outcome =>
    rw [advance]
    dsimp only
    split
    · rw [List.getElem?_append_left (List.getElem?_eq_some_iff.mp h).1, h]
    · exact h

/-- A step leaves a receiver as it is, or something is done with it. -/
theorem Stepped.progress (h : Stepped system system' action) (hw : system.WellFormed) {i : ℕ}
    (hi : system.receivers[i]? = some receiver) :
    ∃ receiver', system'.receivers[i]? = some receiver' ∧
      Progress receiver receiver' system'.shared := by
  have hsame : ∀ s, Follows ∅ system.shared s → Progress receiver receiver s := fun s hs ↦
    ⟨rfl, (hw.receivers receiver (List.mem_of_getElem? hi)).of_follows hs, .inl rfl⟩
  have hfollows := h.follows hw
  cases h with
  | called call free held eq =>
    exact ⟨receiver, eq ▸ receivers_advance hi, hsame _ hfollows⟩
  | worked call o k holder eq =>
    exact ⟨receiver, eq ▸ receivers_advance hi, hsame _ hfollows⟩
  | lost channelId s follows eq => exact ⟨receiver, eq ▸ hi, hsame _ hfollows⟩
  | served j other other' s not_call not_work received follows progress eq =>
    subst eq
    by_cases hij : j = i
    · subst hij
      obtain rfl := Option.some_inj.mp (received.symm.trans hi)
      refine ⟨other', ?_, progress⟩
      exact List.getElem?_set_self (List.getElem?_eq_some_iff.mp hi).1
    · exact ⟨receiver, (List.getElem?_set_ne hij).trans hi, hsame _ hfollows⟩

/-! ## Runs -/

variable {actions actions' : List RegistryAction} {broker : ℕ}

theorem WellFormed.run (hw : system.WellFormed)
    (hrun : Transition.run step system actions = some system') : system'.WellFormed :=
  Transition.invariant (fun _ _ _ hw h ↦ (stepped hw h).wellFormed hw) hw hrun

theorem wellFormed_of_run (hrun : Transition.run step (new broker) actions = some system) :
    system.WellFormed := (wellFormed_new broker).run hrun

/-- A run keeps to the discipline. -/
theorem WellFormed.follows_run (hw : system.WellFormed)
    (hrun : Transition.run step system actions = some system') :
    Follows ∅ system.shared system'.shared := by
  have hinvariant := Transition.invariant
    (I := fun t : RegistrySystem ↦ t.WellFormed ∧ Follows ∅ system.shared t.shared)
    (fun _ _ _ h hstep ↦ ⟨(stepped h.1 hstep).wellFormed h.1,
      h.2.trans ((stepped h.1 hstep).follows h.1)⟩) ⟨hw, .refl ..⟩ hrun
  exact hinvariant.2

/-- **An ended subscription notifies of nothing**: whatever its `next` returns from then on is no
notification. -/
theorem WellFormed.returned_run (hw : system.WellFormed) {i : ℕ}
    (hi : system.receivers[i]? = some receiver) (hended : Ended receiver.entry system.shared)
    (hrun : Transition.run step system actions = some system') :
    ∃ receiver', system'.receivers[i]? = some receiver' ∧ ∃ polls,
      receiver'.returned = receiver.returned ++ polls ∧
        ∀ u, UpdateSubscriptionPoll.notification u ∉ polls := by
  have hinvariant := Transition.invariant
    (I := fun t : RegistrySystem ↦ t.WellFormed ∧ Ended receiver.entry t.shared ∧
      ∃ receiver', t.receivers[i]? = some receiver' ∧ receiver'.entry = receiver.entry ∧ ∃ polls,
        receiver'.returned = receiver.returned ++ polls ∧
          ∀ u, UpdateSubscriptionPoll.notification u ∉ polls) ?_
    ⟨hw, hended, receiver, hi, rfl, [], by simp, by simp⟩ hrun
  · obtain ⟨-, -, receiver', hi', -, hpolls⟩ := hinvariant
    exact ⟨receiver', hi', hpolls⟩
  rintro t a t' ⟨htw, hended, receiver₁, hi₁, hentry, polls, hreturned, hnone⟩ hstep
  have hstepped := stepped htw hstep
  have hended' := (hstepped.follows htw).ended_of_ended hended
  obtain ⟨receiver₂, hi₂, hprogress⟩ := hstepped.progress htw hi₁
  refine ⟨hstepped.wellFormed htw, hended', receiver₂, hi₂, hprogress.entry.trans hentry, ?_⟩
  rcases hprogress.returned with hsame | ⟨poll, hmore, hdelivered⟩
  · exact ⟨polls, hsame.trans hreturned, hnone⟩
  refine ⟨polls ++ [poll], by rw [hmore, hreturned, List.append_assoc], fun u hu ↦ ?_⟩
  rcases List.mem_append.mp hu with hold | hnew
  · exact hnone u hold
  · -- a notification would find the state word active
    exact hended' (hentry ▸ hdelivered u (List.mem_singleton.mp hnew).symm)

/-! ## Where an operation comes from -/

theorem holder_advance {call : RegistryCall} {program : SharedProgram RegistryOutcome}
    {holder : RegistryHolder} (h : (system.advance call program).holder = some holder) :
    holder = ⟨call, program⟩ ∧ Pending program ∧
      (system.advance call program).fields = system.fields ∧
      (system.advance call program).shared = system.shared := by
  cases program with
  | result outcome => exact absurd h (by simp [holder_advance_result])
  | access o k => exact ⟨(Option.some_inj.mp h).symm, pending_access, rfl, rfl⟩

/-- The operation in progress took the mutex in some state of the run, and none has since. -/
theorem origin_of_run (hrun : Transition.run step (new broker) actions = some system)
    {holder : RegistryHolder} (hholder : system.holder = some holder) :
    ∃ before after origin, actions = before ++ .call holder.call :: after ∧
      (∀ call, RegistryAction.call call ∉ after) ∧
      Transition.run step (new broker) before = some origin ∧ origin.fields = system.fields ∧
      Holds system.fields origin.shared system.shared holder := by
  induction actions using List.reverseRecOn generalizing system holder with
  | nil =>
    obtain rfl := Option.some_inj.mp hrun
    exact absurd hholder (by simp [new])
  | append_singleton actions action ih =>
    obtain ⟨system₁, hrun₁, hstep⟩ := Transition.run_concat_eq_some_iff.mp hrun
    have hw := wellFormed_of_run hrun₁
    cases stepped hw hstep with
    | called call free held eq =>
      subst eq
      obtain ⟨rfl, hpending, hfields, hshared⟩ := holder_advance hholder
      refine ⟨actions, [], system₁, rfl, by simp, hrun₁, hfields.symm, ?_⟩
      rw [hfields, hshared]
      exact ⟨hpending, obeys_program hw.sane held⟩
    | worked call o k holder₁ eq =>
      subst eq
      obtain ⟨rfl, hpending, hfields, hshared⟩ := holder_advance hholder
      obtain ⟨before, after, origin, rfl, hcalls, hbefore, horigin, hholds⟩ := ih hrun₁ holder₁
      refine ⟨before, after ++ [.work],
        origin, by simp, ?_, hbefore, horigin.trans hfields.symm, ?_⟩
      · exact fun call h ↦ (List.mem_append.mp h).elim (hcalls call) (by simp)
      · rw [hfields, hshared]
        exact ⟨hpending, hholds.obeys.step.2⟩
    | lost channelId s follows eq =>
      subst eq
      obtain ⟨before, after, origin, rfl, hcalls, hbefore, horigin, hholds⟩ := ih hrun₁ hholder
      refine ⟨before, after ++ [.dropChannel channelId], origin, by simp, ?_, hbefore, horigin, ?_⟩
      · exact fun call h ↦ (List.mem_append.mp h).elim (hcalls call) (by simp)
      · refine hholds.of_follows (follows.mono ?_)
        rw [reliedOn, (hholder : system₁.holder = some holder), Option.elim_some]
    | served i receiver receiver' s not_call not_work received follows progress eq =>
      subst eq
      obtain ⟨before, after, origin, rfl, hcalls, hbefore, horigin, hholds⟩ := ih hrun₁ hholder
      refine ⟨before, after ++ [action], origin, by simp, ?_, hbefore, horigin, ?_⟩
      · refine fun call h ↦ (List.mem_append.mp h).elim (hcalls call) fun heq ↦ ?_
        exact not_call call (List.mem_singleton.mp heq).symm
      · exact hholds.of_follows (follows.mono (Set.subset_univ _))

/-- An answer is given by the operation in progress, in its last step. -/
theorem answered_advance {call call' : RegistryCall} {program : SharedProgram RegistryOutcome}
    {reply : RegistryReply}
    (h : (system.advance call program).answered = system.answered ++ [(call', reply)]) :
    call = call' ∧ ∃ fields, program = .result ⟨fields, reply⟩ := by
  cases program with
  | result outcome =>
    obtain ⟨rfl, rfl⟩ := Prod.mk.inj (List.singleton_inj.mp (List.append_cancel_left h))
    exact ⟨rfl, outcome.fields, rfl⟩
  | access o k => exact absurd (congrArg List.length h) (by simp [advance])

/-- **A refusal for backpressure**: the operation took the mutex in some state of the run, and what
it has kept of its entries, all of them active then and on live channels, takes up a bound. -/
theorem full_of_backpressure (hrun : Transition.run step (new broker) actions = some system)
    (hstep : system.step action = some system') {channel : BrokerChannel} {d : DocumentId}
    {c : CapabilityId} (hanswered : system'.answered = system.answered ++
      [(.register channel d c, .registered (.error .backpressure))]) :
    ∃ before after origin, actions ++ [action] = before ++ .call (.register channel d c) :: after ∧
      (∀ call, RegistryAction.call call ∉ after) ∧
      Transition.run step (new broker) before = some origin ∧ ∃ kept,
        kept.Sublist origin.fields.subscriptions ∧ (∀ entry ∈ kept, Taken origin.shared entry) ∧
        RegistryFull origin.fields channel.id d kept := by
  have hfull : ∀ {fields fields' : RegistryFields} {s₀ s : Shared},
      Leaves (.register channel d c) fields s₀ s ⟨fields', .registered (.error .backpressure)⟩ →
      ∃ kept, kept.Sublist fields.subscriptions ∧ (∀ entry ∈ kept, Taken s₀ entry) ∧
        RegistryFull fields channel.id d kept := by
    intro fields fields' s₀ s hleaves
    cases hleaves with
    | backpressure call_eq swept full =>
      obtain ⟨rfl, rfl, rfl⟩ := RegistryCall.register.inj call_eq
      exact ⟨_, swept.sublist, swept.forall_kept, full⟩
  have hw := wellFormed_of_run hrun
  cases stepped hw hstep with
  | called call free held eq =>
    subst eq
    obtain ⟨rfl, fields, hprogram⟩ := answered_advance hanswered
    have hobeys := obeys_program hw.sane held
    rw [hprogram] at hobeys
    exact ⟨actions, [], system, rfl, by simp, hrun, hfull hobeys⟩
  | worked call o k holder eq =>
    subst eq
    obtain ⟨rfl, fields, hprogram⟩ := answered_advance hanswered
    obtain ⟨before, after, origin, rfl, hcalls, hbefore, horigin, hholds⟩ :=
      origin_of_run hrun holder
    have hobeys := hholds.obeys.step.2
    rw [hprogram] at hobeys
    refine ⟨before, after ++ [.work], origin, by simp, ?_, hbefore, horigin ▸ hfull hobeys⟩
    exact fun call h ↦ (List.mem_append.mp h).elim (hcalls call) (by simp)
  | lost channelId s follows eq =>
    exact absurd (congrArg List.length (eq ▸ hanswered)) (by simp)
  | served i receiver receiver' s not_call not_work received follows progress eq =>
    exact absurd (congrArg List.length (eq ▸ hanswered)) (by simp [RegistrySystem.setReceiver])

/-! ## Counting -/

/-- The active subscriptions are among the entries. -/
theorem WellFormed.countP_isActive_le (h : system.WellFormed) (p : SubscriptionEntry → Bool) :
    (system.receivers.countP fun receiver ↦ system.isActive receiver && p receiver.entry) ≤
      system.fields.subscriptions.countP p := by
  have hnodup : (((system.receivers.filter system.isActive).map Receiver.entry).map
      SubscriptionEntry.subscriptionId).Nodup := by
    rw [List.map_map]
    exact h.handed_nodup.sublist (List.filter_sublist.map _)
  have hsub : List.Subperm ((system.receivers.filter system.isActive).map Receiver.entry)
      system.fields.subscriptions := by
    refine List.subperm_of_subset hnodup.of_map fun entry hentry ↦ ?_
    obtain ⟨receiver, hreceiver, rfl⟩ := List.mem_map.mp hentry
    obtain ⟨hmem, hactive⟩ := List.mem_filter.mp hreceiver
    exact h.present receiver hmem (isActive_iff.mp hactive)
  refine le_trans (le_of_eq ?_) (hsub.countP_le p)
  rw [List.countP_map, List.countP_filter]
  exact List.countP_congr fun receiver _ ↦ by simp [and_comm]

/-- Entries that are taken are of live subscriptions. -/
theorem WellFormed.countP_le_isLive (h : system.WellFormed) {entries : List SubscriptionEntry}
    (hentries : entries.Sublist system.fields.subscriptions)
    (htaken : ∀ entry ∈ entries, Taken system.shared entry) (p : SubscriptionEntry → Bool) :
    entries.countP p ≤
      system.receivers.countP fun receiver ↦ system.isLive receiver && p receiver.entry := by
  have hnodup : entries.Nodup := (h.entries_nodup.sublist (hentries.map _)).of_map
  have hsub : List.Subperm entries
      ((system.receivers.filter system.isLive).map Receiver.entry) := by
    refine List.subperm_of_subset hnodup fun entry hentry ↦ ?_
    obtain ⟨receiver, hreceiver, rfl⟩ := List.mem_map.mp (h.handed entry (hentries.subset hentry))
    exact List.mem_map_of_mem (List.mem_filter.mpr ⟨hreceiver, isLive_iff.mpr (htaken _ hentry)⟩)
  refine (hsub.countP_le p).trans (le_of_eq ?_)
  rw [List.countP_map, List.countP_filter]
  exact List.countP_congr fun receiver _ ↦ by simp [and_comm]

end RegistrySystem

/-- **The subscription registry among its users.**  In every state of every run of its operations,
in which the accesses of all parties interleave: the bounds hold for the active subscriptions,
overall, on a channel and of a document; an active subscription has one entry, and no two share a
number; a registration is refused for backpressure only if, when it took the mutex, live
subscriptions took up a bound, or all numbers were issued; and from there on, a subscription that
has ended keeps the reason, and its `next` returns no notification. -/
theorem registry_interleaving (broker : ℕ) (actions : List RegistryAction) (system : RegistrySystem)
    (hrun : Transition.run RegistrySystem.step (.new broker) actions = some system) :
    system.receivers.countP system.isActive ≤ maxUpdateSubscriptions ∧
    (∀ channelId, (system.receivers.countP fun receiver ↦ system.isActive receiver &&
      decide (receiver.entry.channelId = channelId)) ≤ maxUpdateSubscriptionsPerChannel) ∧
    (∀ d, (system.receivers.countP fun receiver ↦ system.isActive receiver &&
      decide (receiver.entry.documentId = d)) ≤ maxUpdateSubscriptionsPerDocument) ∧
    (∀ receiver ∈ system.receivers, system.isActive receiver = true →
      system.fields.subscriptions.count receiver.entry = 1) ∧
    (system.fields.subscriptions.map SubscriptionEntry.subscriptionId).Nodup ∧
    (system.receivers.map fun receiver ↦ receiver.entry.subscriptionId).Nodup ∧
    (∀ (action : RegistryAction) (system' : RegistrySystem) (channel : BrokerChannel)
      (d : DocumentId) (c : CapabilityId), system.step action = some system' →
      system'.answered = system.answered ++
        [(.register channel d c, .registered (.error .backpressure))] →
      ∃ before after origin,
        actions ++ [action] = before ++ .call (.register channel d c) :: after ∧
        (∀ call, RegistryAction.call call ∉ after) ∧
        Transition.run RegistrySystem.step (.new broker) before = some origin ∧
        (maxUpdateSubscriptions ≤ origin.receivers.countP origin.isLive ∨
          maxUpdateSubscriptionsPerChannel ≤ (origin.receivers.countP fun receiver ↦
            origin.isLive receiver && decide (receiver.entry.channelId = channel.id)) ∨
          maxUpdateSubscriptionsPerDocument ≤ (origin.receivers.countP fun receiver ↦
            origin.isLive receiver && decide (receiver.entry.documentId = d)) ∨
          2 ^ 64 ≤ origin.fields.nextSubscriptionId + 1)) ∧
    ∀ (i : ℕ) (receiver : Receiver), system.receivers[i]? = some receiver →
      system.isActive receiver = false →
      ∀ (actions' : List RegistryAction) (system' : RegistrySystem),
        Transition.run RegistrySystem.step system actions' = some system' →
        (system'.shared.cells receiver.entry.subscriptionId).state =
            (system.shared.cells receiver.entry.subscriptionId).state ∧
          ∃ receiver', system'.receivers[i]? = some receiver' ∧ ∃ polls,
            receiver'.returned = receiver.returned ++ polls ∧
              ∀ u, UpdateSubscriptionPoll.notification u ∉ polls := by
  have hw := RegistrySystem.wellFormed_of_run hrun
  refine ⟨?_, fun channelId ↦ ?_, fun d ↦ ?_, fun receiver hreceiver hactive ↦ ?_, hw.entries_nodup,
    hw.handed_nodup, fun action system' channel d c hstep hanswered ↦ ?_,
    fun i receiver hi hended actions' system' hrun' ↦ ?_⟩
  · have hcount := (hw.countP_isActive_le fun _ ↦ true).trans (List.countP_le_length ..)
    simp only [Bool.and_true] at hcount
    exact hcount.trans hw.length_le
  · exact (hw.countP_isActive_le _).trans (hw.channel_le channelId)
  · exact (hw.countP_isActive_le _).trans (hw.document_le d)
  · exact List.count_eq_one_of_mem hw.entries_nodup.of_map
      (hw.present receiver hreceiver (RegistrySystem.isActive_iff.mp hactive))
  · obtain ⟨before, after, origin, hactions, hcalls, hbefore, kept, hkept, htaken, hfull⟩ :=
      RegistrySystem.full_of_backpressure hrun hstep hanswered
    have hcount := (RegistrySystem.wellFormed_of_run hbefore).countP_le_isLive hkept htaken
    refine ⟨before, after, origin, hactions, hcalls, hbefore, ?_⟩
    rcases hfull with h | h | h | h
    · have hall := hcount fun _ ↦ true
      simp only [List.countP_true, Bool.and_true] at hall
      exact .inl (h.trans hall)
    · exact .inr (.inl (h.trans (hcount _)))
    · exact .inr (.inr (.inl (h.trans (hcount _))))
    · exact .inr (.inr (.inr h))
  · have hended' : Ended receiver.entry system.shared := by
      by_contra hactive
      exact absurd (RegistrySystem.isActive_iff.mpr hactive) (by simp [hended])
    exact ⟨(hw.follows_run hrun').ended _ hended', hw.returned_run hi hended' hrun'⟩

/-- A notification is queued for the first subscription, which is then cancelled. -/
def queuedThenCancelled (u : UpdateId) : List RegistryAction :=
  [.call .openChannel, .call (.register ⟨0, 1⟩ ⟨Bytes.replicate _ 0⟩ ⟨Bytes.replicate _ 0⟩),
    .call (.notify ⟨Bytes.replicate _ 0⟩ u), .work, .work, .work, .cancel 0, .proceed 0, .proceed 0]

/-- The `next` of a cancelled subscription never returns what was queued for it. -/
theorem registry_interleaving_sample :
    ∃ (u : UpdateId) (system : RegistrySystem) (receiver : Receiver),
      Transition.run RegistrySystem.step (.new 0) (queuedThenCancelled u) = some system ∧
      system.receivers[0]? = some receiver ∧ (system.shared.cells 1).queue = [u] ∧
      ∀ (actions' : List RegistryAction) (system' : RegistrySystem),
        Transition.run RegistrySystem.step system actions' = some system' →
        ∃ receiver', system'.receivers[0]? = some receiver' ∧ ∃ polls,
          receiver'.returned = receiver.returned ++ polls ∧
            ∀ u, UpdateSubscriptionPoll.notification u ∉ polls := by
  have hrun : ∃ system receiver,
      Transition.run RegistrySystem.step (.new 0) (queuedThenCancelled ⟨Bytes.replicate _ 0⟩) =
        some system ∧
      system.receivers[0]? = some receiver ∧ system.isActive receiver = false ∧
      (system.shared.cells 1).queue = [⟨Bytes.replicate _ 0⟩] := ⟨_, _, rfl, rfl, rfl, rfl⟩
  obtain ⟨system, receiver, hrun, hreceiver, hended, hqueue⟩ := hrun
  refine ⟨_, system, receiver, hrun, hreceiver, hqueue, fun actions' system' hrun' ↦ ?_⟩
  exact ((registry_interleaving 0 _ system hrun).2.2.2.2.2.2.2 0 receiver hreceiver hended actions'
    system' hrun').2

/-! ## When the numbers run out -/

namespace RegistrySystem

variable {system : RegistrySystem} {d : DocumentId} {c : CapabilityId}

/-- All subscriptions have ended, the last of them with the number `n`; only its entry is left. -/
structure Spent (d : DocumentId) (c : CapabilityId) (n : ℕ) (system : RegistrySystem) : Prop where
  fields : system.fields = ⟨0, 2, n + 1, [⟨c, 1, d, n⟩]⟩
  lost : system.shared.lost = []
  holder : system.holder = none
  length : system.receivers.length = n
  ended : ∀ receiver ∈ system.receivers, Ended receiver.entry system.shared
  entry : (system.shared.cells n).state ≠ active

/-- The next registration drops the one entry there is, and asks for a number. -/
theorem Spent.run_register {n : ℕ} (h : system.Spent d c n) :
    ∃ dropped, Transition.run step system [.call (.register ⟨0, 1⟩ d c), .work, .work] =
      some ({ system with shared := { system.shared with dropped } }.advance
        (.register ⟨0, 1⟩ d c) (match checkedAdd 64 (n + 1) 1 with
          | none => .result ⟨⟨0, 2, n + 1, []⟩, .registered (.error .backpressure)⟩
          | some m => .result ⟨⟨0, 2, m, [⟨c, 1, d, n + 1⟩]⟩,
            .registered (.ok ⟨c, 1, d, n + 1⟩)⟩)) := by
  obtain ⟨fields, shared, holder, receivers, answered⟩ := system
  obtain ⟨hfields, hlost, hholder, -, -, hentry⟩ := h
  simp only at hfields hlost hholder hentry
  subst hfields hholder
  refine ⟨n :: shared.dropped, ?_⟩
  -- whether there is a number is asked last, so both cases run alike
  cases hadd : checkedAdd 64 (n + 1) 1 <;>
    simp only [Transition.run, List.foldlM_cons, List.foldlM_nil, step, advance, Shared.exec, hlost,
      hentry, hadd, RegistryCall.channel?, RegistryCall.program, registerProgram, canPass,
      RegistryFields.recognizes, SharedProgram.retain, SharedProgram.pruneEntry, SharedProgram.load,
      SharedProgram.dropSender, SharedProgram.countChannel, Program.filter, Program.pure_eq,
      Program.perform_bind, Program.access_bind, Program.result_bind, maxUpdateSubscriptions,
      maxUpdateSubscriptionsPerChannel, maxUpdateSubscriptionsPerDocument, Option.isNone_none,
      Option.all_some, Option.pure_def, Option.bind_eq_bind, Option.bind_fun_some, Option.bind_some,
      decide_true, decide_false, decide_eq_true_eq, Bool.not_true, Bool.not_false, Bool.and_self,
      Bool.or_true, Bool.or_eq_true, Bool.false_eq_true, Bool.not_eq_eq_eq_not, Nat.lt_add_one,
      List.contains_eq_mem, List.not_mem_nil, and_self, ne_eq, ite_not, ↓reduceIte,
      ExceptT.stM_eq, List.length_nil, List.countP_nil, List.nil_append, Nat.le_zero_eq,
      OfNat.ofNat_ne_zero, or_false, false_or, ite_self]

theorem run_cancel {i : ℕ} {receiver : Receiver} (hi : system.receivers[i]? = some receiver)
    (hidle : receiver.phase = .idle) :
    Transition.run step system [.cancel i, .proceed i, .proceed i] = some { system with
      shared := system.shared.setCell receiver.entry.subscriptionId
        { (system.shared.cells receiver.entry.subscriptionId).invalidate .cancelled with
          closed := true } } := by
  obtain ⟨entry, phase, returned⟩ := receiver
  subst hidle
  obtain ⟨hlt, hget⟩ := List.getElem?_eq_some_iff.mp hi
  have hset : system.receivers.set i ⟨entry, .idle, returned⟩ = system.receivers := by
    rw [← hget, List.set_getElem_self]
  simp [Transition.run, step, begin, hget, advanceCancel, cancelProgram, SharedProgram.invalidate,
    SharedProgram.close, Program.perform, RegistrySystem.setReceiver, proceed, hlt, Shared.exec,
    Shared.setCell, hset]

/-- A registration and a cancellation leave the numbers further along, and nothing else. -/
theorem Spent.next {n : ℕ} (h : system.Spent d c n) (hn : n + 2 < 2 ^ 64) :
    ∃ actions system', Transition.run step system actions = some system' ∧
      system'.Spent d c (n + 1) := by
  obtain ⟨dropped, hregister⟩ := h.run_register
  have hadd : checkedAdd 64 (n + 1) 1 = some (n + 2) := checkedAdd_eq_some hn
  rw [hadd] at hregister
  generalize hsystem₁ : RegistrySystem.advance _ _ _ = system₁ at hregister
  have hreceivers : system₁.receivers = system.receivers ++ [⟨⟨c, 1, d, n + 1⟩, .idle, []⟩] := by
    rw [← hsystem₁]
    rfl
  have hcells : system₁.shared.cells = system.shared.cells := by
    rw [← hsystem₁]
    rfl
  have hreceiver : system₁.receivers[n]? = some ⟨⟨c, 1, d, n + 1⟩, .idle, []⟩ := by
    rw [hreceivers, ← h.length, List.getElem?_concat_length]
  refine ⟨_, _, Transition.run_append.trans
    ((congrArg (Option.bind · _) hregister).trans (run_cancel hreceiver rfl)), ?_⟩
  have hnew : ((system₁.shared.cells (n + 1)).invalidate .cancelled).state ≠ active :=
    SubscriptionCell.state_invalidate_ne _ _
  refine ⟨by rw [← hsystem₁]; rfl, by rw [← hsystem₁]; exact h.lost, by rw [← hsystem₁]; rfl, ?_,
    fun receiver hmem ↦ ?_, ?_⟩
  · rw [hreceivers, List.length_append, h.length, List.length_singleton]
  · simp only [Ended, Shared.setCell]
    by_cases hid : receiver.entry.subscriptionId = n + 1
    · rw [hid, Function.update_self]
      exact hnew
    · rw [Function.update_of_ne hid, hcells]
      rcases List.mem_append.mp (hreceivers ▸ hmem) with hold | hfresh
      · exact h.ended receiver hold
      · exact absurd (congrArg (fun r ↦ r.entry.subscriptionId) (List.mem_singleton.mp hfresh)) hid
  · simp only [Shared.setCell, Function.update_self]
    exact hnew

theorem spent_one (d : DocumentId) (c : CapabilityId) :
    ∃ actions system, Transition.run step (new 0) actions = some system ∧ system.Spent d c 1 := by
  have hended : encodeEnd .cancelled ≠ active := encodeEnd_ne_active _
  refine ⟨[.call .openChannel, .call (.register ⟨0, 1⟩ d c), .cancel 0, .proceed 0, .proceed 0], _,
    rfl, rfl, rfl, rfl, rfl, fun receiver hmem ↦ ?_, hended⟩
  obtain rfl := List.mem_singleton.mp hmem
  exact hended

theorem exists_spent (d : DocumentId) (c : CapabilityId) {n : ℕ} (hpos : 0 < n)
    (hn : n + 1 < 2 ^ 64) :
    ∃ actions system, Transition.run step (new 0) actions = some system ∧ system.Spent d c n := by
  induction n, hpos using Nat.le_induction with
  | base => exact spent_one d c
  | succ n hpos ih =>
    obtain ⟨actions, system, hrun, hspent⟩ := ih (Nat.lt_of_succ_lt hn)
    obtain ⟨actions', system', hrun', hspent'⟩ := hspent.next hn
    exact ⟨actions ++ actions', system', Transition.run_append.trans (hrun ▸ hrun'), hspent'⟩

end RegistrySystem

/-- When the last number has been issued, a registration is refused for backpressure although no
subscription is active. -/
theorem backpressure_without_subscriptions :
    ∃ (d : DocumentId) (c : CapabilityId) (actions : List RegistryAction)
      (origin system : RegistrySystem),
      Transition.run RegistrySystem.step (.new 0) actions = some origin ∧
      origin.receivers.countP origin.isActive = 0 ∧
      Transition.run RegistrySystem.step origin [.call (.register ⟨0, 1⟩ d c), .work, .work] =
        some system ∧
      system.answered = origin.answered ++
        [(.register ⟨0, 1⟩ d c, .registered (.error .backpressure))] := by
  have hpos : 0 < 2 ^ 64 - 2 := by decide
  obtain ⟨actions, origin, hrun, hspent⟩ := RegistrySystem.exists_spent
    ⟨Bytes.replicate _ 0⟩ ⟨Bytes.replicate _ 0⟩ hpos (by decide)
  obtain ⟨dropped, hrefused⟩ := hspent.run_register
  have hadd : checkedAdd 64 (2 ^ 64 - 2 + 1) 1 = none := checkedAdd_eq_none_iff.mpr (by decide)
  rw [hadd] at hrefused
  refine ⟨_, _, actions, origin, _, hrun, List.countP_eq_zero.mpr fun receiver hmem ↦ ?_, hrefused,
    rfl⟩
  rw [RegistrySystem.isActive_iff, not_not]
  exact hspent.ended receiver hmem

end Renee
