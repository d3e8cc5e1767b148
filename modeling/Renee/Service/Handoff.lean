import Renee.Service.SharedStore
import Renee.Subscription.Custody

/-!
# Nothing is lost between reading and subscribing

A client that has subscribed is notified of every update that is inserted from then on, or finds out
that its subscription has ended; so what it reads from the beginning after that, together with what
it is notified of, is everything.

* `committed` is what the registry has been told to queue for a subscription since it was handed
  out, whether the operation has returned or not; it grows with the log (`committed_run`).
* `no_lost_update`: of the updates inserted since the acknowledgement, the first have been returned
  and, while the subscription is active, the others wait in its queue; an ended subscription says
  so.
* `handoff_complete`: a subscription that stays active and is drained, and one complete read.
* `subscriber_informed` joins the two, and adds what a call of `next` reports of an end.
-/

set_option autoImplicit false

namespace Renee

open ByteString Interference
open UpdateSubscriptionRegistry (UpdateSubscriptionPoll)

/-! ## What is committed to a subscription -/

/-- Nothing is being done with a receiver, or its `next` waits. -/
def ReceiverPhase.rests : ReceiverPhase → Bool
  | .idle | .waiting => true
  | _ => false

theorem ReceiverPhase.rests_iff {phase : ReceiverPhase} :
    phase.rests = true ↔ phase = .idle ∨ phase = .waiting := by
  cases phase <;> simp [rests]

namespace RegistrySystem

variable {system system' : RegistrySystem} {entry : SubscriptionEntry} {action : RegistryAction}
  {actions : List RegistryAction} {receiver : Receiver} {i : ℕ}

/-- What has been queued for a subscription since it was handed out, or is about to be. -/
def committed (system : RegistrySystem) (entry : SubscriptionEntry) : List UpdateId :=
  due system.answered entry ++
    system.holder.toList.flatMap fun holder ↦ holder.call.queues entry

theorem committed_of_free (h : system.holder = none) :
    system.committed entry = due system.answered entry := by
  rw [committed, h, Option.toList_none, List.flatMap_nil, List.append_nil]

theorem committed_advance (h : entry ∈ handedOut system.answered) (call : RegistryCall)
    (program : SharedProgram RegistryOutcome) :
    (system.advance call program).committed entry =
      due system.answered entry ++ call.queues entry := by
  cases program with
  | result outcome =>
    rw [committed_of_free rfl]
    exact due_concat_of_mem h
  | access o k =>
    simp only [committed, advance, Option.toList_some, List.flatMap_singleton]

theorem handedOut_advance (h : entry ∈ handedOut system.answered) (call : RegistryCall)
    (program : SharedProgram RegistryOutcome) :
    entry ∈ handedOut (system.advance call program).answered := by
  cases program with
  | result outcome =>
    rw [advance, handedOut_concat]
    exact List.mem_append_left _ h
  | access o k => exact h

/-- A step commits what the operation that it begins queues. -/
theorem Stepped.committed_eq (h : Stepped system system' action)
    (hentry : entry ∈ handedOut system.answered) :
    system'.committed entry = system.committed entry ++ action.queues entry ∧
      entry ∈ handedOut system'.answered := by
  cases h with
  | called call free held eq =>
    rw [eq, committed_advance hentry, committed_of_free free]
    exact ⟨rfl, handedOut_advance hentry call _⟩
  | worked call o k holder eq =>
    have hentry' : entry ∈ handedOut
        ({ system with shared := (system.shared.exec o).2 }).answered :=
      hentry
    rw [eq, committed_advance hentry', committed, holder, Option.toList_some,
      List.flatMap_singleton]
    exact ⟨(List.append_nil _).symm, handedOut_advance hentry' call _⟩
  | lost channelId s follows eq => exact eq ▸ ⟨(List.append_nil _).symm, hentry⟩
  | served i receiver receiver' s not_call not_work received follows progress eq =>
    refine eq ▸ ⟨?_, hentry⟩
    have hqueues : action.queues entry = [] := by
      cases action with
      | call called => exact absurd rfl (not_call called)
      | _ => rfl
    rw [hqueues, List.append_nil]
    rfl

theorem committed_run (hw : system.WellFormed) (hentry : entry ∈ handedOut system.answered)
    (hrun : Transition.run step system actions = some system') :
    system'.committed entry =
      system.committed entry ++ actions.flatMap (RegistryAction.queues entry) := by
  induction actions generalizing system with
  | nil =>
    obtain rfl := Option.some_inj.mp hrun
    exact (List.append_nil _).symm
  | cons action actions ih =>
    obtain ⟨system₁, hstep, hrun⟩ := Transition.run_cons_eq_some_iff.mp hrun
    have hstepped := stepped hw hstep
    obtain ⟨hcommitted, hentry₁⟩ := hstepped.committed_eq hentry
    rw [ih (hstepped.wellFormed hw) hentry₁ hrun, hcommitted, List.flatMap_cons, List.append_assoc]

/-- Nothing is committed to a subscription that has just been handed out. -/
theorem Recorded.committed_nil {l : Ledger} (hw : system.WellFormed) (h : system.Recorded l)
    (hfree : system.holder = none) {channel : BrokerChannel} {d : DocumentId} {c : CapabilityId}
    (hlast : system.answered.getLast? = some (.register channel d c, .registered (.ok entry))) :
    system.committed entry = [] := by
  obtain ⟨before, hbefore⟩ := List.getLast?_eq_some_iff.mp hlast
  have hhanded := h.booked.handed
  rw [hbefore, handedOut_concat] at hhanded
  have hnodup : (handedOut before ++ [entry]).Nodup := by
    refine (congrArg List.Nodup hhanded).mpr (List.Nodup.of_map SubscriptionEntry.subscriptionId ?_)
    rw [List.map_map]
    exact hw.handed_nodup
  have hnew : entry ∉ handedOut before := fun hmem ↦
    absurd rfl ((List.nodup_append.mp hnodup).2.2 entry hmem entry (List.mem_singleton_self _))
  rw [committed_of_free hfree, hbefore, due_concat_of_not_mem hnew rfl]
  rfl

/-- A subscription stays where it is. -/
theorem receiver_run (hw : system.WellFormed) (hi : system.receivers[i]? = some receiver)
    (hrun : Transition.run step system actions = some system') :
    ∃ receiver', system'.receivers[i]? = some receiver' ∧ receiver'.entry = receiver.entry := by
  refine (Transition.invariant (I := fun t : RegistrySystem ↦ t.WellFormed ∧
    ∃ receiver', t.receivers[i]? = some receiver' ∧ receiver'.entry = receiver.entry) ?_
    ⟨hw, receiver, hi, rfl⟩ hrun).2
  rintro t action t' ⟨htw, receiver₁, hi₁, hentry⟩ hstep
  have hstepped := stepped htw hstep
  obtain ⟨receiver₂, hi₂, hprogress⟩ := hstepped.progress htw hi₁
  exact ⟨hstepped.wellFormed htw, receiver₂, hi₂, hprogress.entry.trans hentry⟩

/-- What has been called has been called before the run, or in it. -/
theorem called_step (hw : system.WellFormed) (hstep : system.step action = some system')
    {call : RegistryCall} (hcall : call ∈ system'.called) :
    call ∈ system.called ∨ action = .call call := by
  have hadvance (system : RegistrySystem) (call' : RegistryCall)
      (program : SharedProgram RegistryOutcome)
      (hcall : call ∈ (system.advance call' program).called) :
      call ∈ system.answered.map Prod.fst ∨ call = call' := by
    rw [called_advance] at hcall
    exact (List.mem_append.mp hcall).imp id List.mem_singleton.mp
  cases stepped hw hstep with
  | called call' free held eq =>
    rw [eq] at hcall
    rcases hadvance system call' _ hcall with hold | rfl
    · exact .inl (List.mem_append_left _ hold)
    · exact .inr rfl
  | worked call' o k holder eq =>
    rw [eq] at hcall
    rcases hadvance _ call' _ hcall with hold | rfl
    · exact .inl (List.mem_append_left _ hold)
    · refine .inl (List.mem_append_right _ ?_)
      rw [holder]
      exact List.mem_singleton_self _
  | lost channelId s follows eq =>
    subst eq
    exact .inl hcall
  | served i receiver receiver' s not_call not_work received follows progress eq =>
    subst eq
    exact .inl hcall

theorem called_run (hw : system.WellFormed)
    (hrun : Transition.run step system actions = some system') {call : RegistryCall}
    (hcall : call ∈ system'.called) :
    call ∈ system.called ∨ RegistryAction.call call ∈ actions := by
  induction actions generalizing system with
  | nil => exact .inl (Option.some_inj.mp hrun ▸ hcall)
  | cons action actions ih =>
    obtain ⟨system₁, hstep, hrun⟩ := Transition.run_cons_eq_some_iff.mp hrun
    rcases ih ((stepped hw hstep).wellFormed hw) hrun with hold | hnew
    · rcases called_step hw hstep hold with hold | rfl
      · exact .inl hold
      · exact .inr (List.mem_cons_self ..)
    · exact .inr (List.mem_cons_of_mem _ hnew)

/-! ## What is handed out -/

/-- What a step answers is what its operation leaves. -/
theorem Stepped.answered (h : Stepped system system' action) (hw : system.WellFormed) :
    system'.answered = system.answered ∨ ∃ call fields s₀ s outcome,
      system'.answered = system.answered ++ [(call, RegistryOutcome.reply outcome)] ∧
        Leaves call fields s₀ s outcome := by
  cases h with
  | called call free held eq =>
    have hobeys := obeys_program hw.sane held
    rw [eq]
    cases hprogram : call.program system.fields with
    | access o k => exact .inl rfl
    | result outcome =>
      rw [hprogram] at hobeys
      exact .inr ⟨call, _, _, _, outcome, rfl, hobeys⟩
  | worked call o k holder eq =>
    obtain ⟨s₀, hholds⟩ := hw.holder _ holder
    have hobeys := hholds.obeys.step.2
    rw [eq]
    cases hprogram : k (system.shared.exec o).1 with
    | access o' k' => exact .inl rfl
    | result outcome =>
      rw [hprogram] at hobeys
      exact .inr ⟨call, _, _, _, outcome, rfl, hobeys⟩
  | lost channelId s follows eq => exact .inl (by rw [eq])
  | served i receiver receiver' s not_call not_work received follows progress eq =>
    exact .inl (by rw [eq]; rfl)

/-- A subscription is what was asked for. -/
theorem registered_run {broker : ℕ} (hrun : Transition.run step (new broker) actions = some system)
    {channel : BrokerChannel} {d : DocumentId} {c : CapabilityId}
    (hmem : (.register channel d c, .registered (.ok entry)) ∈ system.answered) :
    entry.channelId = channel.id ∧ entry.documentId = d ∧ entry.capabilityId = c := by
  refine (Transition.invariant (I := fun t : RegistrySystem ↦ t.WellFormed ∧
    ((.register channel d c, .registered (.ok entry)) ∈ t.answered →
      entry.channelId = channel.id ∧ entry.documentId = d ∧ entry.capabilityId = c)) ?_
    ⟨wellFormed_new broker, by simp [new]⟩ hrun).2 hmem
  rintro t action t' ⟨hw, hold⟩ hstep
  have hstepped := stepped hw hstep
  refine ⟨hstepped.wellFormed hw, fun hmem ↦ ?_⟩
  rcases hstepped.answered hw with hsame | ⟨call, fields, s₀, s, outcome, hanswered, hleaves⟩
  · exact hold (hsame ▸ hmem)
  rw [hanswered] at hmem
  rcases List.mem_append.mp hmem with hmem | hmem
  · exact hold hmem
  obtain ⟨rfl, hreply⟩ := Prod.mk.inj (List.mem_singleton.mp hmem)
  cases hleaves with
  | registered call_eq swept room =>
    obtain ⟨rfl, rfl, rfl⟩ := RegistryCall.register.inj call_eq
    obtain rfl := Except.ok.inj (RegistryReply.registered.inj hreply)
    exact ⟨rfl, rfl, rfl⟩
  | done | opened | invalidChannel | backpressure => exact absurd hreply (by simp)

/-! ## What a `next` that waits has found -/

section Alone

variable {s : Shared}

/-- There is nothing to hand over, and nothing to see of an end. -/
structure Quiet (s : Shared) (entry : SubscriptionEntry) : Prop where
  held : entry.channelId ∉ s.lost
  not_closed : (s.cells entry.subscriptionId).closed = false
  present : entry.subscriptionId ∉ s.dropped
  queue : (s.cells entry.subscriptionId).queue = []

/-- While the lease is held, looking at a subscription changes nothing. -/
theorem run_ended (h : entry.channelId ∉ s.lost) : (endedProgram entry).run Shared.exec s =
    (decodeEnd (s.cells entry.subscriptionId).state, s) := by
  simp [endedProgram, SharedProgram.upgrade, SharedProgram.load, Shared.exec, h]

theorem run_ended_of_lost (h : entry.channelId ∈ s.lost) :
    ((endedProgram entry).run Shared.exec s).1 ≠ none := by
  simp [endedProgram, SharedProgram.upgrade, SharedProgram.load, SharedProgram.invalidate,
    Shared.exec, Shared.setCell, h, decodeEnd_eq_none_iff, SubscriptionCell.state_invalidate_ne]

/-- A poll that has to wait has found nothing. -/
theorem quiet_of_select (h : ((selectProgram entry).run Shared.exec s).1 = .pending) :
    ((selectProgram entry).run Shared.exec s).2 = s ∧ Quiet s entry := by
  simp only [selectProgram, SharedProgram.changed, SharedProgram.recv, Program.perform_bind,
    Program.run_access] at h ⊢
  by_cases hlost : entry.channelId ∈ s.lost
  · have hchanged : Shared.exec (.changed entry.channelId) s = (true, s) :=
      Prod.ext (by simpa [Shared.exec] using hlost) rfl
    rw [hchanged, if_pos rfl] at h
    simp only [Program.run_bind] at h
    exact absurd h (by simp)
  have hchanged : Shared.exec (.changed entry.channelId) s = (false, s) :=
    Prod.ext (by simpa [Shared.exec] using hlost) rfl
  simp only [hchanged, Bool.false_eq_true, if_false, Program.run_access] at h ⊢
  cases hqueue : (s.cells entry.subscriptionId).queue with
  | nil =>
    have hrecv : Shared.exec (.recv entry.subscriptionId) s =
        (if (s.cells entry.subscriptionId).closed || s.dropped.contains entry.subscriptionId then
          .disconnected else .empty, s) := by
      simp only [Shared.exec, hqueue]
    split at hrecv
    · rw [hrecv] at h
      exact absurd h (by simp [Program.run_bind])
    · rename_i hopen
      rw [hrecv]
      rw [Bool.or_eq_true, not_or] at hopen
      exact ⟨rfl, hlost, by simpa using hopen.1, by simpa using hopen.2, hqueue⟩
  | cons u queue =>
    have hrecv : (Shared.exec (.recv entry.subscriptionId) s).1 = .update u := by
      simp only [Shared.exec, hqueue]
    rw [hrecv] at h
    simp only [Program.run_bind] at h
    split at h <;> exact absurd h (by simp)

/-- A `next` that has to wait has found an active subscription. -/
theorem quiet_of_next (h : ((nextProgram entry).run Shared.exec s).1 = .pending) :
    ((nextProgram entry).run Shared.exec s).2 = s ∧
      (s.cells entry.subscriptionId).state = active ∧ Quiet s entry := by
  rw [nextProgram, Program.run_bind] at h ⊢
  by_cases hlost : entry.channelId ∈ s.lost
  · obtain ⟨reason, hreason⟩ := Option.ne_none_iff_exists'.mp (run_ended_of_lost hlost)
    rw [hreason] at h
    exact absurd h (by simp)
  rw [run_ended hlost] at h ⊢
  cases hword : decodeEnd (s.cells entry.subscriptionId).state with
  | some reason =>
    rw [hword] at h
    exact absurd h (by simp)
  | none =>
    rw [hword] at h
    obtain ⟨hsame, hquiet⟩ := quiet_of_select h
    exact ⟨hsame, decodeEnd_eq_none_iff.mp hword, hquiet⟩

end Alone

/-- **What a call of `next` comes to**, or a poll of one that has waited, while no operation is in
progress: left alone, it returns the next update, or reports that the subscription has ended, or it
waits; and it waits only where everything that is due has been returned. -/
theorem exists_returned {broker : ℕ} (hrun : Transition.run step (new broker) actions = some system)
    (hgenuine : ∀ call ∈ system.called, call.Genuine) (hfree : system.holder = none)
    (hi : system.receivers[i]? = some receiver) (haction : action = .next i ∨ action = .poll i)
    (hstep : system.step action = some system') :
    ∃ n system'' receiver', Transition.run step system' (List.replicate n (.proceed i)) =
        some system'' ∧
      system''.receivers[i]? = some receiver' ∧
      ((∃ u, receiver'.returned = receiver.returned ++ [.notification u] ∧
          notified receiver.returned ++ [u] <+: due system.answered receiver.entry) ∨
        (∃ reason, receiver'.returned = receiver.returned ++ [.invalidated reason] ∧
          decodeEnd (system''.shared.cells receiver.entry.subscriptionId).state = some reason) ∨
        (receiver'.returned = receiver.returned ∧ receiver'.phase = .waiting ∧
          system''.isActive receiver' = true ∧
          notified receiver.returned = due system.answered receiver.entry)) := by
  obtain ⟨hw, l, hrecorded⟩ := exists_recorded hrun
  have hmem := List.mem_of_getElem? hi
  -- a poll that waits has found an active subscription and an empty queue
  obtain ⟨program, hsystem', hphase, hpending⟩ : ∃ program : SharedProgram UpdateSubscriptionPoll,
      system' = system.setReceiver i (advanceNext receiver program) ∧
      (receiver.phase = .idle ∨ receiver.phase = .waiting) ∧
      ((program.run Shared.exec system.shared).1 = .pending →
        (program.run Shared.exec system.shared).2 = system.shared ∧
        (system.shared.cells receiver.entry.subscriptionId).state = active ∧
        Quiet system.shared receiver.entry) := by
    rcases haction with rfl | rfl
    · obtain ⟨hidle, heq⟩ := step_next hi hstep
      exact ⟨_, heq, .inl hidle, quiet_of_next⟩
    · obtain ⟨hwaiting, heq⟩ := step_poll hi hstep
      refine ⟨_, heq, .inr hwaiting, fun hpending ↦ ?_⟩
      obtain ⟨hsame, hquiet⟩ := quiet_of_select hpending
      refine ⟨hsame, ?_, hquiet⟩
      by_contra hended
      have hword : l.word receiver.entry.subscriptionId ≠ active := by
        rwa [Ledger.word, hrecorded.booked.shared]
      obtain ⟨-, hseen⟩ := hrecorded.apparent hfree hgenuine hmem hword (by rw [hwaiting]; rfl)
      rw [hrecorded.booked.shared] at hseen
      rcases hseen with hclosed | hgone | hlost
      · exact absurd (hclosed.symm.trans hquiet.not_closed) (by simp)
      · exact hquiet.present hgone
      · exact hquiet.held hlost
  subst hsystem'
  have hlt := (List.getElem?_eq_some_iff.mp hi).1
  rcases hran : program.run Shared.exec system.shared with ⟨poll, s⟩
  rw [hran] at hpending
  have hreturned : ∃ n, Transition.run step (system.setReceiver i (advanceNext receiver program))
      (List.replicate n (.proceed i)) =
        some ({ system with shared := s }.setReceiver i (advanceNext receiver (.result poll))) := by
    obtain ⟨n, halone⟩ := exists_alone program
      (system.setReceiver i (advanceNext receiver program)) (List.getElem?_set_self hlt)
    refine ⟨n, halone.trans ?_⟩
    change some (({ system with shared := (program.run Shared.exec system.shared).2 }.setReceiver i
      _).setReceiver i (advanceNext receiver
        (.result (program.run Shared.exec system.shared).1))) = _
    rw [hran]
    simp only [setReceiver, List.set_set]
  obtain ⟨n, hreturned⟩ := hreturned
  have hi' : ({ system with shared := s }.setReceiver i
      (advanceNext receiver (.result poll))).receivers[i]? =
        some (advanceNext receiver (.result poll)) := List.getElem?_set_self hlt
  obtain ⟨-, l', hrecorded'⟩ := exists_recorded
    (Transition.run_trans (Transition.run_concat_eq_some_iff.mpr ⟨system, hrun, hstep⟩) hreturned)
  have hmem' := List.mem_of_getElem? hi'
  refine ⟨n, _, _, hreturned, hi', ?_⟩
  cases poll with
  | notification u =>
    have hnotified : notified (receiver.returned ++ [.notification u]) =
        notified receiver.returned ++ [u] := List.flatMap_append
    exact .inl ⟨u, rfl, hnotified ▸ hrecorded'.notified_prefix hfree hmem'⟩
  | invalidated reason =>
    refine .inr (.inl ⟨reason, rfl, ?_⟩)
    have hreason := (hrecorded'.booked.receivers _ hmem').reasons reason
      (List.mem_append_right _ (List.mem_singleton_self _))
    rwa [Ledger.word, hrecorded'.booked.shared] at hreason
  | pending =>
    obtain ⟨rfl, hactive, hquiet⟩ := hpending rfl
    have hdue := hrecorded.due_eq hw hfree hmem (isActive_iff.mpr fun h ↦ h hactive) hphase
    rw [hquiet.queue, List.append_nil] at hdue
    exact .inr (.inr ⟨rfl, rfl, isActive_iff.mpr fun h ↦ h hactive, hdue⟩)

/-- **What a call of `next` comes to when the subscription has ended**: left alone, it reports the
reason. -/
theorem exists_reason {broker : ℕ} (hrun : Transition.run step (new broker) actions = some system)
    (hgenuine : ∀ call ∈ system.called, call.Genuine) (hfree : system.holder = none)
    (hi : system.receivers[i]? = some receiver) (haction : action = .next i ∨ action = .poll i)
    (hstep : system.step action = some system') (hended : system.isActive receiver = false) :
    ∃ n system'' receiver' reason,
      Transition.run step system' (List.replicate n (.proceed i)) = some system'' ∧
      system''.receivers[i]? = some receiver' ∧
      receiver'.returned = receiver.returned ++ [.invalidated reason] ∧
      decodeEnd (system''.shared.cells receiver.entry.subscriptionId).state = some reason := by
  have hw := wellFormed_of_run hrun
  have hended : Ended receiver.entry system.shared :=
    fun hactive ↦ absurd (isActive_iff.mpr fun h ↦ h hactive) (by simp [hended])
  obtain ⟨n, system'', receiver', hrun', hi', houtcome⟩ :=
    exists_returned hrun hgenuine hfree hi haction hstep
  have hruns := Transition.run_cons_eq_some_iff.mpr ⟨system', hstep, hrun'⟩
  rcases houtcome with ⟨u, hreturned, -⟩ | ⟨reason, hreturned, hreason⟩ | ⟨-, -, hactive, -⟩
  · -- an ended subscription notifies of nothing
    obtain ⟨receiver'', hi'', polls, hpolls, hnone⟩ := hw.returned_run hi hended hruns
    obtain rfl := Option.some_inj.mp (hi'.symm.trans hi'')
    exact absurd (List.append_cancel_left (hreturned.symm.trans hpolls) ▸ List.mem_singleton_self _)
      (hnone u)
  · exact ⟨n, system'', receiver', reason, hrun', hi', hreturned, hreason⟩
  · obtain ⟨receiver'', hi'', hentry⟩ := receiver_run hw hi hruns
    obtain rfl := Option.some_inj.mp (hi'.symm.trans hi'')
    exact absurd (hentry ▸ (hw.follows_run hruns).ended_of_ended hended) (isActive_iff.mp hactive)

end RegistrySystem

/-! ## Nothing is lost -/

namespace SharedStore

variable {sha256 : List UInt8 → Bytes verifierLength} {t t' t₁ : SharedStore}
  {actions : List RegistryAction} {receiver receiver₁ : Receiver} {i : ℕ} {d : DocumentId}

theorem step_user {action : RegistryAction} (h : t.step sha256 (.user action) = some t') :
    ∃ registry, t.registry.step action = some registry ∧ t' = { t with registry } := by
  rw [step] at h
  split at h
  · obtain ⟨registry, hstep, rfl⟩ := Option.map_eq_some_iff.mp h
    exact ⟨registry, hstep, rfl⟩
  · exact absurd h (by simp)

/-- What the users of the subscriptions can do, they can do here. -/
theorem run_user (huser : ∀ action ∈ actions, action.byUser = true) {registry : RegistrySystem}
    (h : Transition.run RegistrySystem.step t.registry actions = some registry) :
    Transition.run (step sha256) t (actions.map .user) = some { t with registry } := by
  induction actions generalizing t with
  | nil => exact congrArg some (by rw [← Option.some_inj.mp h])
  | cons action actions ih =>
    obtain ⟨registry₁, hstep, hrun⟩ := Transition.run_cons_eq_some_iff.mp h
    refine Transition.run_cons_eq_some_iff.mpr ⟨{ t with registry := registry₁ }, ?_, ?_⟩
    · rw [step, if_pos (huser action (List.mem_cons_self ..)), hstep, Option.map_some]
    · exact ih (fun action hmem ↦ huser action (List.mem_cons_of_mem _ hmem)) hrun

/-- A subscription to a document has just been handed out. -/
structure Acknowledged (t : SharedStore) (i : ℕ) (receiver : Receiver) (d : DocumentId) : Prop where
  received : t.registry.receivers[i]? = some receiver
  free : t.registry.holder = none
  answered : ∃ channel c, t.registry.answered.getLast? =
    some (.register channel d c, .registered (.ok receiver.entry))

/-- **What has been inserted since the acknowledgement is what is due.** -/
theorem exists_due {earlier : List Request} {provision : CreateAuthorityProvision}
    {generation : StoreGeneration} {broker : ℕ} {before after : List SharedAction}
    (hrun₁ : Transition.run (step sha256) (opened sha256 earlier provision generation broker)
      before = some t₁) (hack : t₁.Acknowledged i receiver₁ d)
    (hrun : Transition.run (step sha256) t₁ after = some t) (hfree : t.registry.holder = none) :
    ∃ receiver actions, t.registry.receivers[i]? = some receiver ∧
      receiver.entry = receiver₁.entry ∧
      Transition.run RegistrySystem.step (.new broker) actions = some t.registry ∧
      (∀ call ∈ t.registry.called, call.Genuine) ∧
      t.store.tables.accepted d =
        t₁.store.tables.accepted d ++ due t.registry.answered receiver.entry := by
  obtain ⟨requests₁, actions₁, hcarries₁, hinOrder₁⟩ :=
    run_spec (inOrder_opened earlier provision generation broker) hrun₁
  obtain ⟨requests, actions, hcarries, -⟩ := run_spec hinOrder₁ hrun
  have hregistry₁ : Transition.run RegistrySystem.step (.new broker) actions₁ = some t₁.registry :=
    hcarries₁.registry
  have hregistry := Transition.run_trans hregistry₁ hcarries.registry
  obtain ⟨hw₁, l₁, hrecorded₁⟩ := RegistrySystem.exists_recorded hregistry₁
  obtain ⟨receiver, hi, hentry⟩ := RegistrySystem.receiver_run hw₁ hack.received hcarries.registry
  obtain ⟨channel, c, hlast⟩ := hack.answered
  have hanswered := List.mem_of_getLast? hlast
  obtain ⟨-, hdocument, -⟩ := RegistrySystem.registered_run hregistry₁ hanswered
  have hhanded : receiver₁.entry ∈ handedOut t₁.registry.answered :=
    List.mem_filterMap.mpr ⟨_, hanswered, rfl⟩
  have hdue := RegistrySystem.committed_run hw₁ hhanded hcarries.registry
  rw [hrecorded₁.committed_nil hw₁ hack.free hlast, RegistrySystem.committed_of_free hfree,
    List.nil_append] at hdue
  refine ⟨receiver, _, hi, hentry, hregistry, fun call hcall ↦ ?_, ?_⟩
  · rcases RegistrySystem.called_run (RegistrySystem.wellFormed_new broker) hregistry hcall with
      hold | hnew
    · exact absurd hold (by simp [RegistrySystem.called, RegistrySystem.new])
    · exact (List.mem_append.mp hnew).elim (hcarries₁.genuine call) (hcarries.genuine call)
  · rw [hentry, hdue, ← hdocument]
    exact hcarries.accepted receiver₁.entry

/-- Nothing that has been called ends the broker, and the reasons that are given are the store's. -/
theorem Reached.called (h : t.Reached sha256) :
    ∀ call ∈ t.registry.called, call.Genuine ∧ call ≠ .shutdown := by
  refine h.induction (I := fun t ↦ ∀ call ∈ t.registry.called, call.Genuine ∧ call ≠ .shutdown)
    (fun earlier provision generation broker call hcall ↦ ?_)
    fun t action t' ht hold hstep call hcall ↦ ?_
  · exact absurd hcall (by simp [opened, RegistrySystem.called, RegistrySystem.new])
  obtain ⟨requests, actions, hcarries, hheard, -⟩ := step_spec ht.inOrder hstep
  rcases hheard with rfl | ⟨action', rfl, hfrom⟩
  · exact hold call (Option.some_inj.mp hcarries.registry ▸ hcall)
  obtain ⟨registry, hregistry, hrun⟩ := Transition.run_cons_eq_some_iff.mp hcarries.registry
  obtain rfl := Option.some_inj.mp hrun
  rcases RegistrySystem.called_step ht.recorded.1 hregistry hcall with hcall | rfl
  · exact hold call hcall
  · refine ⟨hcarries.genuine call (List.mem_singleton_self _), fun heq ↦ ?_⟩
    rcases hfrom with ⟨-, huser⟩ | ⟨-, hshutdown, -⟩
    · exact absurd huser (by simp [RegistryAction.byUser])
    · exact hshutdown (congrArg _ heq)

/-- **What is committed to a subscription is the end of the log.** -/
theorem Reached.base (h : t.Reached sha256) : ∀ entry ∈ handedOut t.registry.answered,
    ∃ base, t.store.tables.accepted entry.documentId = base ++ t.registry.committed entry := by
  refine h.induction (I := fun t ↦ ∀ entry ∈ handedOut t.registry.answered,
      ∃ base, t.store.tables.accepted entry.documentId = base ++ t.registry.committed entry)
    (fun earlier provision generation broker entry hentry ↦ ?_)
    fun t action t' ht hold hstep entry hentry ↦ ?_
  · exact absurd hentry (by simp [opened, RegistrySystem.new, handedOut])
  have hw := ht.recorded.1
  obtain ⟨requests, actions, hcarries, hheard, -⟩ := step_spec ht.inOrder hstep
  by_cases hmem : entry ∈ handedOut t.registry.answered
  · obtain ⟨base, hbase⟩ := hold entry hmem
    exact ⟨base, by rw [hcarries.accepted, hbase, RegistrySystem.committed_run hw hmem
      hcarries.registry, List.append_assoc]⟩
  -- it has just been handed out
  rcases hheard with rfl | ⟨action', rfl, -⟩
  · exact absurd (Option.some_inj.mp hcarries.registry ▸ hentry) hmem
  obtain ⟨registry, hregistry, hrun⟩ := Transition.run_cons_eq_some_iff.mp hcarries.registry
  obtain rfl := Option.some_inj.mp hrun
  rcases ((RegistrySystem.stepped hw hregistry).onward hw).answered with ⟨hsame, -⟩ |
    ⟨call, reply, -, hfree, hanswered, ⟨hnone, -⟩ | ⟨channel, d, c, new, rfl, rfl, -⟩⟩
  · exact absurd (hsame ▸ hentry) hmem
  · rw [hanswered, handedOut_concat, hnone, Option.toList_none, List.append_nil] at hentry
    exact absurd hentry hmem
  · rw [hanswered, handedOut_concat] at hentry
    obtain rfl : entry = new := by
      simpa [RegistryReply.registered?] using (List.mem_append.mp hentry).resolve_left hmem
    obtain ⟨hw', l', hrecorded'⟩ := (ht.step hstep).recorded
    have hlast : t'.registry.answered.getLast? =
        some (.register channel d c, .registered (.ok entry)) := by
      rw [hanswered, List.getLast?_concat]
    exact ⟨_, (List.append_nil _).symm.trans
      (congrArg _ (hrecorded'.committed_nil hw' hfree hlast).symm)⟩

/-- What a call of `next` comes to, or a poll of one that waits. -/
theorem exists_called {broker : ℕ} {actions : List RegistryAction}
    (hregistry : Transition.run RegistrySystem.step (.new broker) actions = some t.registry)
    (hgenuine : ∀ call ∈ t.registry.called, call.Genuine) (hfree : t.registry.holder = none)
    (hi : t.registry.receivers[i]? = some receiver) {action : RegistryAction}
    (haction : action = .next i ∨ action = .poll i)
    (hstep : t.step sha256 (.user action) = some t') :
    (∃ n t'' receiver', Transition.run (step sha256) t'
        (List.replicate n (.user (.proceed i))) = some t'' ∧
      t''.registry.receivers[i]? = some receiver' ∧
      ((∃ u, receiver'.returned = receiver.returned ++ [.notification u] ∧
          notified receiver.returned ++ [u] <+: due t.registry.answered receiver.entry) ∨
        (∃ reason, receiver'.returned = receiver.returned ++ [.invalidated reason] ∧
          decodeEnd (t''.registry.shared.cells receiver.entry.subscriptionId).state =
            some reason) ∨
        (receiver'.returned = receiver.returned ∧ receiver'.phase = .waiting ∧
          t''.registry.isActive receiver' = true ∧
          notified receiver.returned = due t.registry.answered receiver.entry))) ∧
    (t.registry.isActive receiver = false → ∃ n t'' receiver' reason,
      Transition.run (step sha256) t' (List.replicate n (.user (.proceed i))) = some t'' ∧
      t''.registry.receivers[i]? = some receiver' ∧
      receiver'.returned = receiver.returned ++ [.invalidated reason] ∧
      decodeEnd (t''.registry.shared.cells receiver.entry.subscriptionId).state = some reason) := by
  obtain ⟨registry, hstep', rfl⟩ := step_user hstep
  have hproceed {n : ℕ} {registry' : RegistrySystem}
        (hrun : Transition.run RegistrySystem.step registry (List.replicate n (.proceed i)) =
          some registry') :
      Transition.run (step sha256) { t with registry } (List.replicate n (.user (.proceed i))) =
        some { t with registry := registry' } := by
    rw [← List.map_replicate]
    exact run_user (t := { t with registry }) (fun action hmem ↦ by
      rw [List.eq_of_mem_replicate hmem]
      rfl) hrun
  constructor
  · obtain ⟨n, registry', receiver', hrun', hi', houtcome⟩ :=
      RegistrySystem.exists_returned hregistry hgenuine hfree hi haction hstep'
    exact ⟨n, { t with registry := registry' }, receiver', hproceed hrun', hi', houtcome⟩
  · intro hended
    obtain ⟨n, registry', receiver', reason, hrun', hi', hreturned, hreason⟩ :=
      RegistrySystem.exists_reason hregistry hgenuine hfree hi haction hstep' hended
    exact ⟨n, { t with registry := registry' }, receiver', reason, hproceed hrun', hi', hreturned,
      hreason⟩

/-- **No update is lost, repeated or reordered between the log and a subscription.**  Take any
moment at which a subscription has just been handed out, and any steps after it of the store and of
everybody who uses its subscriptions and channels.  Whenever no operation of the registry is in
progress, what has been inserted since, each update once, begins with what `next` has returned, and
while the subscription is active the rest waits in its queue.  A call of `next`, or a poll of one
that waits, then comes to the next of these updates, or to the reason for which the subscription has
ended; or it waits, with nothing left to return. -/
theorem no_lost_update {earlier : List Request} {provision : CreateAuthorityProvision}
    {generation : StoreGeneration} {broker : ℕ} {before after : List SharedAction}
    (hrun₁ : Transition.run (step sha256) (opened sha256 earlier provision generation broker)
      before = some t₁) (hack : t₁.Acknowledged i receiver₁ d)
    (hrun : Transition.run (step sha256) t₁ after = some t) (hfree : t.registry.holder = none) :
    ∃ receiver new, t.registry.receivers[i]? = some receiver ∧
      receiver.entry = receiver₁.entry ∧
      t.store.tables.accepted d = t₁.store.tables.accepted d ++ new ∧
      (t.store.tables.accepted d).Nodup ∧
      notified receiver.returned <+: new ∧
      (t.registry.isActive receiver = true → receiver.phase = .idle ∨ receiver.phase = .waiting →
        notified receiver.returned ++
          (t.registry.shared.cells receiver.entry.subscriptionId).queue = new) ∧
      ∀ action t', action = .next i ∨ action = .poll i → t.step sha256 (.user action) = some t' →
        ∃ n t'' receiver', Transition.run (step sha256) t'
            (List.replicate n (.user (.proceed i))) = some t'' ∧
          t''.registry.receivers[i]? = some receiver' ∧
          ((∃ u, receiver'.returned = receiver.returned ++ [.notification u] ∧
              notified receiver.returned ++ [u] <+: new) ∨
            (∃ reason, receiver'.returned = receiver.returned ++ [.invalidated reason] ∧
              decodeEnd (t''.registry.shared.cells receiver.entry.subscriptionId).state =
                some reason) ∨
            (receiver'.returned = receiver.returned ∧ receiver'.phase = .waiting ∧
              t''.registry.isActive receiver' = true ∧ notified receiver.returned = new)) := by
  obtain ⟨receiver, actions, hi, hentry, hregistry, hgenuine, haccepted⟩ :=
    exists_due hrun₁ hack hrun hfree
  obtain ⟨hw, l, hrecorded⟩ := RegistrySystem.exists_recorded hregistry
  have hmem := List.mem_of_getElem? hi
  refine ⟨receiver, due t.registry.answered receiver.entry, hi, hentry, haccepted,
    nodup_updateIds _ d, hrecorded.notified_prefix hfree hmem, hrecorded.due_eq hw hfree hmem,
    fun action t' haction hstep ↦ (exists_called hregistry hgenuine hfree hi haction hstep).1⟩

end SharedStore

/-- The subscription of the child. -/
def Sample.entry : SubscriptionEntry := ⟨Sample.child, 1, Sample.document, 1⟩

/-- A store opened on an empty database. -/
def Sample.opened : SharedStore :=
    SharedStore.opened Sample.sha256 [] Sample.provision (Sample.bytes _ 9) 1

/-- The child opens a channel and subscribes. -/
def Sample.listening : List SharedAction :=
  [.request (.create Sample.create), .request (.grant Sample.grant), .request .openChannel,
    .request (.subscribe ⟨Sample.channel, Sample.document, Sample.child, Sample.secret 3⟩)]

/-- Its update is inserted and queued. -/
def Sample.announcing : List SharedAction := [.request (.accept Sample.accept), .work, .work, .work]

open SharedStore in
theorem Sample.acknowledged : ∃ t receiver,
    Transition.run (step Sample.sha256) Sample.opened Sample.listening = some t ∧
      t.Acknowledged 0 receiver Sample.document ∧ receiver.entry = Sample.entry ∧
      t.store.tables.accepted Sample.document = [] := by
  have hview : (Transition.run (step Sample.sha256) Sample.opened Sample.listening).any (fun t ↦
      t.registry.holder.isNone && t.registry.receivers[0]?.map Receiver.entry = some Sample.entry &&
      t.registry.answered.getLast? = some (.register Sample.channel Sample.document Sample.child,
        .registered (.ok Sample.entry)) &&
      t.store.tables.accepted Sample.document = []) = true := by decide +kernel
  obtain ⟨t, hrun, hview⟩ := (Option.any_eq_true _ _).mp hview
  simp only [Bool.and_eq_true, Option.isNone_iff_eq_none, decide_eq_true_eq] at hview
  obtain ⟨⟨⟨hfree, hreceiver⟩, hanswered⟩, haccepted⟩ := hview
  obtain ⟨receiver, hi, hentry⟩ := Option.map_eq_some_iff.mp hreceiver
  exact ⟨t, receiver, hrun, ⟨hi, hfree, _, _, hentry ▸ hanswered⟩, hentry, haccepted⟩

open SharedStore in
/-- The update is in the queue, and the child is about to be notified of it. -/
theorem SharedStore.no_lost_update_sample : ∃ t receiver,
    Transition.run (step Sample.sha256) Sample.opened (Sample.listening ++ Sample.announcing) =
        some t ∧
      t.registry.receivers[0]? = some receiver ∧
      notified receiver.returned ++
        (t.registry.shared.cells receiver.entry.subscriptionId).queue =
        [Sample.update.updateId] := by
  obtain ⟨t₁, receiver₁, hrun₁, hack, hentry₁, haccepted₁⟩ := Sample.acknowledged
  have hview : (Transition.run (step Sample.sha256) Sample.opened
      (Sample.listening ++ Sample.announcing)).any (fun t ↦ t.registry.holder.isNone &&
        t.registry.receivers[0]?.any (fun receiver ↦ t.registry.isActive receiver &&
          receiver.phase.rests) &&
        t.store.tables.accepted Sample.document = [Sample.update.updateId]) = true := by
        decide +kernel
  obtain ⟨t, hrun, hview⟩ := (Option.any_eq_true _ _).mp hview
  simp only [Bool.and_eq_true, Option.isNone_iff_eq_none, decide_eq_true_eq] at hview
  obtain ⟨⟨hfree, hreceiver⟩, haccepted⟩ := hview
  obtain ⟨receiver, hi, hreceiver⟩ := (Option.any_eq_true _ _).mp hreceiver
  rw [Bool.and_eq_true] at hreceiver
  have hrun₂ := hrun
  rw [Transition.run_append, hrun₁, Option.bind_some] at hrun₂
  obtain ⟨receiver', new, hi', -, hnew, -, -, hqueue, -⟩ := no_lost_update hrun₁ hack hrun₂ hfree
  obtain rfl := Option.some_inj.mp (hi.symm.trans hi')
  rw [haccepted, haccepted₁, List.nil_append] at hnew
  exact ⟨t, receiver, hrun, hi, hnew ▸ hqueue hreceiver.1 (ReceiverPhase.rests_iff.mp hreceiver.2)⟩

/-! ## Reading from the beginning -/

section Reading

variable {sha256 : List UInt8 → Bytes verifierLength} {t : Tables} {d : DocumentId}
  {terminal : AcceptanceSequence}

/-- Where windows meet, each ends after the one before. -/
theorem terminal_le_upper {windows : List ReadWindow} {w : ReadWindow}
    (hlt : w.lower.get < w.upper.get) (hwindows : ∀ w ∈ windows, w.lower.get < w.upper.get)
    (hchain : (w :: windows).IsChain fun w w' ↦ w.lower = w'.upper)
    (hfirst : ∃ x, (w :: windows).getLast? = some x ∧ x.lower = .origin ∧ x.upper = terminal) :
    terminal.get ≤ w.upper.get := by
  induction windows generalizing w with
  | nil =>
    obtain ⟨x, hx, -, rfl⟩ := hfirst
    obtain rfl : w = x := Option.some_inj.mp hx
    exact le_refl _
  | cons w' windows ih =>
    rw [List.isChain_cons_cons] at hchain
    rw [List.getLast?_cons_cons] at hfirst
    have hbefore := ih (hwindows w' (List.mem_cons_self ..))
      (fun w hmem ↦ hwindows w (List.mem_cons_of_mem _ hmem)) hchain.2 hfirst
    rw [← hchain.1] at hbefore
    exact hbefore.trans hlt.le

namespace DurableUpdateStore

variable (sha256) in
/-- What a client has read that has asked for a document from its beginning, and then for what comes
next up to a tail, when the store has served `requests` meanwhile. -/
inductive ReadThrough (s : DurableUpdateStore) (r : EnumerateRequest)
    (m : Moment enumerationContinuationLength) (requests : List Request) : List UpdateId → Prop
  /-- The document was empty, and there is nothing to go on with. -/
  | empty (page : StoredUpdatePage)
      (reply : (s.enumerateAuthorized sha256 r m).1 = .ok (.authorized ⟨page, none⟩)) :
      ReadThrough s r m requests []
  | pages (terminal : AcceptanceSequence) (page : StoredUpdatePage) (token : List UInt8)
      (high : highWaterSequenceIn s.tables r.documentId = some terminal)
      (reply : (s.enumerateAuthorized sha256 r m).1 = .ok (.authorized ⟨page, some token⟩))
      (leaves : (s.step sha256 (.enumerate r m)).LeavesAll sha256 r
        (.start m.now terminal page token) requests)
      (tail : ((s.step sha256 (.enumerate r m)).follow sha256 r (.start m.now terminal page token)
        requests).mode = .afterTail) :
      ReadThrough s r m requests (((s.step sha256 (.enumerate r m)).follow sha256 r
        (.start m.now terminal page token) requests).read.map UpdateMetadata.updateId)

variable {s : DurableUpdateStore} {r : EnumerateRequest} {m : Moment enumerationContinuationLength}
  {requests before : List Request} {ids : List UpdateId}

/-- A reply to an `Origin` request with nothing to go on with is about an empty document. -/
theorem log_of_reply_none (horigin : r.start = .origin) {page : StoredUpdatePage}
    (hreply : (s.enumerateAuthorized sha256 r m).1 = .ok (.authorized ⟨page, none⟩)) :
    s.tables.log r.documentId = [] := by
  have hexecute : (s.execute sha256 (.enumerate r m)).1 =
      .enumerated (s.enumerateAuthorized sha256 r m).1 := rfl
  rw [hreply] at hexecute
  rcases enumerate_step sha256 s r m with
    ⟨result, hresult, -, he⟩ | ⟨-, -, result, passes, he, heffect⟩
  · rw [execute_eq he] at hexecute
    exact absurd (Reply.enumerated.inj hexecute) (hresult _)
  rw [execute_eq he] at hexecute
  have heq := Reply.enumerated.inj hexecute
  cases heffect with
  | cleared _ hresult =>
    exact UpdatesWellFormed.highWaterSequenceIn_eq_none_iff.mp (hresult _ heq).1
  | refused hne => exact absurd horigin hne
  | started => exact absurd heq (by simp)
  | repeated hstart | atTail hstart | removed hstart | advanced hstart =>
    rw [horigin] at hstart
    exact absurd hstart (by simp [StoreEnumerateStart.token?])

/-- **A client that has read up to a tail has read the beginning of the log**, with all that was
there when it began. -/
theorem ReadThrough.eq_take (h : ReadThrough sha256 (initial.run sha256 before) r m requests ids)
    (horigin : r.start = .origin) :
    let s' := ((initial.run sha256 before).step sha256 (.enumerate r m)).run sha256 requests
    ∃ n, ((initial.run sha256 before).tables.accepted r.documentId).length ≤ n ∧
      n ≤ (s'.tables.accepted r.documentId).length ∧
      ids = (s'.tables.accepted r.documentId).take n := by
  intro s'
  have hw : WellFormed (initial.run sha256 before).tables :=
    wellFormed_runRequests wellFormed_initial before
  cases h with
  | empty page reply =>
    refine ⟨0, ?_, Nat.zero_le _, rfl⟩
    rw [Tables.accepted, log_of_reply_none horigin reply]
    rfl
  | pages terminal page token high reply leaves tail =>
    obtain ⟨terminal', hterminal, hstart⟩ := Following.start hw
      (passesWellFormed_run sha256 before) horigin reply
    obtain rfl := Option.some_inj.mp (high.symm.trans hterminal)
    have hfollowing := hstart.follow leaves
    have hexact := hfollowing.exact
    have hlength := (hw.log.highWaterSequenceIn_eq_some_iff.mp high).2
    have hfinished := fun w hmem ↦ (hexact.finished w hmem).1
    refine ⟨_, ?_, (List.length_map _).symm ▸ hexact.upper_le, ?_⟩
    · rw [Tables.accepted, List.length_map, ← hlength]
      exact terminal_le_upper hexact.lower_lt hfinished hexact.chain hexact.first
    · rw [(hexact.read_prefix hfollowing.tables.log).2 tail, hfollowing.tables.log.window_eq]
      change List.map _ (List.drop 0 _) = _
      rw [List.drop_zero, List.map_take, map_updateId_metadataLog hfollowing.tables.log]
      rfl

end DurableUpdateStore

end Reading

namespace SharedStore

variable {sha256 : List UInt8 → Bytes verifierLength} {t t₁ t₂ t₃ t₄ : SharedStore}
  {receiver receiver₁ : Receiver} {i : ℕ} {d : DocumentId}

/-- The registry hears nothing of an enumeration request. -/
theorem step_enumerate {r : EnumerateRequest} {m : Moment enumerationContinuationLength}
    (h : t.step sha256 (.request (.enumerate r m)) = some t₁) :
    t₁ = t.serve sha256 (.enumerate r m) := by
  rw [step] at h
  split at h
  · exact (Option.some_inj.mp h).symm
  · exact absurd h (by simp)

/-- What has been served tells what has become of the store. -/
theorem store_of_served (h : t.InOrder) {taken : List SharedAction}
    (hrun : Transition.run (step sha256) t taken = some t₁) {requests : List Request}
    (hserved : t₁.served = t.served ++ requests) : t₁.store = t.store.run sha256 requests := by
  obtain ⟨requests', actions, hcarries, -⟩ := run_spec h hrun
  rw [hcarries.store, List.append_cancel_left (hcarries.served.symm.trans hserved)]

/-- What a client has read that has begun after the acknowledgement is the beginning of the log,
with all that was there at the acknowledgement. -/
theorem exists_read {earlier : List Request} {provision : CreateAuthorityProvision}
    {generation : StoreGeneration} {broker : ℕ} {before since meanwhile after : List SharedAction}
    (hrun₁ : Transition.run (step sha256) (opened sha256 earlier provision generation broker)
      before = some t₁)
    (hrun₂ : Transition.run (step sha256) t₁ since = some t₂)
    {r : EnumerateRequest} {m : Moment enumerationContinuationLength} (horigin : r.start = .origin)
    (hstart : t₂.step sha256 (.request (.enumerate r m)) = some t₃)
    (hrun₃ : Transition.run (step sha256) t₃ meanwhile = some t₄) {requests : List Request}
    (hserved : t₄.served = t₃.served ++ requests) {ids : List UpdateId}
    (hread : t₂.store.ReadThrough sha256 r m requests ids)
    (hrun : Transition.run (step sha256) t₄ after = some t) :
    ∃ n, (t₁.store.tables.accepted r.documentId).length ≤ n ∧
      ids = (t.store.tables.accepted r.documentId).take n := by
  -- the store has grown from one of these moments to the next
  obtain ⟨requests₁, actions₁, hcarries₁, hinOrder₁⟩ :=
    run_spec (inOrder_opened earlier provision generation broker) hrun₁
  obtain ⟨requests₂, actions₂, hcarries₂, hinOrder₂⟩ := run_spec hinOrder₁ hrun₂
  obtain ⟨-, -, -, -, hinOrder₃⟩ := step_spec hinOrder₂ hstart
  obtain ⟨requests₄, actions₄, hcarries₄, hinOrder₄⟩ := run_spec hinOrder₃ hrun₃
  obtain ⟨requests₅, actions₅, hcarries₅, -⟩ := run_spec hinOrder₄ hrun
  have hstore₂ : t₂.store = DurableUpdateStore.initial.run sha256
      (earlier ++ [.reopen provision generation broker] ++ requests₁ ++ requests₂) := by
    rw [DurableUpdateStore.run_append, DurableUpdateStore.run_append, hcarries₂.store,
      hcarries₁.store]
    rfl
  have hstore₄ : t₄.store = (t₂.store.step sha256 (.enumerate r m)).run sha256 requests := by
    rw [store_of_served hinOrder₃ hrun₃ hserved, step_enumerate hstart]
    rfl
  have hgrows : (t₁.store.tables.accepted r.documentId).length ≤
      (t₂.store.tables.accepted r.documentId).length := by
    rw [hcarries₂.store, Tables.accepted, Tables.accepted, List.length_map, List.length_map]
    exact (DurableUpdateStore.log_run hinOrder₁.tables requests₂ r.documentId).length_le
  have hgrown : t₄.store.tables.accepted r.documentId <+: t.store.tables.accepted r.documentId := by
    rw [hcarries₅.store]
    exact (DurableUpdateStore.log_run hinOrder₄.tables requests₅ r.documentId).map _
  obtain ⟨n, hle, hlength, hids⟩ : ∃ n, (t₂.store.tables.accepted r.documentId).length ≤ n ∧
      n ≤ (t₄.store.tables.accepted r.documentId).length ∧
      ids = (t₄.store.tables.accepted r.documentId).take n := by
    rw [hstore₂] at hread
    rw [hstore₄, hstore₂]
    exact hread.eq_take horigin
  obtain ⟨added, hadded⟩ := hgrown
  exact ⟨n, hgrows.trans hle, by rw [hids, ← hadded, List.take_append_of_le_length hlength]⟩

/-- What is read up to some place and what is returned from an earlier one on is everything. -/
theorem mem_take_or_mem_drop {us : List UpdateId} {n₁ n : ℕ} (hle : n₁ ≤ n) {u : UpdateId}
    (hu : u ∈ us) : u ∈ us.take n ∨ u ∈ us.drop n₁ := by
  rw [← List.take_append_drop n₁ us, List.mem_append] at hu
  exact hu.imp (fun htake ↦ (List.take_prefix_take_left hle).subset htake) id

/-- **A client that subscribes first and then reads misses nothing.**  Take any moment at which a
subscription has just been handed out, any later `Origin` request, and the reading that follows it
up to a tail, among any other requests that leave its pass alone.  Then, whenever the subscription
is active, no operation of the registry is in progress and its queue is empty, what has been read is
the beginning of the log and what `next` has returned is the rest of it from the acknowledgement on:
the two meet or overlap, and every update that has been accepted is in one of them. -/
theorem handoff_complete {earlier : List Request} {provision : CreateAuthorityProvision}
    {generation : StoreGeneration} {broker : ℕ} {before since meanwhile after : List SharedAction}
    (hrun₁ : Transition.run (step sha256) (opened sha256 earlier provision generation broker)
      before = some t₁) (hack : t₁.Acknowledged i receiver₁ d)
    (hrun₂ : Transition.run (step sha256) t₁ since = some t₂)
    {r : EnumerateRequest} {m : Moment enumerationContinuationLength} (horigin : r.start = .origin)
    (hdocument : r.documentId = d) (hstart : t₂.step sha256 (.request (.enumerate r m)) = some t₃)
    (hrun₃ : Transition.run (step sha256) t₃ meanwhile = some t₄) {requests : List Request}
    (hserved : t₄.served = t₃.served ++ requests) {ids : List UpdateId}
    (hread : t₂.store.ReadThrough sha256 r m requests ids)
    (hrun : Transition.run (step sha256) t₄ after = some t) (hfree : t.registry.holder = none)
    (hi : t.registry.receivers[i]? = some receiver) (hactive : t.registry.isActive receiver = true)
    (hphase : receiver.phase = .idle ∨ receiver.phase = .waiting)
    (hdrained : (t.registry.shared.cells receiver.entry.subscriptionId).queue = []) :
    (∃ n, (t₁.store.tables.accepted d).length ≤ n ∧ ids = (t.store.tables.accepted d).take n) ∧
      notified receiver.returned =
        (t.store.tables.accepted d).drop (t₁.store.tables.accepted d).length ∧
      ∀ u ∈ t.store.tables.accepted d, u ∈ ids ∨ u ∈ notified receiver.returned := by
  subst hdocument
  obtain ⟨n, hle, hids⟩ := exists_read hrun₁ hrun₂ horigin hstart hrun₃ hserved hread hrun
  -- and what has been inserted since the acknowledgement has been returned
  have hsince := Transition.run_concat_eq_some_iff.mpr ⟨t₂, hrun₂, hstart⟩
  obtain ⟨receiver', actions, hi', hentry, hregistry, -, haccepted⟩ :=
    exists_due hrun₁ hack (Transition.run_trans (Transition.run_trans hsince hrun₃) hrun) hfree
  obtain rfl := Option.some_inj.mp (hi.symm.trans hi')
  obtain ⟨hw, l, hrecorded⟩ := RegistrySystem.exists_recorded hregistry
  have hdue := hrecorded.due_eq hw hfree (List.mem_of_getElem? hi) hactive hphase
  rw [hdrained, List.append_nil] at hdue
  have hnotified : notified receiver.returned = (t.store.tables.accepted r.documentId).drop
      (t₁.store.tables.accepted r.documentId).length := by
    rw [haccepted, List.drop_left', hdue]
    rfl
  refine ⟨⟨n, hle, hids⟩, hnotified, fun u hu ↦ ?_⟩
  rw [hids, hnotified]
  exact mem_take_or_mem_drop hle hu

/-- **Whoever has subscribed misses no update.**  Take any moment at which a subscription has just
been handed out, and any steps after it.  Whenever no operation of the registry is in progress,
`next` has returned the first of the updates that have been inserted since, each once and in their
order; while the subscription is active the others wait in its queue, and once it has ended a call
of `next` reports that.  And when a client has drained an active subscription, after it has read the
document from the beginning, then everything that has been accepted is in what it has read or been
notified of. -/
theorem subscriber_informed {earlier : List Request} {provision : CreateAuthorityProvision}
    {generation : StoreGeneration} {broker : ℕ} {before after : List SharedAction}
    (hrun₁ : Transition.run (step sha256) (opened sha256 earlier provision generation broker)
      before = some t₁) (hack : t₁.Acknowledged i receiver₁ d)
    (hrun : Transition.run (step sha256) t₁ after = some t) (hfree : t.registry.holder = none) :
    ∃ receiver new, t.registry.receivers[i]? = some receiver ∧ receiver.entry = receiver₁.entry ∧
      t.store.tables.accepted d = t₁.store.tables.accepted d ++ new ∧
      (t.store.tables.accepted d).Nodup ∧ notified receiver.returned <+: new ∧
      (t.registry.isActive receiver = true → receiver.phase = .idle ∨ receiver.phase = .waiting →
        notified receiver.returned ++
          (t.registry.shared.cells receiver.entry.subscriptionId).queue = new) ∧
      (∀ action t', action = .next i ∨ action = .poll i → t.step sha256 (.user action) = some t' →
        (∃ n t'' receiver', Transition.run (step sha256) t'
            (List.replicate n (.user (.proceed i))) = some t'' ∧
          t''.registry.receivers[i]? = some receiver' ∧
          ((∃ u, receiver'.returned = receiver.returned ++ [.notification u] ∧
              notified receiver.returned ++ [u] <+: new) ∨
            (∃ reason, receiver'.returned = receiver.returned ++ [.invalidated reason] ∧
              decodeEnd (t''.registry.shared.cells receiver.entry.subscriptionId).state =
                some reason) ∨
            (receiver'.returned = receiver.returned ∧ receiver'.phase = .waiting ∧
              t''.registry.isActive receiver' = true ∧ notified receiver.returned = new))) ∧
        (t.registry.isActive receiver = false → ∃ n t'' receiver' reason,
          Transition.run (step sha256) t' (List.replicate n (.user (.proceed i))) = some t'' ∧
          t''.registry.receivers[i]? = some receiver' ∧
          receiver'.returned = receiver.returned ++ [.invalidated reason] ∧
          decodeEnd (t''.registry.shared.cells receiver.entry.subscriptionId).state =
            some reason)) ∧
      (t.registry.isActive receiver = true → receiver.phase = .idle ∨ receiver.phase = .waiting →
        (t.registry.shared.cells receiver.entry.subscriptionId).queue = [] →
        ∀ since meanwhile rest t₂ t₃ t₄ r m requests ids,
          after = since ++ .request (.enumerate r m) :: (meanwhile ++ rest) →
          Transition.run (step sha256) t₁ since = some t₂ →
          t₂.step sha256 (.request (.enumerate r m)) = some t₃ →
          Transition.run (step sha256) t₃ meanwhile = some t₄ → t₄.served = t₃.served ++ requests →
          r.start = .origin → r.documentId = d → t₂.store.ReadThrough sha256 r m requests ids →
          ∀ u ∈ t.store.tables.accepted d, u ∈ ids ∨ u ∈ notified receiver.returned) := by
  obtain ⟨receiver, actions, hi, hentry, hregistry, hgenuine, haccepted⟩ :=
    exists_due hrun₁ hack hrun hfree
  obtain ⟨hw, l, hrecorded⟩ := RegistrySystem.exists_recorded hregistry
  have hmem := List.mem_of_getElem? hi
  have hdue := hrecorded.due_eq hw hfree hmem
  refine ⟨receiver, due t.registry.answered receiver.entry, hi, hentry, haccepted,
    nodup_updateIds _ d, hrecorded.notified_prefix hfree hmem, hdue,
    fun action t' haction hstep ↦ exists_called hregistry hgenuine hfree hi haction hstep,
    fun hactive hphase hdrained ↦ ?_⟩
  rintro since meanwhile rest t₂ t₃ t₄ r m requests ids rfl hrun₂ hstart hrun₃ hserved horigin
    rfl hread
  have hrest : Transition.run (step sha256) t₄ rest = some t := by
    rw [Transition.run_append, hrun₂, Option.bind_some] at hrun
    obtain ⟨t₃', hstart', hrun⟩ := Transition.run_cons_eq_some_iff.mp hrun
    obtain rfl := Option.some_inj.mp (hstart.symm.trans hstart')
    rwa [Transition.run_append, hrun₃, Option.bind_some] at hrun
  obtain ⟨n, hle, hids⟩ := exists_read hrun₁ hrun₂ horigin hstart hrun₃ hserved hread hrest
  -- what has been inserted since the acknowledgement has been returned
  have hnotified : notified receiver.returned = (t.store.tables.accepted r.documentId).drop
      (t₁.store.tables.accepted r.documentId).length := by
    have hall := hdue hactive hphase
    rw [hdrained, List.append_nil] at hall
    rw [haccepted, List.drop_left, hall]
  intro u hu
  rw [hids, hnotified]
  exact mem_take_or_mem_drop hle hu

end SharedStore

open SharedStore in
/-- The child reads its update, and then it is notified of it. -/
theorem Sample.exists_drained : ∃ t₁ t₂ t₃ t receiver₁ receiver terminal,
    Transition.run (step Sample.sha256) Sample.opened Sample.listening = some t₁ ∧
      t₁.Acknowledged 0 receiver₁ Sample.document ∧
      t₁.store.tables.accepted Sample.document = [] ∧
      Transition.run (step Sample.sha256) t₁ Sample.announcing = some t₂ ∧
      highWaterSequenceIn t₂.store.tables Sample.document = some terminal ∧
      (t₂.store.enumerateAuthorized Sample.sha256 (Sample.enumerating .origin) Sample.moment).1 =
        .ok (.authorized ⟨⟨false, 1, [Sample.update.metadata]⟩, some (Sample.bytes 32 1).toList⟩) ∧
      t₂.step Sample.sha256 (.request (.enumerate (Sample.enumerating .origin) Sample.moment)) =
        some t₃ ∧
      Transition.run (step Sample.sha256) t₃
        (.user (.next 0) :: List.replicate 6 (.user (.proceed 0))) = some t ∧
      t.registry.holder = none ∧ t.store.tables.accepted Sample.document =
        [Sample.update.updateId] ∧
      t.registry.receivers[0]? = some receiver ∧ t.registry.isActive receiver = true ∧
      (receiver.phase = .idle ∨ receiver.phase = .waiting) ∧
      (t.registry.shared.cells receiver.entry.subscriptionId).queue = [] := by
  obtain ⟨t₁, receiver₁, hrun₁, hack, -, haccepted₁⟩ := Sample.acknowledged
  have hview : (Transition.run (step Sample.sha256) Sample.opened
      (Sample.listening ++ Sample.announcing)).any (fun t₂ ↦
        (highWaterSequenceIn t₂.store.tables Sample.document).isSome &&
        (t₂.store.enumerateAuthorized Sample.sha256 (Sample.enumerating .origin) Sample.moment).1 =
          .ok (.authorized ⟨⟨false, 1, [Sample.update.metadata]⟩,
            some (Sample.bytes 32 1).toList⟩) &&
        (t₂.step Sample.sha256
          (.request (.enumerate (Sample.enumerating .origin) Sample.moment))).any
          fun t₃ ↦ (Transition.run (step Sample.sha256) t₃
            (.user (.next 0) :: List.replicate 6 (.user (.proceed 0)))).any fun t ↦
              t.registry.holder.isNone &&
              t.store.tables.accepted Sample.document = [Sample.update.updateId] &&
              t.registry.receivers[0]?.any fun receiver ↦
                t.registry.isActive receiver && receiver.phase.rests &&
                (t.registry.shared.cells receiver.entry.subscriptionId).queue = []) = true := by
    decide +kernel
  obtain ⟨t₂, hrun₂, hview⟩ := (Option.any_eq_true _ _).mp hview
  simp only [Bool.and_eq_true, Option.isNone_iff_eq_none, decide_eq_true_eq, Option.any_eq_true,
    Option.isSome_iff_exists] at hview
  obtain ⟨⟨⟨terminal, hterminal⟩, hreply⟩, t₃, hstart, t, hrun, ⟨hfree, haccepted⟩, receiver, hi,
    ⟨hactive, hrests⟩, hdrained⟩ := hview
  rw [Transition.run_append, hrun₁, Option.bind_some] at hrun₂
  exact ⟨t₁, t₂, t₃, t, receiver₁, receiver, terminal, hrun₁, hack, haccepted₁, hrun₂, hterminal,
    hreply, hstart, hrun, hfree, haccepted, hi, hactive, ReceiverPhase.rests_iff.mp hrests,
    hdrained⟩

open SharedStore in
/-- The child reads the update, and is notified of it as well. -/
theorem SharedStore.handoff_complete_sample : ∃ t receiver,
    Transition.run (step Sample.sha256) Sample.opened (Sample.listening ++ (Sample.announcing ++
      .request (.enumerate (Sample.enumerating .origin) Sample.moment) :: .user (.next 0) ::
        List.replicate 6 (.user (.proceed 0)))) = some t ∧
      t.registry.receivers[0]? = some receiver ∧
      notified receiver.returned = t.store.tables.accepted Sample.document := by
  obtain ⟨t₁, t₂, t₃, t, receiver₁, receiver, terminal, hrun₁, hack, haccepted₁, hrun₂, hterminal,
    hreply, hstart, hrun, hfree, -, hi, hactive, hphase, hdrained⟩ := Sample.exists_drained
  obtain ⟨-, hnotified, -⟩ := handoff_complete hrun₁ hack hrun₂ rfl rfl hstart
    (show Transition.run _ t₃ [] = some t₃ from rfl) (List.append_nil _).symm
    (.pages terminal _ _ hterminal hreply trivial rfl) hrun hfree hi hactive hphase hdrained
  rw [haccepted₁] at hnotified
  refine ⟨t, receiver, Transition.run_trans hrun₁ (Transition.run_trans hrun₂ ?_), hi, hnotified⟩
  exact Transition.run_cons_eq_some_iff.mpr ⟨t₃, hstart, hrun⟩

open SharedStore in
/-- The child reads the update before it has been notified of it, and is drained. -/
theorem SharedStore.subscriber_informed_sample : ∃ t receiver,
    Transition.run (step Sample.sha256) Sample.opened (Sample.listening ++ (Sample.announcing ++
      .request (.enumerate (Sample.enumerating .origin) Sample.moment) :: .user (.next 0) ::
        List.replicate 6 (.user (.proceed 0)))) = some t ∧
      t.registry.receivers[0]? = some receiver ∧
      t.store.tables.accepted Sample.document = [Sample.update.updateId] ∧
      notified receiver.returned = [Sample.update.updateId] ∧
      ∀ u ∈ t.store.tables.accepted Sample.document,
        u ∈ [Sample.update.updateId] ∨ u ∈ notified receiver.returned := by
  obtain ⟨t₁, t₂, t₃, t, receiver₁, receiver, terminal, hrun₁, hack, haccepted₁, hrun₂, hterminal,
    hreply, hstart, hrun, hfree, haccepted, hi, hactive, hphase, hdrained⟩ := Sample.exists_drained
  have hafter := Transition.run_trans hrun₂ (Transition.run_cons_eq_some_iff.mpr ⟨t₃, hstart, hrun⟩)
  obtain ⟨receiver', new, hi', -, hnew, -, -, hqueue, -, hread⟩ :=
    subscriber_informed hrun₁ hack hafter hfree
  obtain rfl := Option.some_inj.mp (hi.symm.trans hi')
  have hqueue := hqueue hactive hphase
  rw [haccepted₁, List.nil_append] at hnew
  rw [hdrained, List.append_nil] at hqueue
  exact ⟨t, receiver, Transition.run_trans hrun₁ hafter, hi, haccepted,
    hqueue.trans (hnew.symm.trans haccepted),
    hread hactive hphase hdrained _ [] _ t₂ t₃ t₃ _ _ [] _ rfl hrun₂ hstart rfl
      (List.append_nil _).symm rfl rfl (.pages terminal _ _ hterminal hreply trivial rfl)⟩

end Renee
