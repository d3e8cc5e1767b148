import Renee.Subscription.Custody
import Renee.Subscription.Reporting

/-!
# Left alone

Whoever has begun something with the registry or with a receiver can go on with it until it is done,
since no access waits for anybody else.

* `exists_completed` and `exists_free`: the operation that holds the mutex gives it up.
* `exists_closed`: `cancel` returns.  For `next` this is `exists_alone`.
* `Apart` is what these leave to the other subscriptions.
* `AnswersWell`: what a registration returns.
-/

set_option autoImplicit false

namespace Renee.RegistrySystem

open ByteString Interference SharedProgram
open UpdateSubscriptionRegistry (UpdateSubscriptionPoll)

variable {system system' : RegistrySystem} {action : RegistryAction} {actions : List RegistryAction}
  {receiver : Receiver} {i j : ℕ} {l : Ledger}

/-! ## What goes on -/

theorem advance_access {call : RegistryCall} {o : SharedAccess}
    {k : o.Answer → SharedProgram RegistryOutcome} :
    system.advance call (.access o k) = { system with holder := some ⟨call, .access o k⟩ } := rfl

theorem advanceNext_access {o : SharedAccess}
    {k : o.Answer → SharedProgram UpdateSubscriptionPoll} :
    advanceNext receiver (.access o k) = { receiver with phase := .running (.access o k) } := rfl

theorem advanceCancel_access {dropping : Bool} {o : SharedAccess}
    {k : o.Answer → SharedProgram Unit} : advanceCancel receiver dropping (.access o k) =
      { receiver with phase := .cancelling dropping (.access o k) } := rfl

/-- A `next` that has returned, or waits, does nothing. -/
theorem advanceNext_result_phase (poll : UpdateSubscriptionPoll) :
    (advanceNext receiver (.result poll)).phase = .idle ∨
      (advanceNext receiver (.result poll)).phase = .waiting := by
  cases poll with
  | pending => exact .inr rfl
  | notification u | invalidated reason => exact .inl rfl

/-! ## The mutex -/

/-- An operation that is left alone returns. -/
theorem exists_completed (call : RegistryCall) (program : SharedProgram RegistryOutcome) :
    ∀ system : RegistrySystem, ∃ n system',
      Transition.run step (system.advance call program) (List.replicate n .work) = some system' ∧
        system'.holder = none := by
  induction program with
  | result outcome => exact fun system ↦ ⟨0, _, rfl, rfl⟩
  | access o k ih =>
    intro system
    obtain ⟨n, system', hrun, hfree⟩ := ih (system.shared.exec o).1
      { system.advance call (.access o k) with shared := (system.shared.exec o).2 }
    exact ⟨n + 1, system', Transition.run_cons_eq_some_iff.mpr ⟨_, rfl, hrun⟩, hfree⟩

/-- **The mutex becomes free.** -/
theorem exists_free (hw : system.WellFormed) : ∃ n system',
    Transition.run step system (List.replicate n .work) = some system' ∧ system'.holder = none := by
  cases hholder : system.holder with
  | none => exact ⟨0, system, rfl, hholder⟩
  | some holder =>
    obtain ⟨s₀, hholds⟩ := hw.holder holder hholder
    obtain ⟨o, k, hprogram⟩ := hholds.pending
    have hsame : system = system.advance holder.call (.access o k) := by
      rw [advance_access, ← hprogram]
      exact congrArg (fun holder ↦ { system with holder }) hholder
    rw [hsame]
    exact exists_completed holder.call _ system

/-! ## A receiver -/

/-- A `cancel` that is left alone returns. -/
theorem exists_closed (dropping : Bool) (program : SharedProgram Unit) :
    ∀ system : RegistrySystem,
      system.receivers[i]? = some (advanceCancel receiver dropping program) →
      ∃ n, Transition.run step system (List.replicate n (.proceed i)) =
        some ({ system with shared := (program.run Shared.exec system.shared).2 }.setReceiver i
          (advanceCancel receiver dropping (.result ()))) := by
  induction program with
  | result a =>
    refine fun system hi ↦ ⟨0, congrArg some ?_⟩
    obtain ⟨hlt, hreceiver⟩ := List.getElem?_eq_some_iff.mp hi
    rw [Program.run_result, setReceiver, ← hreceiver, List.set_getElem_self]
  | access o k ih =>
    intro system hi
    have hphase (program : SharedProgram Unit) :
        advanceCancel (advanceCancel receiver dropping (.access o k)) dropping program =
          advanceCancel receiver dropping program := by
      cases program <;> rfl
    have hstep : system.step (.proceed i) = some
        ({ system with shared := (system.shared.exec o).2 }.setReceiver i
          (advanceCancel receiver dropping (k (system.shared.exec o).1))) := by
      rw [step, proceed, hi, ← hphase]
      rfl
    have hi' : ({ system with shared := (system.shared.exec o).2 }.setReceiver i
        (advanceCancel receiver dropping (k (system.shared.exec o).1))).receivers[i]? =
          some (advanceCancel receiver dropping (k (system.shared.exec o).1)) :=
      List.getElem?_set_self (List.getElem?_eq_some_iff.mp hi).1
    obtain ⟨n, hrun⟩ := ih _ _ hi'
    refine ⟨n + 1, Transition.run_cons_eq_some_iff.mpr ⟨_, hstep, hrun.trans (congrArg some ?_)⟩⟩
    simp only [setReceiver, List.set_set, Program.run_access]

/-- `cancel` can be called when nothing is being done. -/
theorem step_cancel_of_idle (hi : system.receivers[i]? = some receiver)
    (hidle : receiver.phase = .idle)
    (dropping : Bool) : system.step (if dropping then .drop i else .cancel i) =
      some (system.setReceiver i
        (advanceCancel receiver dropping (cancelProgram receiver.entry))) := by
  cases dropping with
  | false | true =>
    change system.begin i _ = _
    rw [begin, hi, Option.bind_some, hidle]
    rfl

/-- What has been begun with a receiver comes to an end. -/
theorem exists_settled (hw : system.WellFormed) (hi : system.receivers[i]? = some receiver) :
    ∃ n system' receiver', Transition.run step system (List.replicate n (.proceed i)) =
        some system' ∧
      system'.receivers[i]? = some receiver' ∧
      (receiver'.phase = .idle ∨ receiver'.phase = .waiting ∨ receiver'.phase = .dropped) := by
  have hlt := (List.getElem?_eq_some_iff.mp hi).1
  have hproper := hw.receivers receiver (List.mem_of_getElem? hi)
  cases hphase : receiver.phase with
  | idle => exact ⟨0, system, receiver, rfl, hi, .inl hphase⟩
  | waiting => exact ⟨0, system, receiver, rfl, hi, .inr (.inl hphase)⟩
  | dropped => exact ⟨0, system, receiver, rfl, hi, .inr (.inr hphase)⟩
  | running program =>
    rw [hphase] at hproper
    obtain ⟨o, k, rfl⟩ := hproper.1
    have hsame : receiver = advanceNext receiver (.access o k) := by
      rw [advanceNext_access, ← hphase]
    obtain ⟨n, hrun⟩ := exists_alone (.access o k) system (hsame ▸ hi)
    exact ⟨n, _, _, hrun, List.getElem?_set_self hlt,
      (advanceNext_result_phase _).imp id .inl⟩
  | cancelling dropping program =>
    rw [hphase] at hproper
    obtain ⟨o, k, rfl⟩ := hproper.1
    have hsame : receiver = advanceCancel receiver dropping (.access o k) := by
      rw [advanceCancel_access, ← hphase]
    obtain ⟨n, hrun⟩ := exists_closed dropping (.access o k) system (hsame ▸ hi)
    refine ⟨n, _, _, hrun, List.getElem?_set_self hlt, ?_⟩
    cases dropping with
    | false => exact .inl rfl
    | true => exact .inr (.inr rfl)

/-! ## The others -/

/-- What is done with a receiver leaves the registry and the other subscriptions as they are. -/
structure Apart (system system' : RegistrySystem) (i : ℕ) : Prop where
  fields : system'.fields = system.fields
  holder : system'.holder = system.holder
  answered : system'.answered = system.answered
  others : ∀ j ≠ i, system'.receivers[j]? = system.receivers[j]?
  active : ∀ j ≠ i, ∀ receiver, system.receivers[j]? = some receiver →
    Ended receiver.entry system'.shared → Ended receiver.entry system.shared

theorem Apart.refl (system : RegistrySystem) (i : ℕ) : Apart system system i :=
  ⟨rfl, rfl, rfl, fun _ _ ↦ rfl, fun _ _ _ _ h ↦ h⟩

theorem Apart.trans {system₁ : RegistrySystem} (h : Apart system system₁ i)
    (h' : Apart system₁ system' i) : Apart system system' i where
  fields := h'.fields.trans h.fields
  holder := h'.holder.trans h.holder
  answered := h'.answered.trans h.answered
  others j hj := (h'.others j hj).trans (h.others j hj)
  active j hj receiver hi hended :=
    h.active j hj receiver hi (h'.active j hj receiver ((h.others j hj).trans hi) hended)

theorem apart_step (hw : system.WellFormed) (h : system.Recorded l)
    (habout : action.receiver? = some i)
    (hstep : system.step action = some system') : Apart system system' i := by
  obtain ⟨l', haccounted⟩ := exists_accounted hw h.booked.shared hstep
  cases haccounted with
  | took call called free held eq =>
    exact absurd habout (by simp [called, RegistryAction.receiver?])
  | worked call o k work holder eq => exact absurd habout (by simp [work, RegistryAction.receiver?])
  | lost channelId drop eq => exact absurd habout (by simp [drop, RegistryAction.receiver?])
  | served j other other' l' about received served eq =>
    obtain rfl := Option.some_inj.mp (about.symm.trans habout)
    obtain ⟨cancelling, hkeeps, -⟩ := served.recorded h.booked.sound
      (h.booked.receivers other (List.mem_of_getElem? received))
    subst eq
    refine ⟨rfl, rfl, rfl, fun k hk ↦ List.getElem?_set_ne (Ne.symm hk),
      fun k hk receiver hi hended ↦ ?_⟩
    by_contra hactive
    have hword : l.word receiver.entry.subscriptionId = active := by
      rw [Ledger.word, h.booked.shared]
      exact not_not.mp hactive
    obtain ⟨hid, -⟩ := hkeeps.word _ hword hended
    exact hw.subscriptionId_ne received hi hk hid

theorem apart_run (hw : system.WellFormed) (h : system.Recorded l)
    (habout : ∀ action ∈ actions, action.receiver? = some i)
    (hrun : Transition.run step system actions = some system') : Apart system system' i := by
  induction actions generalizing system l with
  | nil => exact Option.some_inj.mp hrun ▸ .refl system i
  | cons action actions ih =>
    obtain ⟨system₁, hstep, hrun⟩ := Transition.run_cons_eq_some_iff.mp hrun
    obtain ⟨l₁, haccounted⟩ := exists_accounted hw h.booked.shared hstep
    exact (apart_step hw h (habout action (List.mem_cons_self ..)) hstep).trans
      (ih ((stepped hw hstep).wellFormed hw) (haccounted.recorded hw h).2
        (fun action hmem ↦ habout action (List.mem_cons_of_mem _ hmem)) hrun)

/-! ## What a registration returns -/

/-- A registration hands out a subscription, unless there are too many or it is on a channel of
another broker. -/
def RegistersWell (broker : ℕ) : RegistryCall → RegistryReply → Prop
  | .register channel _ _, reply => broker ≠ channel.broker ∨
      reply = .registered (.error .backpressure) ∨ ∃ entry, reply = .registered (.ok entry)
  | _, _ => True

theorem yields_program (fields : RegistryFields) (call : RegistryCall) :
    (call.program fields).Yields fun outcome ↦ RegistersWell fields.broker call outcome.reply := by
  cases call with
  | register channel d c =>
    rw [RegistryCall.program, registerProgram]
    split
    · rename_i hforeign
      exact .inl (by simpa [RegistryFields.recognizes] using hforeign)
    · refine (Program.yields_of_forall (Q := fun _ ↦ True) (fun _ ↦ trivial) _).bind fun kept _ ↦ ?_
      refine (Program.yields_of_forall (Q := fun _ ↦ True) (fun _ ↦ trivial) _).bind
        fun count _ ↦ ?_
      dsimp only
      split
      · exact .inr (.inl rfl)
      · split
        · exact .inr (.inl rfl)
        · exact .inr (.inr ⟨_, rfl⟩)
  | openChannel | notify d u | invalidateSubscriptions ids reason | invalidateDocument d reason
  | closeChannel channel | shutdown => exact Program.yields_of_forall (fun _ ↦ trivial) _

/-- What registrations have returned, and what the one in progress can return. -/
structure AnswersWell (system : RegistrySystem) : Prop where
  answered : ∀ answer ∈ system.answered, RegistersWell system.fields.broker answer.1 answer.2
  holder : ∀ holder, system.holder = some holder →
    holder.program.Yields fun outcome ↦ RegistersWell system.fields.broker holder.call outcome.reply

theorem AnswersWell.advance
    (h : ∀ answer ∈ system.answered, RegistersWell system.fields.broker answer.1 answer.2)
    {call : RegistryCall} {program : SharedProgram RegistryOutcome}
    (hbroker : (system.advance call program).fields.broker = system.fields.broker)
    (hyields : program.Yields fun outcome ↦ RegistersWell system.fields.broker call outcome.reply) :
    (system.advance call program).AnswersWell := by
  cases program with
  | result outcome =>
    refine ⟨fun answer hmem ↦ ?_, fun holder heq ↦ absurd heq (by simp [RegistrySystem.advance])⟩
    rw [hbroker]
    rcases List.mem_append.mp hmem with hold | hnew
    · exact h answer hold
    · exact List.mem_singleton.mp hnew ▸ hyields
  | access o k =>
    refine ⟨h, fun holder heq ↦ ?_⟩
    obtain rfl := Option.some_inj.mp heq
    exact hyields

theorem AnswersWell.step (h : system.AnswersWell) (hw : system.WellFormed)
    (hstep : system.step action = some system') : system'.AnswersWell := by
  have hbroker := ((stepped hw hstep).onward hw).broker
  cases stepped hw hstep with
  | called call free held eq =>
    subst eq
    exact .advance h.answered hbroker (yields_program system.fields call)
  | worked call o k holder eq =>
    subst eq
    refine AnswersWell.advance ?_ hbroker (h.holder _ holder _)
    exact h.answered
  | lost channelId s follows eq => exact eq ▸ ⟨h.answered, h.holder⟩
  | served i receiver receiver' s not_call not_work received follows progress eq =>
    exact eq ▸ ⟨h.answered, h.holder⟩

theorem answersWell_run {broker : ℕ}
    (hrun : Transition.run step (new broker) actions = some system) : system.AnswersWell :=
  (Transition.invariant (I := fun system : RegistrySystem ↦ system.WellFormed ∧ system.AnswersWell)
    (fun _ _ _ h hstep ↦ ⟨(stepped h.1 hstep).wellFormed h.1, h.2.step h.1 hstep⟩)
    ⟨wellFormed_new broker, by simp [new], by simp [new]⟩ hrun).2

end Renee.RegistrySystem
