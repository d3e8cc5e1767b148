import Renee.Subscription.LedgerRun

/-!
# What has ended is reported

Once a subscription has ended, `next` returns the reason and does not wait, whatever everybody else
does: `Reporting` is kept by every step.  A `next` that waited already finds out when it is polled,
if the operation that has ended the subscription has returned (`Recorded.apparent`).
-/

set_option autoImplicit false

namespace Renee

open ByteString Interference
open UpdateSubscriptionRegistry (UpdateSubscriptionPoll)

/-- What is being done with a receiver is not going to wait. -/
def ReceiverPhase.Reporting (entry : SubscriptionEntry) (l : Ledger) : ReceiverPhase → Prop
  | .running program => Pending program ∧
    ReceiverMeets entry false (fun poll _ ↦ ∃ reason, poll = .invalidated reason) program l
  | .waiting => False
  | .idle | .cancelling _ _ | .dropped => True

/-- The subscription has ended, and what is being done with its receiver is not going to wait. -/
structure Receiver.Reporting (receiver : Receiver) (l : Ledger) : Prop where
  ended : l.word receiver.entry.subscriptionId ≠ active
  phase : receiver.phase.Reporting receiver.entry l

variable {l l' : Ledger} {receiver receiver' : Receiver}

theorem Receiver.Reporting.of_relies (h : receiver.Reporting l)
    (hl : ReceiverRelies receiver.entry l l') : receiver.Reporting l' := by
  obtain ⟨hended, hphase⟩ := h
  refine ⟨hl.1.ended hended, ?_⟩
  cases hp : receiver.phase with
  | running program =>
    rw [hp] at hphase
    exact ⟨hphase.1, ReceiverMeets.of_relies hphase.2 hphase.1 hl⟩
  | waiting =>
    rw [hp] at hphase
    exact hphase
  | idle | cancelling | dropped => trivial

/-- What has been returned since then are reports. -/
def OnlyReports (before after : List UpdateSubscriptionPoll) : Prop :=
  ∃ polls, after = before ++ polls ∧ ∀ poll ∈ polls, ∃ reason, poll = .invalidated reason

theorem OnlyReports.refl (returned : List UpdateSubscriptionPoll) : OnlyReports returned returned :=
  ⟨[], (List.append_nil _).symm, by simp⟩

theorem OnlyReports.trans {returned₀ returned₁ returned₂ : List UpdateSubscriptionPoll}
    (h : OnlyReports returned₀ returned₁) (h' : OnlyReports returned₁ returned₂) :
    OnlyReports returned₀ returned₂ := by
  obtain ⟨polls, rfl, hpolls⟩ := h
  obtain ⟨polls', rfl, hpolls'⟩ := h'
  exact ⟨polls ++ polls', List.append_assoc .., fun poll hpoll ↦
    (List.mem_append.mp hpoll).elim (hpolls poll) (hpolls' poll)⟩

theorem OnlyReports.eq_replicate {before after : List UpdateSubscriptionPoll}
    {reason : UpdateSubscriptionEnd} (h : OnlyReports before after)
    (hreason : ∀ reason', .invalidated reason' ∈ after → reason' = reason) :
    ∃ n, after = before ++ List.replicate n (.invalidated reason) := by
  obtain ⟨polls, rfl, hpolls⟩ := h
  refine ⟨polls.length, congrArg _ (List.eq_replicate_iff.mpr ⟨rfl, fun poll hpoll ↦ ?_⟩)⟩
  obtain ⟨reason', rfl⟩ := hpolls poll hpoll
  rw [hreason reason' (List.mem_append_right _ hpoll)]

namespace RegistrySystem

variable {system system' : RegistrySystem} {action : RegistryAction} {i : ℕ}

/-! ## Nothing waits -/

/-- `next` goes on, or reports. -/
theorem reporting_advanceNext {program : SharedProgram UpdateSubscriptionPoll}
    (hended : l.word receiver.entry.subscriptionId ≠ active)
    (h : ReceiverMeets receiver.entry false (fun poll _ ↦ ∃ reason, poll = .invalidated reason)
      program l) :
    (advanceNext receiver program).Reporting l ∧
      OnlyReports receiver.returned (advanceNext receiver program).returned := by
  cases program with
  | access o k => exact ⟨⟨hended, pending_access, h⟩, .refl _⟩
  | result poll =>
    obtain ⟨reason, rfl⟩ : ∃ reason, poll = .invalidated reason := h
    exact ⟨⟨hended, trivial⟩, [.invalidated reason], rfl, by simp⟩

theorem reporting_advanceCancel {dropping : Bool} {program : SharedProgram Unit}
    (hended : l.word receiver.entry.subscriptionId ≠ active) :
    (advanceCancel receiver dropping program).Reporting l ∧
      OnlyReports receiver.returned (advanceCancel receiver dropping program).returned := by
  cases program with
  | access o k => exact ⟨⟨hended, trivial⟩, .refl _⟩
  | result a => cases dropping <;> exact ⟨⟨hended, trivial⟩, .refl _⟩

/-- **What is done with the receiver of an ended subscription** does not make it wait. -/
theorem Served.reporting (hserved : Served l receiver receiver' l') (hkeeps : Keeps l l')
    (h : receiver.Reporting l) :
    receiver'.Reporting l' ∧ OnlyReports receiver.returned receiver'.returned := by
  obtain ⟨hended, hphase⟩ := h
  cases hserved with
  | next idle => exact reporting_advanceNext hended (invalidated_next hended)
  | poll waiting | forget waiting =>
    rw [waiting] at hphase
    exact hphase.elim
  | cancel idle dropping => exact reporting_advanceCancel hended
  | run o k running =>
    rw [running] at hphase
    exact reporting_advanceNext (hkeeps.ended hended)
      (Program.Meets.step (ReceiverRelies.refl _) hphase.2).2
  | close dropping o k cancelling => exact reporting_advanceCancel (hkeeps.ended hended)

/-- **From then on it only reports.** -/
theorem reporting_run (hw : system.WellFormed) (hrecorded : system.Recorded l)
    (hi : system.receivers[i]? = some receiver) (h : receiver.Reporting l)
    {actions : List RegistryAction} (hrun : Transition.run step system actions = some system') :
    ∃ receiver' l', system'.receivers[i]? = some receiver' ∧ receiver'.entry = receiver.entry ∧
      OnlyReports receiver.returned receiver'.returned ∧ receiver'.Reporting l' ∧
      system'.WellFormed ∧ system'.Recorded l' ∧ Keeps l l' := by
  refine Transition.invariant (I := fun t : RegistrySystem ↦ ∃ receiver' l',
    t.receivers[i]? = some receiver' ∧ receiver'.entry = receiver.entry ∧
      OnlyReports receiver.returned receiver'.returned ∧ receiver'.Reporting l' ∧
      t.WellFormed ∧ t.Recorded l' ∧ Keeps l l') ?_
    ⟨receiver, l, hi, rfl, .refl _, h, hw, hrecorded, .refl l⟩ hrun
  rintro t action t' ⟨receiver₁, l₁, hi₁, hentry, honly, h₁, htw, htr, hkeeps⟩ hstep
  obtain ⟨l₂, haccounted⟩ := exists_accounted htw htr.booked.shared hstep
  obtain ⟨hkeeps', htr'⟩ := haccounted.recorded htw htr
  have htw' := (stepped htw hstep).wellFormed htw
  obtain ⟨receiver₂, hi₂, ⟨rfl, hrelies⟩ | ⟨-, hserved⟩⟩ := haccounted.receiver_spec htw htr hi₁
  · exact ⟨receiver₂, l₂, hi₂, hentry, honly, h₁.of_relies hrelies, htw', htr',
      hkeeps.trans hkeeps'⟩
  · obtain ⟨h₂, honly'⟩ := hserved.reporting hkeeps' h₁
    exact ⟨receiver₂, l₂, hi₂, hserved.entry_eq.trans hentry, honly.trans honly', h₂, htw', htr',
      hkeeps.trans hkeeps'⟩

/-! ## `next` returns -/

/-- A `next` that is left alone makes its accesses until it returns or waits. -/
theorem exists_alone (program : SharedProgram UpdateSubscriptionPoll) :
    ∀ system : RegistrySystem, system.receivers[i]? = some (advanceNext receiver program) →
      ∃ n, Transition.run step system (List.replicate n (.proceed i)) =
        some ({ system with shared := (program.run Shared.exec system.shared).2 }.setReceiver i
          (advanceNext receiver (.result (program.run Shared.exec system.shared).1))) := by
  induction program with
  | result poll =>
    refine fun system hi ↦ ⟨0, congrArg some ?_⟩
    obtain ⟨hlt, hreceiver⟩ := List.getElem?_eq_some_iff.mp hi
    rw [Program.run_result, setReceiver, ← hreceiver, List.set_getElem_self]
  | access o k ih =>
    intro system hi
    have hphase (program : SharedProgram UpdateSubscriptionPoll) :
        advanceNext (advanceNext receiver (.access o k)) program =
          advanceNext receiver program := by
      rcases program with (_ | _ | _) | _ <;> rfl
    have hstep : system.step (.proceed i) = some
        ({ system with shared := (system.shared.exec o).2 }.setReceiver i
          (advanceNext receiver (k (system.shared.exec o).1))) := by
      rw [step, proceed, hi, ← hphase]
      rfl
    have hi' : ({ system with shared := (system.shared.exec o).2 }.setReceiver i
        (advanceNext receiver (k (system.shared.exec o).1))).receivers[i]? =
          some (advanceNext receiver (k (system.shared.exec o).1)) :=
      List.getElem?_set_self (List.getElem?_eq_some_iff.mp hi).1
    obtain ⟨n, hrun⟩ := ih _ _ hi'
    refine ⟨n + 1, Transition.run_cons_eq_some_iff.mpr ⟨_, hstep, hrun.trans (congrArg some ?_)⟩⟩
    simp only [setReceiver, List.set_set, Program.run_access]

/-- `next` is called. -/
theorem step_next (hi : system.receivers[i]? = some receiver)
    (hstep : system.step (.next i) = some system') : receiver.phase = .idle ∧
      system' = system.setReceiver i (advanceNext receiver (nextProgram receiver.entry)) := by
  rw [step, begin, hi, Option.bind_some, Option.map_eq_some_iff] at hstep
  obtain ⟨receiver', hstart, rfl⟩ := hstep
  split at hstart
  · exact Option.some_inj.mp hstart ▸ ⟨‹_›, rfl⟩
  · exact absurd hstart (by simp)

/-- A `next` that waits is polled. -/
theorem step_poll (hi : system.receivers[i]? = some receiver)
    (hstep : system.step (.poll i) = some system') : receiver.phase = .waiting ∧
      system' = system.setReceiver i (advanceNext receiver (selectProgram receiver.entry)) := by
  rw [step, begin, hi, Option.bind_some, Option.map_eq_some_iff] at hstep
  obtain ⟨receiver', hstart, rfl⟩ := hstep
  split at hstart
  · exact Option.some_inj.mp hstart ▸ ⟨‹_›, rfl⟩
  · exact absurd hstart (by simp)

/-- **What has ended is reported.**  When `next` is called for a subscription that has ended, or
polled where it has waited while the operation that has ended it has returned, then it reports the
reason in the state word: it gets there by itself, and whatever the others do meanwhile it returns
nothing else and does not wait. -/
theorem ended_reported {broker : ℕ} {actions : List RegistryAction}
    (hrun : Transition.run step (new broker) actions = some system)
    (hi : system.receivers[i]? = some receiver) (hended : system.isActive receiver = false)
    (haction : action = .next i ∨ action = .poll i ∧ system.holder = none ∧
      ∀ call ∈ system.called, call.Genuine)
    (hstep : system.step action = some system') :
    ∃ reason, decodeEnd (system.shared.cells receiver.entry.subscriptionId).state = some reason ∧
      (∃ n system₁ receiver₁,
        Transition.run step system' (List.replicate n (.proceed i)) = some system₁ ∧
        system₁.receivers[i]? = some receiver₁ ∧
        receiver₁.returned = receiver.returned ++ [.invalidated reason]) ∧
      ∀ actions' system₁, Transition.run step system' actions' = some system₁ →
        ∃ receiver₁ n, system₁.receivers[i]? = some receiver₁ ∧ receiver₁.phase ≠ .waiting ∧
          receiver₁.returned = receiver.returned ++ List.replicate n (.invalidated reason) := by
  obtain ⟨hw, l, hrecorded⟩ := exists_recorded hrun
  have hmem := List.mem_of_getElem? hi
  have hword : l.word receiver.entry.subscriptionId =
      (system.shared.cells receiver.entry.subscriptionId).state := by
    rw [Ledger.word, hrecorded.booked.shared]
  have hended' : l.word receiver.entry.subscriptionId ≠ active := by
    rw [hword]
    exact fun hactive ↦ absurd (isActive_iff.mpr fun h ↦ h hactive) (by simp [hended])
  obtain ⟨reason, hreason⟩ := Option.ne_none_iff_exists'.mp (mt decodeEnd_eq_none_iff.mp hended')
  -- what the step makes of the receiver is not going to wait
  obtain ⟨program, rfl, hserved, hmeets⟩ : ∃ program,
      system' = system.setReceiver i (advanceNext receiver program) ∧
      Served l receiver (advanceNext receiver program) l ∧
      ReceiverMeets receiver.entry false (fun poll _ ↦ ∃ reason, poll = .invalidated reason)
        program l := by
    rcases haction with rfl | ⟨rfl, hfree, hgenuine⟩
    · obtain ⟨hidle, heq⟩ := step_next hi hstep
      exact ⟨_, heq, .next hidle, invalidated_next hended'⟩
    · obtain ⟨hwaiting, heq⟩ := step_poll hi hstep
      exact ⟨_, heq, .poll hwaiting, invalidated_select hrecorded.booked.sound
        (hrecorded.apparent hfree hgenuine hmem hended' (by rw [hwaiting]; rfl))⟩
  obtain ⟨cancelling, hkeeps, hreceiver⟩ := hserved.recorded hrecorded.booked.sound
    (hrecorded.booked.receivers receiver hmem)
  have hrecorded' := hrecorded.served hw hi hkeeps hserved.entry_eq hreceiver
  rw [hrecorded.booked.shared] at hrecorded'
  have hw' := (stepped hw hstep).wellFormed hw
  have hi' : (system.setReceiver i (advanceNext receiver program)).receivers[i]? =
      some (advanceNext receiver program) :=
    List.getElem?_set_self (List.getElem?_eq_some_iff.mp hi).1
  obtain ⟨hreporting, honly⟩ := reporting_advanceNext hended' hmeets
  have hall : ∀ actions' system₁, Transition.run step
      (system.setReceiver i (advanceNext receiver program)) actions' = some system₁ →
      ∃ receiver₁ n, system₁.receivers[i]? = some receiver₁ ∧ receiver₁.phase ≠ .waiting ∧
        receiver₁.returned = receiver.returned ++ List.replicate n (.invalidated reason) := by
    intro actions' system₁ hrun₁
    obtain ⟨receiver₁, l₁, hi₁, hentry, honly₁, hreporting₁, -, hrecorded₁, hkeeps₁⟩ :=
      reporting_run hw' hrecorded' hi' hreporting hrun₁
    obtain ⟨n, hn⟩ := (honly.trans honly₁).eq_replicate fun reason' hmem' ↦ by
      have hreason' := (hrecorded₁.booked.receivers receiver₁ (List.mem_of_getElem? hi₁)).reasons
        reason' hmem'
      rw [hentry, hserved.entry_eq, decodeEnd_of_keeps hkeeps₁ hreason] at hreason'
      exact (Option.some_inj.mp hreason').symm
    refine ⟨receiver₁, n, hi₁, fun hwaiting ↦ ?_, hn⟩
    have hphase := hreporting₁.phase
    rw [hwaiting] at hphase
    exact hphase
  refine ⟨reason, hword ▸ hreason, ?_, hall⟩
  obtain ⟨n, hrun₁⟩ := exists_alone program _ hi'
  have hi₁ := List.getElem?_set_self (a := advanceNext receiver (.result (program.run Shared.exec
    (system.setReceiver i (advanceNext receiver program)).shared).1))
    (List.getElem?_eq_some_iff.mp hi').1
  generalize (program.run Shared.exec _).1 = poll at hrun₁ hi₁
  obtain ⟨receiver₁, m, hi₁', hphase, hreturned⟩ := hall _ _ hrun₁
  obtain rfl := Option.some_inj.mp (hi₁.symm.trans hi₁')
  refine ⟨n, _, _, hrun₁, hi₁, ?_⟩
  have hpoll : poll ≠ .pending := by
    rintro rfl
    exact hphase rfl
  have hone : (advanceNext receiver (.result poll)).returned = receiver.returned ++ [poll] := by
    cases poll with
    | pending => exact absurd rfl hpoll
    | notification u | invalidated reason => rfl
  have hmem' : poll ∈ List.replicate m (UpdateSubscriptionPoll.invalidated reason) := by
    rw [← List.append_cancel_left (hone.symm.trans hreturned)]
    exact List.mem_singleton_self poll
  rw [hone, List.eq_of_mem_replicate hmem']

/-- The next subscriber call after a cancellation says so. -/
theorem ended_reported_sample :
    ∃ (u : UpdateId) (system system' : RegistrySystem) (receiver : Receiver),
      Transition.run step (new 0) (queuedThenCancelled u) = some system ∧
      system.receivers[0]? = some receiver ∧ system.step (.next 0) = some system' ∧
      ∃ n system₁ receiver₁,
        Transition.run step system' (List.replicate n (.proceed 0)) = some system₁ ∧
        system₁.receivers[0]? = some receiver₁ ∧
        receiver₁.returned = receiver.returned ++ [.invalidated .cancelled] := by
  have hrun : ∃ system receiver system',
      Transition.run step (new 0) (queuedThenCancelled ⟨Bytes.replicate _ 0⟩) = some system ∧
      system.receivers[0]? = some receiver ∧ system.isActive receiver = false ∧
      system.step (.next 0) = some system' ∧
      decodeEnd (system.shared.cells receiver.entry.subscriptionId).state = some .cancelled :=
    ⟨_, _, _, rfl, rfl, rfl, rfl, rfl⟩
  obtain ⟨system, receiver, system', hrun, hi, hended, hstep, hword⟩ := hrun
  obtain ⟨reason, hreason, hreturns, -⟩ := ended_reported hrun hi hended (.inl rfl) hstep
  obtain rfl := Option.some_inj.mp (hreason.symm.trans hword)
  exact ⟨_, system, system', receiver, hrun, hi, hstep, hreturns⟩

end RegistrySystem

/-! ## What is reported is true -/

/-- Every state word is `ACTIVE` or says why the subscription has ended. -/
def Shared.Worded (s : Shared) : Prop :=
  ∀ id, (s.cells id).state = active ∨ ∃ reason, (s.cells id).state = encodeEnd reason

theorem Shared.Worded.setCell {s : Shared} (h : s.Worded) {id : ℕ} {cell : SubscriptionCell}
    (hcell : cell.state = active ∨ ∃ reason, cell.state = encodeEnd reason) :
    (s.setCell id cell).Worded := by
  intro id'
  by_cases hid : id' = id
  · subst hid
    simpa [Shared.setCell] using hcell
  · simpa [Shared.setCell, hid] using h id'

/-- An access writes a state word as `invalidate` does, or not at all. -/
theorem Shared.Worded.exec {s : Shared} (h : s.Worded) (o : SharedAccess) :
    (s.exec o).2.Worded := by
  cases o with
  | load id | upgrade channelId | isClosed id | changed channelId => exact h
  | dropSender id | dropLease channelId => exact h
  | invalidate id reason =>
    refine h.setCell ?_
    rw [SubscriptionCell.invalidate]
    split
    · exact .inr ⟨reason, rfl⟩
    · exact h id
  | trySend id u =>
    simp only [Shared.exec]
    split_ifs
    · exact h
    · exact h
    · exact h.setCell (h id)
  | recv id =>
    simp only [Shared.exec]
    split
    · exact h.setCell (h id)
    · exact h
  | close id => exact h.setCell (h id)

namespace RegistrySystem

variable {system system' : RegistrySystem} {action : RegistryAction} {l l' : Ledger}
  {receiver : Receiver}

theorem Accounted.worded (hstep : Accounted system l action system' l')
    (hshared : l.shared = system.shared) (h : system.shared.Worded) : system'.shared.Worded := by
  cases hstep with
  | took call called free held eq =>
    subst eq
    cases call.program system.fields <;> exact h
  | worked call o k work holder eq =>
    subst eq
    have hexec := h.exec o
    cases k (system.shared.exec o).1 <;> exact hexec
  | lost channelId drop eq => exact eq ▸ h.exec _
  | served i receiver receiver' l' about received served eq =>
    subst eq
    change l'.shared.Worded
    rw [← hshared] at h
    cases served with
    | next | poll | forget | cancel => exact h
    | run o k running | close dropping o k cancelling => exact h.exec o

theorem worded_run {broker : ℕ} {actions : List RegistryAction}
    (hrun : Transition.run step (new broker) actions = some system) : system.shared.Worded := by
  refine (Transition.invariant (I := fun t : RegistrySystem ↦
    (t.WellFormed ∧ ∃ l, t.Recorded l) ∧ t.shared.Worded) ?_
    ⟨⟨wellFormed_new broker, _, recorded_new broker⟩, fun _ ↦ .inl rfl⟩ hrun).2
  rintro t action t' ⟨⟨hw, l, h⟩, hworded⟩ hstep
  obtain ⟨l', haccounted⟩ := exists_accounted hw h.booked.shared hstep
  exact ⟨⟨(stepped hw hstep).wellFormed hw, l', (haccounted.recorded hw h).2⟩,
    haccounted.worded h.booked.shared hworded⟩

/-- Whatever reason `next` has reported, it is the one in the state word, and somebody had it. -/
theorem reason_accounted {broker : ℕ} {actions : List RegistryAction}
    (hrun : Transition.run step (new broker) actions = some system)
    (hmem : receiver ∈ system.receivers) {reason : UpdateSubscriptionEnd}
    (hreason : .invalidated reason ∈ receiver.returned) :
    (system.shared.cells receiver.entry.subscriptionId).state = encodeEnd reason ∧
      ((∃ call ∈ system.called, call.ends receiver.entry = some reason) ∨
        reason = .cancelled ∧ (receiver.phase.cancels = true ∨
          (system.shared.cells receiver.entry.subscriptionId).closed = true) ∨
        reason = .channelLost ∧ receiver.entry.channelId ∈ system.shared.lost) := by
  obtain ⟨hw, l, h⟩ := exists_recorded hrun
  have hreceiver := h.booked.receivers receiver hmem
  have hdecode := hreceiver.reasons reason hreason
  have hword : l.word receiver.entry.subscriptionId = encodeEnd reason := by
    rcases worded_run hrun receiver.entry.subscriptionId with hactive | ⟨reason', hended⟩
    · rw [Ledger.word, h.booked.shared, hactive] at hdecode
      exact absurd hdecode (by simp)
    · rw [Ledger.word, h.booked.shared, hended, decodeEnd_encodeEnd] at hdecode
      rw [Ledger.word, h.booked.shared, hended, Option.some_inj.mp hdecode]
  have hcaused := hreceiver.caused reason hword
  rw [← h.booked.shared]
  refine ⟨hword, ?_⟩
  cases hcaused with
  | called call mem reason ends => exact .inl ⟨call, mem, ends⟩
  | cancelled by_user => exact .inr (.inl ⟨rfl, by_user.imp id And.right⟩)
  | lost lost => exact .inr (.inr ⟨rfl, lost⟩)

/-- **What `next` returns is accounted for.**  Whenever no operation of the registry is in progress,
a subscription has been notified of the first of the updates that the operations have queued for it
since it was handed out, each once and in their order, and while it is active the others wait in its
queue.  And whatever reason `next` has reported, it is the one in the state word, and somebody had
it: an operation that has been called, its users by cancelling it, or whoever has given up its
channel. -/
theorem notifications_accounted {broker : ℕ} {actions : List RegistryAction}
    (hrun : Transition.run step (new broker) actions = some system)
    (hmem : receiver ∈ system.receivers) :
    (system.holder = none → notified receiver.returned <+: due system.answered receiver.entry ∧
      (system.isActive receiver = true → receiver.phase = .idle ∨ receiver.phase = .waiting →
        notified receiver.returned ++ (system.shared.cells receiver.entry.subscriptionId).queue =
          due system.answered receiver.entry)) ∧
    ∀ reason, .invalidated reason ∈ receiver.returned →
      (system.shared.cells receiver.entry.subscriptionId).state = encodeEnd reason ∧
      ((∃ call ∈ system.called, call.ends receiver.entry = some reason) ∨
        reason = .cancelled ∧ (receiver.phase.cancels = true ∨
          (system.shared.cells receiver.entry.subscriptionId).closed = true) ∨
        reason = .channelLost ∧ receiver.entry.channelId ∈ system.shared.lost) := by
  obtain ⟨hw, l, h⟩ := exists_recorded hrun
  exact ⟨fun hfree ↦ ⟨h.notified_prefix hfree hmem, h.due_eq hw hfree hmem⟩,
    fun _ ↦ reason_accounted hrun hmem⟩

/-- A notification is queued for the first subscription, and its `next` returns. -/
def notifiedOnce (u : UpdateId) : List RegistryAction :=
  [.call .openChannel, .call (.register ⟨0, 1⟩ ⟨Bytes.replicate _ 0⟩ ⟨Bytes.replicate _ 0⟩),
    .call (.notify ⟨Bytes.replicate _ 0⟩ u), .work, .work, .work, .next 0] ++
    List.replicate 6 (.proceed 0)

/-- What has been queued is returned, and nothing is left. -/
theorem notifications_accounted_sample :
    ∃ (u : UpdateId) (system : RegistrySystem) (receiver : Receiver),
      Transition.run step (new 0) (notifiedOnce u) = some system ∧ receiver ∈ system.receivers ∧
      receiver.returned = [.notification u] ∧
      notified receiver.returned ++ (system.shared.cells receiver.entry.subscriptionId).queue =
        due system.answered receiver.entry := by
  have hrun : ∃ system receiver,
      Transition.run step (new 0) (notifiedOnce ⟨Bytes.replicate _ 0⟩) = some system ∧
      system.receivers = [receiver] ∧ system.isActive receiver = true ∧ system.holder = none ∧
      receiver.phase = .idle ∧ receiver.returned = [.notification ⟨Bytes.replicate _ 0⟩] :=
    ⟨_, _, rfl, rfl, rfl, rfl, rfl, rfl⟩
  obtain ⟨system, receiver, hrun, hreceivers, hactive, hfree, hidle, hreturned⟩ := hrun
  have hmem : receiver ∈ system.receivers := hreceivers ▸ List.mem_singleton_self receiver
  exact ⟨_, system, receiver, hrun, hmem, hreturned,
    ((notifications_accounted hrun hmem).1 hfree).2 hactive (.inl hidle)⟩

end RegistrySystem

end Renee
