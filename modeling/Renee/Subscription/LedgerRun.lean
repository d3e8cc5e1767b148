import Mathlib.Data.List.TakeWhile
import Renee.Subscription.Ledger

/-!
# The record of a run

In every state of every run of the registry among its users there is a ledger of what has been
queued and received so far: `RegistrySystem.Recorded` says what it tells of the state, and
`exists_recorded` that it is there.

* `due` is what the operations that have returned since a subscription was handed out queue for it,
  and `notified` is what its `next` has returned.  `Recorded` connects the two through the ledger.
* `Caused` says why a state word has been written, in terms of the operations of the registry that
  have been called and of what the users of the subscription have done.
* `due_eq`: an active subscription has been notified of what is due to it, but for what still waits
  in its queue.  `apparent_of_ended`: if it has ended, its users can see it.
-/

set_option autoImplicit false

namespace Renee

open ByteString Interference SharedProgram
open UpdateSubscriptionRegistry (UpdateSubscriptionPoll)

/-! ## What is recorded of a receiver -/

/-- The updates that polls have handed over. -/
def notified (returned : List UpdateSubscriptionPoll) : List UpdateId :=
  returned.flatMap UpdateSubscriptionPoll.updates

/-- A subscription has been cancelled. -/
def Closed (entry : SubscriptionEntry) (l : Ledger) : Prop :=
  l.word entry.subscriptionId ≠ active ∧ (l.shared.cells entry.subscriptionId).closed = true

/-- What is being done with a receiver is accounted for, where `before` is what has been
returned. -/
def ReceiverPhase.Recorded (entry : SubscriptionEntry) (before : List UpdateId) (l : Ledger) :
    ReceiverPhase → Prop
  | .running program => Pending program ∧ ReceiverMeets entry false (Reports entry before) program l
  | .cancelling _ program =>
    Pending program ∧ ReceiverMeets entry true (fun _ l' ↦ Closed entry l') program l
  | .idle | .waiting =>
    l.word entry.subscriptionId = active → l.received entry.subscriptionId = before
  | .dropped => Closed entry l

/-- Whether `cancel` is running. -/
def ReceiverPhase.cancels : ReceiverPhase → Bool
  | .cancelling _ _ => true
  | _ => false

/-- Why a state word has been written: one of `calls` gave the reason, or the users of the
subscription did, who may be about to cancel it. -/
inductive Caused (calls : List RegistryCall) (entry : SubscriptionEntry) (cancels : Bool)
    (l : Ledger) : UpdateSubscriptionEnd → Prop
  | called (call : RegistryCall) (mem : call ∈ calls) (reason : UpdateSubscriptionEnd)
      (ends : call.ends entry = some reason) : Caused calls entry cancels l reason
  | cancelled (by_user : cancels = true ∨ Closed entry l) : Caused calls entry cancels l .cancelled
  | lost (lost : entry.channelId ∈ l.shared.lost) : Caused calls entry cancels l .channelLost

/-- What is recorded of a receiver, when `calls` have been called. -/
structure Receiver.Recorded (calls : List RegistryCall) (receiver : Receiver) (l : Ledger) :
    Prop where
  phase : receiver.phase.Recorded receiver.entry (notified receiver.returned) l
  handed : notified receiver.returned <+: l.received receiver.entry.subscriptionId
  observed : .pending ∉ receiver.returned
  reasons : ∀ reason, .invalidated reason ∈ receiver.returned →
    decodeEnd (l.word receiver.entry.subscriptionId) = some reason
  caused : ∀ reason, l.word receiver.entry.subscriptionId = encodeEnd reason →
    Caused calls receiver.entry receiver.phase.cancels l reason

variable {l l' l₀ : Ledger} {entry : SubscriptionEntry} {before : List UpdateId}
  {calls calls' : List RegistryCall} {receiver receiver' : Receiver} {call : RegistryCall}
  {cancelling : Bool}

theorem encodeEnd_injective : Function.Injective encodeEnd := fun reason reason' h ↦ by
  have hdecode := congrArg decodeEnd h
  rw [decodeEnd_encodeEnd, decodeEnd_encodeEnd] at hdecode
  exact Option.some_inj.mp hdecode

theorem Closed.of_keeps (h : Closed entry l) (hl : Keeps l l') : Closed entry l' :=
  ⟨hl.ended h.1, hl.closed _ h.2⟩

theorem ReceiverMeets.of_relies {α : Type} {post : α → Ledger → Prop} {program : SharedProgram α}
    (h : ReceiverMeets entry cancelling post program l) (hpending : Pending program)
    (hl : ReceiverRelies entry l l') : ReceiverMeets entry cancelling post program l' := by
  obtain ⟨o, k, rfl⟩ := hpending
  exact Program.Meets.of_rely (fun h₁ h₂ ↦ h₁.trans h₂) h hl

theorem ReceiverPhase.Recorded.of_relies {phase : ReceiverPhase} (h : phase.Recorded entry before l)
    (hl : ReceiverRelies entry l l') : phase.Recorded entry before l' := by
  have hreceived (hold : l.word entry.subscriptionId = active →
      l.received entry.subscriptionId = before) (hactive : l'.word entry.subscriptionId = active) :
      l'.received entry.subscriptionId = before :=
    hl.2.trans (hold (hl.1.follows.active_of_active hactive))
  cases phase with
  | running program => exact ⟨h.1, ReceiverMeets.of_relies h.2 h.1 hl⟩
  | cancelling dropping program => exact ⟨h.1, ReceiverMeets.of_relies h.2 h.1 hl⟩
  | idle => exact hreceived h
  | waiting => exact hreceived h
  | dropped => exact h.of_keeps hl.1

theorem decodeEnd_of_keeps (hl : Keeps l l') {id : ℕ} {reason : UpdateSubscriptionEnd}
    (h : decodeEnd (l.word id) = some reason) : decodeEnd (l'.word id) = some reason := by
  have hended : l.word id ≠ active := fun hactive ↦ by simp [hactive] at h
  rw [← h]
  exact congrArg decodeEnd (hl.follows.ended id hended)

theorem Caused.of_keeps {reason : UpdateSubscriptionEnd}
    (h : Caused calls entry cancelling l reason)
    (hcalls : calls ⊆ calls') (hl : Keeps l l') : Caused calls' entry cancelling l' reason := by
  cases h with
  | called call mem reason ends => exact .called call (hcalls mem) reason ends
  | cancelled by_user => exact .cancelled (by_user.imp id fun h ↦ h.of_keeps hl)
  | lost lost => exact .lost (hl.follows.lost _ lost)

/-- A reason that is accounted for stays so; it is enough to account for those that are new. -/
theorem caused_of_keeps (hcalls : calls ⊆ calls') (hl : Keeps l l')
    (h : ∀ reason, l.word entry.subscriptionId = encodeEnd reason →
      Caused calls entry cancelling l reason)
    (hnew : l.word entry.subscriptionId = active →
      ∀ reason, l'.word entry.subscriptionId = encodeEnd reason →
        Caused calls' entry cancelling l' reason) (reason : UpdateSubscriptionEnd)
    (hreason : l'.word entry.subscriptionId = encodeEnd reason) :
    Caused calls' entry cancelling l' reason := by
  by_cases hactive : l.word entry.subscriptionId = active
  · exact hnew hactive reason hreason
  · have hsame : l'.word entry.subscriptionId = l.word entry.subscriptionId :=
      hl.follows.ended _ hactive
    exact (h reason (hsame.symm.trans hreason)).of_keeps hcalls hl

/-- What others do keeps the record of a receiver, if the reason that they give is accounted for. -/
theorem Receiver.Recorded.of_relies (h : receiver.Recorded calls l) (hcalls : calls ⊆ calls')
    (hl : ReceiverRelies receiver.entry l l')
    (hnew : l.word receiver.entry.subscriptionId = active →
      ∀ reason, l'.word receiver.entry.subscriptionId = encodeEnd reason →
        Caused calls' receiver.entry receiver.phase.cancels l' reason) :
    receiver.Recorded calls' l' where
  phase := h.phase.of_relies hl
  handed := hl.2 ▸ h.handed
  observed := h.observed
  reasons reason hmem := decodeEnd_of_keeps hl.1 (h.reasons reason hmem)
  caused := caused_of_keeps hcalls hl.1 h.caused hnew

/-- An access of a receiver accounts for the reason that it gives. -/
theorem ReceiverKeeps.caused (hl : ReceiverKeeps entry cancelling l l')
    (hactive : l.word entry.subscriptionId = active) (reason : UpdateSubscriptionEnd)
    (hreason : l'.word entry.subscriptionId = encodeEnd reason) :
    Caused calls entry cancelling l' reason := by
  have hended := ne_of_eq_of_ne hreason (encodeEnd_ne_active reason)
  rcases (hl.word _ hactive hended).2 with ⟨rfl, hcancelled⟩ | ⟨hlost, hword⟩
  · obtain rfl := encodeEnd_injective (hreason.symm.trans hcancelled)
    exact .cancelled (.inl rfl)
  · obtain rfl := encodeEnd_injective (hreason.symm.trans hword)
    exact .lost (hl.keeps.follows.lost _ hlost)

/-- `next` goes on, or returns what it reports. -/
theorem recorded_advanceNext {program : SharedProgram UpdateSubscriptionPoll}
    (h : ReceiverMeets receiver.entry false (Reports receiver.entry (notified receiver.returned))
      program l)
    (hhanded : notified receiver.returned <+: l.received receiver.entry.subscriptionId)
    (hobserved : .pending ∉ receiver.returned)
    (hreasons : ∀ reason, .invalidated reason ∈ receiver.returned →
      decodeEnd (l.word receiver.entry.subscriptionId) = some reason)
    (hcaused : ∀ reason, l.word receiver.entry.subscriptionId = encodeEnd reason →
      Caused calls receiver.entry false l reason) :
    (RegistrySystem.advanceNext receiver program).Recorded calls l := by
  have hreturns (poll : UpdateSubscriptionPoll) (hpoll : poll ≠ .pending)
      (hreports : Reports receiver.entry (notified receiver.returned) poll l) :
      Receiver.Recorded calls ⟨receiver.entry, .idle, receiver.returned ++ [poll]⟩ l := by
    have hnotified : notified (receiver.returned ++ [poll]) =
        notified receiver.returned ++ poll.updates := by simp [notified]
    refine ⟨fun hactive ↦ ?_, hnotified ▸ hreports.handed, ?_, fun reason hmem ↦ ?_, hcaused⟩
    · rw [hreports.received hactive]
      exact hnotified.symm
    · simpa [List.mem_append] using ⟨hobserved, hpoll.symm⟩
    · rcases List.mem_append.mp hmem with hold | hnew
      · exact hreasons reason hold
      · exact hreports.reason reason (List.mem_singleton.mp hnew).symm
  cases program with
  | access o k => exact ⟨⟨pending_access, h⟩, hhanded, hobserved, hreasons, hcaused⟩
  | result poll =>
    have hreports : Reports receiver.entry (notified receiver.returned) poll l := h
    cases poll with
    | pending =>
      exact ⟨fun hactive ↦ (hreports.received hactive).trans (List.append_nil _), hhanded,
        hobserved, hreasons, hcaused⟩
    | notification u => exact hreturns _ (by simp) hreports
    | invalidated reason => exact hreturns _ (by simp) hreports

/-- `cancel` goes on, or has closed the receiver. -/
theorem recorded_advanceCancel {dropping : Bool} {program : SharedProgram Unit}
    (h : ReceiverMeets receiver.entry true (fun _ l' ↦ Closed receiver.entry l') program l)
    (hhanded : notified receiver.returned <+: l.received receiver.entry.subscriptionId)
    (hobserved : .pending ∉ receiver.returned)
    (hreasons : ∀ reason, .invalidated reason ∈ receiver.returned →
      decodeEnd (l.word receiver.entry.subscriptionId) = some reason)
    (hcaused : ∀ reason, l.word receiver.entry.subscriptionId = encodeEnd reason →
      Caused calls receiver.entry true l reason) :
    (RegistrySystem.advanceCancel receiver dropping program).Recorded calls l := by
  cases program with
  | access o k => exact ⟨⟨pending_access, h⟩, hhanded, hobserved, hreasons, hcaused⟩
  | result a =>
    have hclosed : Closed receiver.entry l := h
    have hcaused' : ∀ reason, l.word receiver.entry.subscriptionId = encodeEnd reason →
        Caused calls receiver.entry false l reason := by
      intro reason hreason
      cases hcaused reason hreason with
      | called call mem reason ends => exact .called call mem reason ends
      | cancelled by_user => exact .cancelled (.inr hclosed)
      | lost lost => exact .lost lost
    cases dropping with
    | true => exact ⟨hclosed, hhanded, hobserved, hreasons, hcaused'⟩
    | false => exact ⟨fun hactive ↦ absurd hactive hclosed.1, hhanded, hobserved, hreasons,
      hcaused'⟩

/-- The reasons that the store gives: a revocation's subscriptions are revoked, and a retired
document's retired. -/
def RegistryCall.Genuine : RegistryCall → Prop
  | .invalidateSubscriptions _ reason => reason = .revoked
  | .invalidateDocument _ reason => reason = .retired
  | _ => True

theorem RegistryCall.Genuine.ends_ne (h : call.Genuine) :
    call.ends entry ≠ some .cancelled := by
  cases call with
  | openChannel | register _ _ _ | shutdown => simp [RegistryCall.ends]
  | notify d u =>
    rw [RegistryCall.ends]
    split <;> simp
  | invalidateSubscriptions subscriptionIds reason =>
    obtain rfl : reason = .revoked := h
    rw [RegistryCall.ends]
    split <;> simp
  | invalidateDocument d reason =>
    obtain rfl : reason = .retired := h
    rw [RegistryCall.ends]
    split <;> simp
  | closeChannel channel =>
    rw [RegistryCall.ends]
    split <;> simp

/-! ## What is due to a subscription -/

/-- The subscription that an operation has handed out. -/
def RegistryReply.registered? : RegistryReply → Option SubscriptionEntry
  | .registered (.ok entry) => some entry
  | _ => none

/-- What the operations that have returned since a subscription was handed out queue for it. -/
def due (answered : List (RegistryCall × RegistryReply)) (entry : SubscriptionEntry) :
    List UpdateId :=
  (answered.dropWhile fun answer ↦ answer.2.registered? ≠ some entry).flatMap fun answer ↦
    answer.1.queues entry

variable {answered : List (RegistryCall × RegistryReply)} {answer : RegistryCall × RegistryReply}

/-- The subscriptions that have been handed out, in order. -/
def handedOut (answered : List (RegistryCall × RegistryReply)) : List SubscriptionEntry :=
  answered.filterMap fun answer ↦ answer.2.registered?

theorem handedOut_concat :
    handedOut (answered ++ [answer]) = handedOut answered ++ answer.2.registered?.toList := by
  rw [handedOut, List.filterMap_append]
  cases h : answer.2.registered? <;> simp [handedOut, h]

theorem due_concat_of_mem (h : entry ∈ handedOut answered) :
    due (answered ++ [answer]) entry = due answered entry ++ answer.1.queues entry := by
  obtain ⟨old, hold, hentry⟩ := List.mem_filterMap.mp h
  have hne : answered.dropWhile (fun answer ↦ answer.2.registered? ≠ some entry) ≠ [] := by
    intro hnil
    exact absurd hentry (by simpa using List.dropWhile_eq_nil_iff.mp hnil old hold)
  rw [due, List.dropWhile_append, if_neg (by simpa using hne), List.flatMap_append, due,
    List.flatMap_singleton]

theorem due_concat_of_not_mem (h : entry ∉ handedOut answered)
    (hentry : answer.2.registered? = some entry) :
    due (answered ++ [answer]) entry = answer.1.queues entry := by
  have hnil : answered.dropWhile (fun answer ↦ answer.2.registered? ≠ some entry) = [] := by
    refine List.dropWhile_eq_nil_iff.mpr fun old hold ↦ decide_eq_true fun heq ↦ ?_
    exact h (List.mem_filterMap.mpr ⟨old, hold, heq⟩)
  rw [due, List.dropWhile_append, hnil, List.isEmpty_nil, if_pos rfl,
    List.dropWhile_cons_of_neg (by simp [hentry]), List.flatMap_singleton]

/-- What an operation leaves of the entries and of the numbers, and what it hands out. -/
theorem Leaves.handed {fields : RegistryFields} {s₀ s : Shared} {outcome : RegistryOutcome}
    (h : Leaves call fields s₀ s outcome) :
    (outcome.reply.registered? = none ∧ outcome.fields.nextSubscriptionId =
        fields.nextSubscriptionId ∧
      outcome.fields.subscriptions ⊆ fields.subscriptions) ∨
    ∃ entry kept, outcome.reply.registered? = some entry ∧
      entry.subscriptionId = fields.nextSubscriptionId ∧
      outcome.fields.nextSubscriptionId = fields.nextSubscriptionId + 1 ∧
      outcome.fields.subscriptions = kept ++ [entry] ∧ kept ⊆ fields.subscriptions ∧
      ∀ other, call.queues other = [] := by
  cases h with
  | done swept => exact .inl ⟨rfl, rfl, swept.sublist.subset⟩
  | opened channel le => exact .inl ⟨rfl, rfl, List.Subset.refl _⟩
  | invalidChannel => exact .inl ⟨rfl, rfl, List.Subset.refl _⟩
  | backpressure call_eq swept full => exact .inl ⟨rfl, rfl, swept.sublist.subset⟩
  | registered call_eq swept room =>
    exact .inr ⟨_, _, rfl, rfl, rfl, rfl, swept.sublist.subset, fun _ ↦ call_eq ▸ rfl⟩

/-- The receiver that an action is about. -/
def RegistryAction.receiver? : RegistryAction → Option ℕ
  | .next i | .poll i | .forget i | .cancel i | .drop i | .proceed i => some i
  | .call _ | .work | .dropChannel _ => none

/-! ## What is recorded of the system -/

namespace RegistrySystem

variable {system system' : RegistrySystem} {action : RegistryAction}

/-- The operations that have been called. -/
def called (system : RegistrySystem) : List RegistryCall :=
  system.answered.map Prod.fst ++ system.holder.toList.map RegistryHolder.call

/-- What the operations that have returned have left in a ledger: they have queued what is due to
the subscriptions whose sending halves they have kept, and a part of it for the others; and they
have not ended what they have kept. -/
structure Settled (system : RegistrySystem) (l : Ledger) : Prop where
  queued : ∀ receiver ∈ system.receivers, receiver.entry ∈ system.fields.subscriptions →
    l.queued receiver.entry.subscriptionId = due system.answered receiver.entry
  left : ∀ receiver ∈ system.receivers,
    l.queued receiver.entry.subscriptionId <+: due system.answered receiver.entry
  fresh : ∀ id, system.fields.nextSubscriptionId ≤ id → l.queued id = []
  untouched : ∀ entry ∈ system.fields.subscriptions, Untouched entry l

/-- What the ledger tells of the receivers, when `calls` have been called. -/
structure Booked (system : RegistrySystem) (calls : List RegistryCall) (l : Ledger) : Prop where
  shared : l.shared = system.shared
  sound : l.Sound
  /-- Nothing has been done to a subscription that has not been handed out. -/
  fresh : ∀ id, system.fields.nextSubscriptionId ≤ id → l.word id = active ∧ l.received id = []
  receivers : ∀ receiver ∈ system.receivers, receiver.Recorded calls l
  /-- A sending half is there, or it has been dropped. -/
  entries : ∀ receiver ∈ system.receivers, receiver.entry ∈ system.fields.subscriptions ∨
    Gone receiver.entry l
  handed : handedOut system.answered = system.receivers.map Receiver.entry

/-- What the ledger tells of the system. -/
structure Recorded (system : RegistrySystem) (l : Ledger) : Prop where
  booked : system.Booked system.called l
  free : system.holder = none → system.Settled l
  holder : ∀ holder ∈ system.holder, Pending holder.program ∧ ∃ l₀, system.Settled l₀ ∧
    HolderMeets system.fields.subscriptions holder.call
      (Concludes holder.call system.fields l₀) holder.program l

theorem recorded_new (broker : ℕ) :
    (new broker).Recorded ⟨(new broker).shared, fun _ ↦ [], fun _ ↦ []⟩ where
  booked :=
    { shared := rfl
      sound := ⟨(wellFormed_new broker).sane, fun _ h ↦ absurd h (by simp [new]), fun _ ↦ rfl⟩
      fresh := fun _ _ ↦ ⟨rfl, rfl⟩
      receivers := fun _ h ↦ absurd h (by simp [new])
      entries := fun _ h ↦ absurd h (by simp [new])
      handed := rfl }
  free _ := ⟨fun _ h ↦ absurd h (by simp [new]), fun _ h ↦ absurd h (by simp [new]), fun _ _ ↦ rfl,
    fun _ h ↦ absurd h (by simp [new, RegistryFields.new])⟩
  holder _ h := absurd h (by simp [new])

/-- While no operation is in progress, everything stays settled. -/
theorem Settled.of_relies (h : system.Settled l)
    (hl : HolderRelies system.fields.subscriptions l l') : system.Settled l' where
  queued receiver hmem hentry := by
    rw [hl.queued]
    exact h.queued receiver hmem hentry
  left receiver hmem := by
    rw [hl.queued]
    exact h.left receiver hmem
  fresh id hid := by
    rw [hl.queued]
    exact h.fresh id hid
  untouched entry hmem := (h.untouched entry hmem).of_relies hmem hl

/-! ### Operations go on and return -/

theorem WellFormed.subscriptionId_lt (hw : system.WellFormed) {entry : SubscriptionEntry}
    (hentry : entry ∈ system.fields.subscriptions) :
    entry.subscriptionId < system.fields.nextSubscriptionId := by
  obtain ⟨receiver, hreceiver, rfl⟩ := List.mem_map.mp (hw.handed entry hentry)
  exact hw.handed_lt receiver hreceiver

/-- An entry with the number of a subscription is its entry. -/
theorem WellFormed.entry_eq (hw : system.WellFormed) {entry : SubscriptionEntry}
    (hentry : entry ∈ system.fields.subscriptions) (hreceiver : receiver ∈ system.receivers)
    (hid : entry.subscriptionId = receiver.entry.subscriptionId) : entry = receiver.entry := by
  obtain ⟨other, hother, rfl⟩ := List.mem_map.mp (hw.handed entry hentry)
  rw [List.inj_on_of_nodup_map hw.handed_nodup hother hreceiver hid]

/-- Subscriptions in different places have different numbers. -/
theorem WellFormed.subscriptionId_ne (hw : system.WellFormed) {i j : ℕ}
    (hi : system.receivers[i]? = some receiver) (hj : system.receivers[j]? = some receiver')
    (hij : j ≠ i) : receiver'.entry.subscriptionId ≠ receiver.entry.subscriptionId := by
  intro hid
  have hlt : j < (system.receivers.map fun receiver ↦ receiver.entry.subscriptionId).length := by
    rw [List.length_map]
    exact (List.getElem?_eq_some_iff.mp hj).1
  refine hij ((List.getElem?_inj hlt hw.handed_nodup).mp ?_)
  rw [List.getElem?_map, List.getElem?_map, hi, hj, Option.map_some, Option.map_some, hid]

/-! ### Operations go on and return -/

/-- The receivers that an operation leaves when it returns. -/
theorem receivers_return (call : RegistryCall) (outcome : RegistryOutcome) :
    (system.advance call (.result outcome)).receivers =
      system.receivers ++ outcome.reply.registered?.toList.map fun entry ↦ ⟨entry, .idle, []⟩ := by
  obtain ⟨fields, reply⟩ := outcome
  rcases reply with _ | _ | (_ | _)
  · exact (List.append_nil _).symm
  · exact (List.append_nil _).symm
  · exact (List.append_nil _).symm
  · rfl

theorem called_advance (call : RegistryCall) (program : SharedProgram RegistryOutcome) :
    (system.advance call program).called = system.answered.map Prod.fst ++ [call] := by
  cases program with
  | result outcome => simp [called, advance]
  | access o k => rfl

/-- **An operation returns**: what is due has grown by what it queues. -/
theorem Booked.settled_return (hw : system.WellFormed) {outcome : RegistryOutcome}
    (h : system.Booked calls l) (hsettled : system.Settled l₀)
    (hconcludes : Concludes call system.fields l₀ outcome l) {s₀ : Shared}
    (hleaves : Leaves call system.fields s₀ system.shared outcome) :
    (system.advance call (.result outcome)).Settled l := by
  have hfresh : ∀ id, system.fields.nextSubscriptionId ≤ id → l.queued id = [] := by
    intro id hid
    rw [hconcludes.others id fun entry hentry heq ↦ absurd (hw.subscriptionId_lt hentry) (by omega)]
    exact hsettled.fresh id hid
  -- what becomes of a subscription that had been handed out before
  have hold : ∀ receiver ∈ system.receivers,
      (receiver.entry ∈ outcome.fields.subscriptions →
        l.queued receiver.entry.subscriptionId =
          due (system.answered ++ [(call, outcome.reply)]) receiver.entry) ∧
      l.queued receiver.entry.subscriptionId <+:
        due (system.answered ++ [(call, outcome.reply)]) receiver.entry := by
    intro receiver hreceiver
    rw [due_concat_of_mem (h.handed ▸ List.mem_map_of_mem hreceiver)]
    have hleft := (hsettled.left receiver hreceiver).trans
      (List.prefix_append _ (call.queues receiver.entry))
    by_cases hentry : receiver.entry ∈ system.fields.subscriptions
    · have hqueued (hstays : receiver.entry ∈ outcome.fields.subscriptions) :
          l.queued receiver.entry.subscriptionId =
            due system.answered receiver.entry ++ call.queues receiver.entry := by
        rw [hconcludes.queued _ hentry hstays, hsettled.queued receiver hreceiver hentry]
      refine ⟨hqueued, ?_⟩
      rcases hconcludes.removed _ hentry with hstays | ⟨-, hsame⟩
      · exact hqueued hstays ▸ List.prefix_refl _
      · exact hsame ▸ hleft
    · have hother : ∀ entry ∈ system.fields.subscriptions,
          entry.subscriptionId ≠ receiver.entry.subscriptionId :=
        fun entry hmem heq ↦ hentry (hw.entry_eq hmem hreceiver heq ▸ hmem)
      refine ⟨fun hstays ↦ ?_, hconcludes.others _ hother ▸ hleft⟩
      rcases hleaves.handed with ⟨-, -, hsub⟩ | ⟨entry, kept, -, hid, -, heq, hsub, -⟩
      · exact absurd (hsub hstays) hentry
      · rw [heq] at hstays
        rcases List.mem_append.mp hstays with hkept | hnew
        · exact absurd (hsub hkept) hentry
        · have hlt := hw.handed_lt receiver hreceiver
          rw [List.mem_singleton.mp hnew] at hlt
          omega
  -- what is handed out now
  have hnew : ∀ entry ∈ outcome.reply.registered?,
      l.queued entry.subscriptionId = due (system.answered ++ [(call, outcome.reply)]) entry := by
    intro entry hentry
    rcases hleaves.handed with ⟨hnone, -⟩ | ⟨entry', kept, hsome, hid, -, -, -, hqueues⟩
    · simp [hnone] at hentry
    · obtain rfl : entry' = entry := by simpa [hsome] using hentry
      have hnew : entry' ∉ handedOut system.answered := by
        rw [h.handed]
        intro hmem
        obtain ⟨other, hother, hsame⟩ := List.mem_map.mp hmem
        have hlt := hw.handed_lt other hother
        rw [hsame] at hlt
        omega
      rw [hfresh _ hid.ge, due_concat_of_not_mem hnew hsome, hqueues]
  have hreceivers : ∀ receiver ∈ (system.advance call (.result outcome)).receivers,
      receiver ∈ system.receivers ∨ receiver.entry ∈ outcome.reply.registered? := by
    intro receiver hreceiver
    rw [receivers_return] at hreceiver
    rcases List.mem_append.mp hreceiver with hreceiver | hreceiver
    · exact .inl hreceiver
    · obtain ⟨entry, hentry, rfl⟩ := List.mem_map.mp hreceiver
      exact .inr (by simpa using hentry)
  refine ⟨fun receiver hreceiver hentry ↦ ?_, fun receiver hreceiver ↦ ?_, fun id hid ↦
    hfresh id ?_, fun entry hentry ↦ ?_⟩
  · rcases hreceivers receiver hreceiver with hmem | hmem
    · exact (hold receiver hmem).1 hentry
    · exact hnew _ hmem
  · rcases hreceivers receiver hreceiver with hmem | hmem
    · exact (hold receiver hmem).2
    · exact hnew _ hmem ▸ List.prefix_refl _
  · have hid : outcome.fields.nextSubscriptionId ≤ id := hid
    rcases hleaves.handed with ⟨-, hnext, -⟩ | ⟨-, -, -, -, hnext, -⟩ <;> omega
  · have hentry : entry ∈ outcome.fields.subscriptions := hentry
    rcases hleaves.handed with ⟨-, -, hsub⟩ | ⟨entry', kept, -, hid, -, heq, hsub, -⟩
    · exact hconcludes.kept entry (hsub hentry) hentry (hsettled.untouched entry (hsub hentry))
    · rcases List.mem_append.mp (heq ▸ hentry) with hkept | hnew
      · exact hconcludes.kept entry (hsub hkept) hentry (hsettled.untouched entry (hsub hkept))
      · rw [List.mem_singleton.mp hnew]
        exact .inl (h.fresh _ hid.ge).1

/-- The record of the receivers when an operation returns. -/
theorem Booked.return (h : system.Booked calls l) {outcome : RegistryOutcome}
    (hconcludes : Concludes call system.fields l₀ outcome l) {s₀ : Shared}
    (hleaves : Leaves call system.fields s₀ system.shared outcome) :
    (system.advance call (.result outcome)).Booked calls l := by
  have hentries : ∀ receiver ∈ system.receivers, receiver.entry ∈ outcome.fields.subscriptions ∨
      Gone receiver.entry l := by
    intro receiver hreceiver
    rcases h.entries receiver hreceiver with hmem | hgone
    · exact (hconcludes.removed _ hmem).imp id And.left
    · exact .inr hgone
  have hhanded : handedOut (system.answered ++ [(call, outcome.reply)]) =
      system.receivers.map Receiver.entry ++ outcome.reply.registered?.toList := by
    rw [handedOut_concat, h.handed]
  refine
    { shared := h.shared
      sound := h.sound
      fresh := fun id hid ↦ ?_
      receivers := fun receiver hreceiver ↦ ?_
      entries := fun receiver hreceiver ↦ ?_
      handed := ?_ }
  · have hid : outcome.fields.nextSubscriptionId ≤ id := hid
    rcases hleaves.handed with ⟨-, hnext, -⟩ | ⟨-, -, -, -, hnext, -⟩ <;>
      exact h.fresh id (by omega)
  · rw [receivers_return] at hreceiver
    rcases List.mem_append.mp hreceiver with hold | hnew
    · exact h.receivers receiver hold
    · obtain ⟨entry, hentry, rfl⟩ := List.mem_map.mp hnew
      rcases hleaves.handed with ⟨hnone, -⟩ | ⟨entry', kept, hsome, hid, -⟩
      · simp [hnone] at hentry
      · obtain rfl : entry = entry' := by simpa [hsome, eq_comm] using hentry
        obtain ⟨hactive, hreceived⟩ := h.fresh entry.subscriptionId hid.ge
        exact ⟨fun _ ↦ hreceived, List.nil_prefix, by simp, by simp, fun reason hreason ↦
          absurd (hreason.symm.trans hactive) (encodeEnd_ne_active reason)⟩
  · rw [receivers_return] at hreceiver
    rcases List.mem_append.mp hreceiver with hold | hnew
    · exact hentries receiver hold
    · obtain ⟨entry, hentry, rfl⟩ := List.mem_map.mp hnew
      rcases hleaves.handed with ⟨hnone, -⟩ | ⟨entry', kept, hsome, -, -, heq, -⟩
      · simp [hnone] at hentry
      · obtain rfl : entry = entry' := by simpa [hsome, eq_comm] using hentry
        refine .inl ?_
        change entry ∈ outcome.fields.subscriptions
        rw [heq]
        exact List.mem_append_right _ (List.mem_singleton_self _)
  · rw [receivers_return, List.map_append, List.map_map]
    refine hhanded.trans ?_
    simp [Function.comp_def]

/-- An operation that goes on or returns keeps the record. -/
theorem Booked.advance (hw : system.WellFormed) {program : SharedProgram RegistryOutcome}
    (h : system.Booked (system.answered.map Prod.fst ++ [call]) l) (hsettled : system.Settled l₀)
    (hmeets : HolderMeets system.fields.subscriptions call (Concludes call system.fields l₀)
      program l)
    (hleaves : ∀ outcome, program = .result outcome →
      ∃ s₀, Leaves call system.fields s₀ system.shared outcome) :
    (system.advance call program).Recorded l := by
  cases program with
  | result outcome =>
    obtain ⟨s₀, hleaves⟩ := hleaves outcome rfl
    refine ⟨?_, fun _ ↦ h.settled_return hw hsettled hmeets hleaves, ?_⟩
    · rw [called_advance]
      exact h.return hmeets hleaves
    · exact fun _ hholder ↦ absurd hholder (by simp [holder_advance_result])
  | access o k =>
    refine ⟨?_, fun hfree ↦ absurd hfree (by simp [RegistrySystem.advance]), ?_⟩
    · rw [called_advance]
      exact { h with }
    · intro holder hholder
      obtain rfl := Option.some_inj.mp (Option.mem_def.mp hholder)
      exact ⟨pending_access, l₀, { hsettled with }, hmeets⟩

/-! ### Steps -/

theorem mem_setReceiver {i : ℕ} (h : receiver ∈ (system.setReceiver i receiver').receivers) :
    receiver = receiver' ∨ ∃ j, j ≠ i ∧ system.receivers[j]? = some receiver := by
  obtain ⟨j, hj⟩ := List.mem_iff_getElem?.mp h
  rw [setReceiver, List.getElem?_set] at hj
  split at hj
  · split at hj
    · exact .inl (Option.some_inj.mp hj).symm
    · exact absurd hj (by simp)
  · rename_i hne
    exact .inr ⟨j, Ne.symm hne, hj⟩

/-- What others than the operation in progress do. -/
theorem Recorded.around (h : system.Recorded l)
    (hl : HolderRelies system.fields.subscriptions l l') {receivers : List Receiver}
    (hentries : receivers.map Receiver.entry = system.receivers.map Receiver.entry)
    (hreceivers : ∀ receiver ∈ receivers, receiver.Recorded system.called l')
    (hfresh : ∀ id, system.fields.nextSubscriptionId ≤ id → l'.word id = active ∧
      l'.received id = l.received id) :
    { system with shared := l'.shared, receivers }.Recorded l' := by
  have hold : ∀ receiver ∈ receivers, ∃ old ∈ system.receivers, old.entry = receiver.entry :=
    fun receiver hmem ↦ List.mem_map.mp (hentries ▸ List.mem_map_of_mem hmem)
  have hsettled : ∀ l₀, system.Settled l₀ →
      { system with shared := l'.shared, receivers }.Settled l₀ := by
    refine fun l₀ hsettled ↦ { hsettled with
      queued := fun receiver hmem hentry ↦ ?_, left := fun receiver hmem ↦ ?_ }
    · obtain ⟨old, hmem, heq⟩ := hold receiver hmem
      rw [← heq] at hentry ⊢
      exact hsettled.queued old hmem hentry
    · obtain ⟨old, hmem, heq⟩ := hold receiver hmem
      rw [← heq]
      exact hsettled.left old hmem
  refine ⟨⟨rfl, hl.keeps.sound h.booked.sound, fun id hid ↦ ?_, hreceivers, fun receiver hmem ↦
    ?_, ?_⟩, fun hfree ↦ ?_, fun holder hholder ↦ ?_⟩
  · exact ⟨(hfresh id hid).1, (hfresh id hid).2.trans (h.booked.fresh id hid).2⟩
  · obtain ⟨old, hmem, heq⟩ := hold receiver hmem
    rw [← heq]
    exact (h.booked.entries old hmem).imp id fun hgone ↦ hgone.of_keeps l l' hl.keeps
  · exact h.booked.handed.trans hentries.symm
  · exact hsettled l' ((h.free hfree).of_relies hl)
  · obtain ⟨⟨o, k, hprogram⟩, l₀, hsettled₀, hmeets⟩ := h.holder holder hholder
    refine ⟨⟨o, k, hprogram⟩, l₀, hsettled l₀ hsettled₀, ?_⟩
    rw [hprogram] at hmeets ⊢
    exact Program.Meets.of_rely (fun h₁ h₂ ↦ h₁.trans h₂) hmeets hl

/-- The operation in progress keeps the record of the receivers. -/
theorem Booked.worked (hw : system.WellFormed) (h : system.Booked calls l) (hcall : call ∈ calls)
    (hl : HolderKeeps system.fields.subscriptions call l l') :
    { system with shared := l'.shared }.Booked calls l' := by
  have hwarranted : ∀ id, l.word id = active → ∀ word, l'.word id = word → word ≠ active →
      Warranted system.fields.subscriptions call l id word := by
    rintro id hactive word rfl hended
    exact hl.word id hactive hended
  refine ⟨rfl, hl.keeps.sound h.sound, fun id hid ↦ ⟨?_, ?_⟩, fun receiver hmem ↦ ?_,
    fun receiver hmem ↦ ?_, h.handed⟩
  · have hid : system.fields.nextSubscriptionId ≤ id := hid
    have hactive := (h.fresh id hid).1
    by_contra hended
    generalize hword : l'.word id = word at hended
    cases hwarranted id hactive word hword hended with
    | ends entry mem same reason ends => exact absurd (hw.subscriptionId_lt mem) (by omega)
    | closed closed => exact h.sound.sane id closed hactive
    | lost entry mem same lost => exact absurd (hw.subscriptionId_lt mem) (by omega)
  · rw [hl.received]
    exact (h.fresh id hid).2
  · refine (h.receivers receiver hmem).of_relies (List.Subset.refl _)
      ⟨hl.keeps, congrFun hl.received _⟩ fun hactive reason hreason ↦ ?_
    have hended := ne_of_eq_of_ne hreason (encodeEnd_ne_active reason)
    generalize hword : encodeEnd reason = word at hreason
    cases hwarranted _ hactive _ hreason (hreason ▸ hended) with
    | ends entry mem same reason' ends =>
      obtain rfl := encodeEnd_injective hword
      exact .called call hcall reason (hw.entry_eq mem hmem same ▸ ends)
    | closed closed => exact absurd hactive (h.sound.sane _ closed)
    | lost entry mem same lost =>
      obtain rfl := encodeEnd_injective hword
      exact .lost (hl.keeps.follows.lost _ (hw.entry_eq mem hmem same ▸ lost))
  · exact (h.entries receiver hmem).imp id fun hgone ↦ hgone.of_keeps l l' hl.keeps

/-- Something is done with a receiver. -/
theorem Recorded.served (hw : system.WellFormed) (h : system.Recorded l) {i : ℕ}
    (hi : system.receivers[i]? = some receiver)
    (hl : ReceiverKeeps receiver.entry cancelling l l')
    (hentry : receiver'.entry = receiver.entry) (hreceiver : receiver'.Recorded system.called l') :
    ({ system with shared := l'.shared }.setReceiver i receiver').Recorded l' := by
  have hmem := List.mem_of_getElem? hi
  have hword : ∀ id, id ≠ receiver.entry.subscriptionId → l.word id = active →
      l'.word id = active := by
    intro id hid hactive
    by_contra hended
    exact hid (hl.word id hactive hended).1
  have hrelies : HolderRelies system.fields.subscriptions l l' := by
    refine ⟨hl.keeps, hl.queued, fun entry hentry hactive hended ↦ ?_⟩
    obtain ⟨hid, hwhy⟩ := hl.word _ hactive hended
    obtain rfl := hw.entry_eq hentry hmem hid
    exact hwhy.imp And.right fun hlost ↦ hl.keeps.follows.lost _ hlost.1
  refine h.around hrelies ?_ (fun other hother ↦ ?_) fun id hid ↦ ?_
  · obtain ⟨hlt, hget⟩ := List.getElem?_eq_some_iff.mp hi
    rw [List.map_set, hentry, ← hget]
    exact (congrArg _ (List.getElem_map ..).symm).trans (List.set_getElem_self (by simpa using hlt))
  · have hother : other ∈ (system.setReceiver i receiver').receivers := hother
    rcases mem_setReceiver hother with rfl | ⟨j, hji, hj⟩
    · exact hreceiver
    · have hne := hw.subscriptionId_ne hi hj hji
      refine (h.booked.receivers other (List.mem_of_getElem? hj)).of_relies (List.Subset.refl _)
        ⟨hl.keeps, hl.received _ hne⟩ fun hactive reason hreason ↦ ?_
      exact absurd (hreason.symm.trans (hword _ hne hactive)) (encodeEnd_ne_active reason)
  · have hne : id ≠ receiver.entry.subscriptionId := by
      have hlt := hw.handed_lt receiver hmem
      omega
    exact ⟨hword id hne (h.booked.fresh id hid).1, hl.received id hne⟩

theorem Booked.mono (h : system.Booked calls l) (hcalls : calls ⊆ calls') :
    system.Booked calls' l := by
  refine { h with receivers := fun receiver hmem ↦ ?_ }
  refine (h.receivers receiver hmem).of_relies hcalls (.refl ..) fun hactive reason hreason ↦ ?_
  exact absurd (hreason.symm.trans hactive) (encodeEnd_ne_active reason)

/-- An operation takes the mutex. -/
theorem Recorded.take (hw : system.WellFormed) (h : system.Recorded l)
    (hfree : system.holder = none)
    (hheld : ∀ channelId ∈ call.relies system.fields, channelId ∉ system.shared.lost) :
    (system.advance call (call.program system.fields)).Recorded l := by
  have hsettled := h.free hfree
  have hcalls : system.called ⊆ system.answered.map Prod.fst ++ [call] := by simp [called, hfree]
  refine (h.booked.mono hcalls).advance hw hsettled (concludes_program hw.entries_nodup
    (fun _ hmem ↦ hw.subscriptionId_lt hmem) h.booked.sound) fun outcome hresult ↦ ?_
  have hobeys := obeys_program hw.sane hheld
  rw [hresult] at hobeys
  exact ⟨system.shared, hobeys⟩

/-- The operation that has the mutex makes an access. -/
theorem Recorded.work (hw : system.WellFormed) (h : system.Recorded l) {o : SharedAccess}
    {k : o.Answer → SharedProgram RegistryOutcome}
    (hholder : system.holder = some ⟨call, .access o k⟩) :
    HolderKeeps system.fields.subscriptions call l (l.exec o).2 ∧
      ({ system with shared := (system.shared.exec o).2 }.advance call
        (k (system.shared.exec o).1)).Recorded (l.exec o).2 := by
  obtain ⟨-, l₀, hsettled, hmeets⟩ := h.holder _ hholder
  obtain ⟨hkeeps, hmeets⟩ := Program.Meets.step (HolderRelies.refl _) hmeets
  obtain ⟨s₀, hholds⟩ := hw.holder _ (Option.mem_def.mpr hholder)
  obtain ⟨hfollows, hobeys⟩ := hholds.obeys.step
  have hcalled : system.called = system.answered.map Prod.fst ++ [call] := by simp [called, hholder]
  have hbooked := h.booked
  rw [hcalled] at hbooked
  have hworked := hbooked.worked hw (List.mem_append_right _ (List.mem_singleton_self call)) hkeeps
  -- while it makes its access, the operation relies on nobody
  have hfree : { system with holder := none }.WellFormed :=
    { hw with holder := fun _ h ↦ absurd h (by simp) }
  have hwell : { system with shared := (system.shared.exec o).2, holder := none }.WellFormed :=
    hfree.setShared hfollows
  rw [← h.booked.shared] at hobeys hwell ⊢
  have hbooked' : { system with shared := (l.shared.exec o).2, holder := none }.Booked
      (system.answered.map Prod.fst ++ [call]) (l.exec o).2 := { hworked with }
  refine ⟨hkeeps, hbooked'.advance hwell { hsettled with } hmeets fun outcome hresult ↦ ⟨s₀, ?_⟩⟩
  rw [show k (l.shared.exec o).1 = .result outcome from hresult] at hobeys
  exact hobeys

theorem entry_advanceNext (receiver : Receiver) (program : SharedProgram UpdateSubscriptionPoll) :
    (advanceNext receiver program).entry = receiver.entry := by
  rcases program with (_ | _ | _) | _ <;> rfl

theorem entry_advanceCancel (receiver : Receiver) (dropping : Bool) (program : SharedProgram Unit) :
    (advanceCancel receiver dropping program).entry = receiver.entry := by
  cases program <;> rfl

/-- What can be done with a receiver. -/
inductive Served (l : Ledger) (receiver : Receiver) : Receiver → Ledger → Prop
  | next (idle : receiver.phase = .idle) :
      Served l receiver (advanceNext receiver (nextProgram receiver.entry)) l
  | poll (waiting : receiver.phase = .waiting) :
      Served l receiver (advanceNext receiver (selectProgram receiver.entry)) l
  | forget (waiting : receiver.phase = .waiting) :
    Served l receiver { receiver with phase := .idle } l
  | cancel (idle : receiver.phase = .idle) (dropping : Bool) :
      Served l receiver (advanceCancel receiver dropping (cancelProgram receiver.entry)) l
  | run (o : SharedAccess) (k : o.Answer → SharedProgram UpdateSubscriptionPoll)
      (running : receiver.phase = .running (.access o k)) :
      Served l receiver (advanceNext receiver (k (l.exec o).1)) (l.exec o).2
  | close (dropping : Bool) (o : SharedAccess) (k : o.Answer → SharedProgram Unit)
      (cancelling : receiver.phase = .cancelling dropping (.access o k)) :
      Served l receiver (advanceCancel receiver dropping (k (l.exec o).1)) (l.exec o).2

theorem Served.entry_eq (h : Served l receiver receiver' l') :
    receiver'.entry = receiver.entry := by
  cases h with
  | forget => rfl
  | next | poll | run => exact entry_advanceNext ..
  | cancel | close => exact entry_advanceCancel ..

/-- What is done with a receiver keeps its record. -/
theorem Served.recorded (h : Served l receiver receiver' l') (hsound : l.Sound)
    (hrecorded : receiver.Recorded calls l) :
    ∃ cancelling, ReceiverKeeps receiver.entry cancelling l l' ∧ receiver'.Recorded calls l' := by
  obtain ⟨hphase, hhanded, hobserved, hreasons, hcaused⟩ := hrecorded
  cases h with
  | next idle =>
    rw [idle] at hphase hcaused
    exact ⟨false, .refl l,
      recorded_advanceNext (reports_next hsound hhanded hphase) hhanded hobserved hreasons hcaused⟩
  | poll waiting =>
    rw [waiting] at hphase hcaused
    exact ⟨false, .refl l, recorded_advanceNext (reports_select hsound hhanded hphase) hhanded
      hobserved hreasons hcaused⟩
  | forget waiting =>
    rw [waiting] at hphase hcaused
    exact ⟨false, .refl l, hphase, hhanded, hobserved, hreasons, hcaused⟩
  | cancel idle dropping =>
    refine ⟨true, .refl l, recorded_advanceCancel receiverMeets_cancel hhanded hobserved hreasons
      fun reason hreason ↦ ?_⟩
    cases hcaused reason hreason with
    | called call mem reason ends => exact .called call mem reason ends
    | cancelled by_user => exact .cancelled (.inl rfl)
    | lost lost => exact .lost lost
  | run o k running =>
    rw [running] at hphase hcaused
    obtain ⟨hkeeps, hmeets⟩ := Program.Meets.step (ReceiverRelies.refl _) hphase.2
    exact ⟨false, hkeeps, recorded_advanceNext hmeets (hhanded.trans hkeeps.grows) hobserved
      (fun reason hmem ↦ decodeEnd_of_keeps hkeeps.keeps (hreasons reason hmem))
      (caused_of_keeps (List.Subset.refl _) hkeeps.keeps hcaused hkeeps.caused)⟩
  | close dropping o k cancelling =>
    rw [cancelling] at hphase hcaused
    obtain ⟨hkeeps, hmeets⟩ := Program.Meets.step (ReceiverRelies.refl _) hphase.2
    exact ⟨true, hkeeps, recorded_advanceCancel hmeets (hhanded.trans hkeeps.grows) hobserved
      (fun reason hmem ↦ decodeEnd_of_keeps hkeeps.keeps (hreasons reason hmem))
      (caused_of_keeps (List.Subset.refl _) hkeeps.keeps hcaused hkeeps.caused)⟩

/-- What a step does, and what becomes of the ledger. -/
inductive Accounted (system : RegistrySystem) (l : Ledger) (action : RegistryAction)
    (system' : RegistrySystem) : Ledger → Prop
  | took (call : RegistryCall) (called : action = .call call) (free : system.holder = none)
      (held : ∀ channelId ∈ call.relies system.fields, channelId ∉ system.shared.lost)
      (eq : system' = system.advance call (call.program system.fields)) :
      Accounted system l action system' l
  | worked (call : RegistryCall) (o : SharedAccess) (k : o.Answer → SharedProgram RegistryOutcome)
      (work : action = .work) (holder : system.holder = some ⟨call, .access o k⟩)
      (eq : system' = { system with shared := (system.shared.exec o).2 }.advance call
        (k (system.shared.exec o).1)) :
      Accounted system l action system' (l.exec o).2
  | lost (channelId : ℕ) (drop : action = .dropChannel channelId)
      (eq : system' = { system with shared := (system.shared.exec (.dropLease channelId)).2 }) :
      Accounted system l action system' (l.exec (.dropLease channelId)).2
  | served (i : ℕ) (receiver receiver' : Receiver) (l' : Ledger) (about : action.receiver? = some i)
      (received : system.receivers[i]? = some receiver) (served : Served l receiver receiver' l')
      (eq : system' = { system with shared := l'.shared }.setReceiver i receiver') :
      Accounted system l action system' l'

/-- Something is begun with a receiver. -/
theorem accounted_begin (hshared : l.shared = system.shared) {i : ℕ}
    {start : Receiver → Option Receiver} (hstep : system.begin i start = some system')
    (habout : action.receiver? = some i)
    (hstart : ∀ receiver receiver', start receiver = some receiver' →
      Served l receiver receiver' l) :
    Accounted system l action system' l := by
  rw [RegistrySystem.begin, Option.map_eq_some_iff] at hstep
  obtain ⟨receiver', hbegun, rfl⟩ := hstep
  obtain ⟨receiver, hi, hreceiver'⟩ := Option.bind_eq_some_iff.mp hbegun
  exact .served i receiver receiver' l habout hi (hstart receiver receiver' hreceiver')
    (by rw [hshared])

/-- The next access of what is being done with a receiver. -/
theorem accounted_proceed (hshared : l.shared = system.shared) {i : ℕ}
    (hstep : system.proceed i = some system') : ∃ l',
      Accounted system l (.proceed i) system' l' := by
  rw [RegistrySystem.proceed] at hstep
  split at hstep
  · rename_i receiver hi
    split at hstep
    · rename_i o k hrunning
      obtain rfl := Option.some_inj.mp hstep
      rw [← hshared]
      exact ⟨_, .served i receiver _ _ rfl hi (.run o k hrunning) rfl⟩
    · rename_i dropping o k hcancelling
      obtain rfl := Option.some_inj.mp hstep
      rw [← hshared]
      exact ⟨_, .served i receiver _ _ rfl hi (.close dropping o k hcancelling) rfl⟩
    · exact absurd hstep (by simp)
  · exact absurd hstep (by simp)

/-- **What a step can do**, with the ledger. -/
theorem exists_accounted (hw : system.WellFormed) (hshared : l.shared = system.shared)
    (hstep : system.step action = some system') : ∃ l', Accounted system l action system' l' := by
  cases action with
  | call call =>
    cases stepped hw hstep with
    | called _ free held eq => exact ⟨l, .took call rfl free held eq⟩
    | served i receiver receiver' s not_call => exact absurd rfl (not_call call)
  | work =>
    cases stepped hw hstep with
    | worked call o k holder eq => exact ⟨_, .worked call o k rfl holder eq⟩
    | served i receiver receiver' s not_call not_work => exact absurd rfl not_work
  | dropChannel channelId =>
    rw [RegistrySystem.step] at hstep
    split at hstep
    · exact ⟨_, .lost channelId rfl (Option.some_inj.mp hstep).symm⟩
    · exact absurd hstep (by simp)
  | next i =>
    refine ⟨l, accounted_begin hshared hstep rfl fun receiver receiver' hstart ↦ ?_⟩
    split at hstart
    · exact Option.some_inj.mp hstart ▸ .next ‹_›
    · exact absurd hstart (by simp)
  | poll i =>
    refine ⟨l, accounted_begin hshared hstep rfl fun receiver receiver' hstart ↦ ?_⟩
    split at hstart
    · exact Option.some_inj.mp hstart ▸ .poll ‹_›
    · exact absurd hstart (by simp)
  | forget i =>
    refine ⟨l, accounted_begin hshared hstep rfl fun receiver receiver' hstart ↦ ?_⟩
    split at hstart
    · exact Option.some_inj.mp hstart ▸ .forget ‹_›
    · exact absurd hstart (by simp)
  | cancel i =>
    refine ⟨l, accounted_begin hshared hstep rfl fun receiver receiver' hstart ↦ ?_⟩
    split at hstart
    · exact Option.some_inj.mp hstart ▸ .cancel ‹_› false
    · exact absurd hstart (by simp)
  | drop i =>
    refine ⟨l, accounted_begin hshared hstep rfl fun receiver receiver' hstart ↦ ?_⟩
    split at hstart
    · exact Option.some_inj.mp hstart ▸ .cancel ‹_› true
    · exact absurd hstart (by simp)
  | proceed i => exact accounted_proceed hshared hstep

/-- **The step lemma**: the record goes on. -/
theorem Accounted.recorded (hw : system.WellFormed) (h : system.Recorded l)
    (hstep : Accounted system l action system' l') : Keeps l l' ∧ system'.Recorded l' := by
  cases hstep with
  | took call called free held eq => exact eq ▸ ⟨.refl l, h.take hw free held⟩
  | worked call o k work holder eq => exact eq ▸ (h.work hw holder).imp HolderKeeps.keeps id
  | lost channelId drop eq =>
    have hkeeps : Keeps l (l.exec (.dropLease channelId)).2 := keeps_exec trivial
    have hrelies : HolderRelies system.fields.subscriptions l (l.exec (.dropLease channelId)).2 :=
      ⟨hkeeps, rfl, fun _ _ h h' ↦ absurd h h'⟩
    rw [eq, ← h.booked.shared]
    refine ⟨hkeeps, h.around hrelies rfl (fun receiver hmem ↦ ?_)
      fun id hid ↦ ⟨(h.booked.fresh id hid).1, rfl⟩⟩
    refine (h.booked.receivers receiver hmem).of_relies (List.Subset.refl _) ⟨hkeeps, rfl⟩
      fun hactive reason hreason ↦ ?_
    exact absurd (hreason.symm.trans hactive) (encodeEnd_ne_active reason)
  | served i receiver receiver' l' about received served eq =>
    obtain ⟨cancelling, hkeeps, hrecorded⟩ := served.recorded h.booked.sound
      (h.booked.receivers receiver (List.mem_of_getElem? received))
    exact eq ▸ ⟨hkeeps.keeps, h.served hw received hkeeps served.entry_eq hrecorded⟩

/-- **What a step does with a receiver**: what others do, or something that can be done with it. -/
theorem Accounted.receiver_spec (hw : system.WellFormed) (h : system.Recorded l)
    (hstep : Accounted system l action system' l') {i : ℕ}
    (hi : system.receivers[i]? = some receiver) :
    ∃ receiver', system'.receivers[i]? = some receiver' ∧
      (receiver' = receiver ∧ ReceiverRelies receiver.entry l l' ∨
        action.receiver? = some i ∧ Served l receiver receiver' l') := by
  cases hstep with
  | took call called free held eq =>
    exact ⟨receiver, eq ▸ receivers_advance hi, .inl ⟨rfl, .refl _ l⟩⟩
  | worked call o k work holder eq =>
    obtain ⟨hkeeps, -⟩ := h.work hw holder
    exact ⟨receiver, eq ▸ receivers_advance hi,
      .inl ⟨rfl, hkeeps.keeps, congrFun hkeeps.received _⟩⟩
  | lost channelId drop eq => exact ⟨receiver, eq ▸ hi, .inl ⟨rfl, keeps_exec trivial, rfl⟩⟩
  | served j other other' l' about received served eq =>
    subst eq
    by_cases hij : j = i
    · subst hij
      obtain rfl := Option.some_inj.mp (received.symm.trans hi)
      exact ⟨other', List.getElem?_set_self (List.getElem?_eq_some_iff.mp hi).1,
        .inr ⟨about, served⟩⟩
    · obtain ⟨cancelling, hkeeps, -⟩ := served.recorded h.booked.sound
        (h.booked.receivers other (List.mem_of_getElem? received))
      refine ⟨receiver, (List.getElem?_set_ne hij).trans hi, .inl ⟨rfl, hkeeps.keeps, ?_⟩⟩
      exact hkeeps.received _ (hw.subscriptionId_ne received hi (Ne.symm hij))

/-- **The record of a run.** -/
theorem exists_recorded {broker : ℕ} {actions : List RegistryAction}
    (hrun : Transition.run step (new broker) actions = some system) :
    system.WellFormed ∧ ∃ l, system.Recorded l := by
  refine Transition.invariant (I := fun t : RegistrySystem ↦ t.WellFormed ∧ ∃ l, t.Recorded l) ?_
    ⟨wellFormed_new broker, _, recorded_new broker⟩ hrun
  rintro t action t' ⟨hw, l, h⟩ hstep
  obtain ⟨l', haccounted⟩ := exists_accounted hw h.booked.shared hstep
  exact ⟨(stepped hw hstep).wellFormed hw, l', (haccounted.recorded hw h).2⟩

/-! ### What the record tells -/

/-- While the mutex is free, a subscription has been notified of a part of what is due to it. -/
theorem Recorded.notified_prefix (h : system.Recorded l) (hfree : system.holder = none)
    (hmem : receiver ∈ system.receivers) :
    notified receiver.returned <+: due system.answered receiver.entry := by
  have hqueue := h.booked.sound.queue receiver.entry.subscriptionId
  have hreceived : l.received receiver.entry.subscriptionId <+:
      l.queued receiver.entry.subscriptionId := hqueue ▸ List.prefix_append _ _
  exact ((h.booked.receivers receiver hmem).handed.trans hreceived).trans
    ((h.free hfree).left receiver hmem)

/-- **An active subscription has been notified of what is due to it**, but for what is in its
queue. -/
theorem Recorded.due_eq (hw : system.WellFormed) (h : system.Recorded l)
    (hfree : system.holder = none) (hmem : receiver ∈ system.receivers)
    (hactive : system.isActive receiver = true)
    (hphase : receiver.phase = .idle ∨ receiver.phase = .waiting) :
    notified receiver.returned ++ (system.shared.cells receiver.entry.subscriptionId).queue =
      due system.answered receiver.entry := by
  have hnot := isActive_iff.mp hactive
  have hword : l.word receiver.entry.subscriptionId = active := by
    rw [Ledger.word, h.booked.shared]
    exact not_not.mp hnot
  have hreceived : l.received receiver.entry.subscriptionId = notified receiver.returned := by
    have hrecorded := (h.booked.receivers receiver hmem).phase
    rcases hphase with hidle | hwaiting
    · rw [hidle] at hrecorded
      exact hrecorded hword
    · rw [hwaiting] at hrecorded
      exact hrecorded hword
  rw [← hreceived, ← h.booked.shared, ← h.booked.sound.queue]
  exact (h.free hfree).queued receiver hmem (hw.present receiver hmem hnot)

/-- **What has ended can be seen to have**, while the mutex is free and nobody is about to cancel
it. -/
theorem Recorded.apparent (h : system.Recorded l) (hfree : system.holder = none)
    (hgenuine : ∀ call ∈ system.called, call.Genuine) (hmem : receiver ∈ system.receivers)
    (hended : l.word receiver.entry.subscriptionId ≠ active)
    (hcancels : receiver.phase.cancels = false) : Apparent receiver.entry l := by
  refine ⟨hended, ?_⟩
  rcases h.booked.entries receiver hmem with hentry | hgone
  · rcases (h.free hfree).untouched _ hentry with hactive | hcancelled | hlost
    · exact absurd hactive hended
    · have hcaused := (h.booked.receivers receiver hmem).caused _ hcancelled
      rw [hcancels] at hcaused
      cases hcaused with
      | called call mem reason ends => exact absurd ends (hgenuine call mem).ends_ne
      | cancelled by_user => exact .inl (by_user.resolve_left (by simp)).2
    · exact .inr (.inr hlost)
  · exact .inr (.inl hgone.2)

end RegistrySystem

end Renee
