import Renee.Service.Emission
import Renee.Service.Grounds

/-!
# Each forwarder and its receiver

While a connection is open nobody else does anything with the receivers of its forwarders, or gives
up its channel.  So what is being done with a receiver is what its forwarder is at.

* `Forwarder.Agrees` says what a stage of a forwarder goes with, and `Tracked` that the receiver is
  there.  `tracked_step` is about what the others do, and `agrees_step` about what the forwarder
  does.
* `Asking` is about a subscription that has been asked for, until it is acknowledged.
* `System.Kept` holds after every run (`System.Kept.step`).
-/

set_option autoImplicit false

namespace Renee

open ByteString Interference SharedProgram
open UpdateSubscriptionRegistry (UpdateSubscriptionPoll)

/-- Nothing is being done with a receiver but to poll it. -/
def ReceiverPhase.polls : ReceiverPhase → Bool
  | .idle | .running _ | .waiting => true
  | .cancelling _ _ | .dropped => false

namespace Emission

variable {f f' : Forwarder} {receiver receiver' : Receiver} {s s' : Shared} {i k channelId : ℕ}

/-! ## Agreement -/

/-- What is being done with a receiver goes with the stage of its forwarder. -/
inductive Forwarder.Agrees (f : Forwarder) (receiver : Receiver) (s : Shared) : Prop
  | polling (stage : f.stage = .polling) (polls : receiver.phase.polls = true)
      (opened : (s.cells receiver.entry.subscriptionId).closed = false)
      (returned : receiver.returned = f.seen)
  /-- `next` has returned something that the forwarder has not dealt with. -/
  | observed (stage : f.stage = .polling) (idle : receiver.phase = .idle)
      (opened : (s.cells receiver.entry.subscriptionId).closed = false)
      (poll : UpdateSubscriptionPoll) (returned : receiver.returned = f.seen ++ [poll])
  /-- It cancels the subscription, or has done so. -/
  | ending (stage : f.stage = .overflowing ∨ f.stage = .cancelling)
      (ends : (∃ program, receiver.phase = .cancelling false program) ∨
        receiver.phase = .idle ∧ Ended receiver.entry s)
  /-- It drops the subscription, or has done so. -/
  | ended (closed : f.closed = true) (ended : Ended receiver.entry s)
      (drops : (∃ program, receiver.phase = .cancelling true program) ∨ receiver.phase = .dropped)

namespace Forwarder

theorem Agrees.of_follows (h : f.Agrees receiver s)
    (hclosed : (s'.cells receiver.entry.subscriptionId).closed = true →
      (s.cells receiver.entry.subscriptionId).closed = true) (hs : Follows ∅ s s') :
    f.Agrees receiver s' := by
  have hopened (hopened : (s.cells receiver.entry.subscriptionId).closed = false) :
      (s'.cells receiver.entry.subscriptionId).closed = false :=
    Bool.eq_false_of_not_eq_true fun heq ↦ absurd (hopened.symm.trans (hclosed heq)) (by simp)
  cases h with
  | polling stage polls opened returned => exact .polling stage polls (hopened opened) returned
  | observed stage idle opened poll returned =>
    exact .observed stage idle (hopened opened) poll returned
  | ending stage ends => exact .ending stage (ends.imp id (And.imp id hs.ended_of_ended))
  | ended closed ended drops => exact .ended closed (hs.ended_of_ended ended) drops

/-- It depends on the stage and on what has been dealt with. -/
theorem Agrees.congr (h : f.Agrees receiver s) (hstage : f'.stage = f.stage)
    (hseen : f'.seen = f.seen) : f'.Agrees receiver s := by
  have hclosed : f'.closed = f.closed := by rw [closed, closed, hstage]
  cases h with
  | polling stage polls opened returned =>
    exact .polling (hstage.trans stage) polls opened (returned.trans hseen.symm)
  | observed stage idle opened poll returned =>
    exact .observed (hstage.trans stage) idle opened poll (by rw [returned, hseen])
  | ending stage ends => exact .ending (stage.imp hstage.trans hstage.trans) ends
  | ended closed ended drops => exact .ended (hclosed.trans closed) ended drops

theorem Agrees.opened (h : f.Agrees receiver s) (hstage : f.stage = .polling) :
    (s.cells receiver.entry.subscriptionId).closed = false := by
  cases h with
  | polling stage polls opened returned => exact opened
  | observed stage idle opened poll returned => exact opened
  | ending stage ends => exact absurd stage (by simp [hstage])
  | ended closed ended drops => exact absurd closed (by simp [Forwarder.closed, hstage])

/-- What a forwarder is at whose `next` is under way. -/
theorem Agrees.under_way (h : f.Agrees receiver s) (hidle : receiver.phase ≠ .idle)
    (hpolls : receiver.phase.polls = true) : f.stage = .polling ∧ receiver.returned = f.seen := by
  cases h with
  | polling stage polls opened returned => exact ⟨stage, returned⟩
  | observed stage idle opened poll returned => exact absurd idle hidle
  | ending stage ends =>
    rcases ends with ⟨program, hphase⟩ | ⟨hphase, -⟩
    · exact absurd hpolls (by simp [hphase, ReceiverPhase.polls])
    · exact absurd hphase hidle
  | ended closed ended drops =>
    rcases drops with ⟨program, hphase⟩ | hphase <;>
      exact absurd hpolls (by simp [hphase, ReceiverPhase.polls])

/-- What a forwarder has ended has ended. -/
theorem Agrees.ended_of_idle (h : f.Agrees receiver s) (hidle : receiver.phase = .idle)
    (hstage : f.stage = .overflowing ∨ f.stage = .cancelling) : Ended receiver.entry s := by
  cases h with
  | polling stage polls opened returned => exact absurd hstage (by simp [stage])
  | observed stage idle opened poll returned => exact absurd hstage (by simp [stage])
  | ending stage ends =>
    refine (ends.resolve_left ?_).2
    rintro ⟨program, hphase⟩
    exact absurd (hidle.symm.trans hphase) (by simp)
  | ended closed ended drops => exact ended

theorem Agrees.ended_of_closed (h : f.Agrees receiver s) (hclosed : f.closed = true) :
    Ended receiver.entry s := by
  obtain hstage | hstage : f.stage = .returning ∨ f.stage = .returned := by
    simpa [Forwarder.closed] using hclosed
  all_goals
    cases h with
    | polling stage polls opened returned => exact absurd (hstage.symm.trans stage) (by simp)
    | observed stage idle opened poll returned => exact absurd (hstage.symm.trans stage) (by simp)
    | ending stage ends => exact absurd stage (by simp [hstage])
    | ended closed ended drops => exact ended

theorem agrees_start (hidle : receiver.phase = .idle)
    (hopened : (s.cells receiver.entry.subscriptionId).closed = false)
    (hreturned : receiver.returned = []) (i : ℕ) : (start i).Agrees receiver s :=
  .polling rfl (by rw [hidle]; rfl) hopened hreturned

/-- `next` goes on, or waits, or returns. -/
theorem agrees_advanceNext (program : SharedProgram UpdateSubscriptionPoll)
    (hstage : f.stage = .polling)
    (hopened : (s.cells receiver.entry.subscriptionId).closed = false)
    (hreturned : receiver.returned = f.seen) :
    f.Agrees (RegistrySystem.advanceNext receiver program) s := by
  cases program with
  | access o k => exact .polling hstage rfl hopened hreturned
  | result poll =>
    cases poll with
    | pending => exact .polling hstage rfl hopened hreturned
    | notification u | invalidated ended =>
      exact .observed hstage rfl hopened _ (congrArg (· ++ [_]) hreturned)

end Forwarder

/-! ## What a forwarder does with its receiver -/

section Registry

open RegistrySystem

variable {system system' : RegistrySystem} {action : RegistryAction} {l : Ledger}

/-- **What a forwarder does with its receiver goes with its stage.** -/
theorem agrees_step (hw : system.WellFormed) (h : system.Recorded l)
    (hi : system.receivers[i]? = some receiver) (hagrees : f.Agrees receiver system.shared)
    (haction : action = .next i ∧ f.stage = .polling ∧ receiver.returned = f.seen ∨
      action = .poll i ∨ action = .forget i ∨ action = .proceed i)
    (hstep : system.step action = some system') :
    ∃ receiver', system'.receivers[i]? = some receiver' ∧ f.Agrees receiver' system'.shared := by
  have hlt := (List.getElem?_eq_some_iff.mp hi).1
  rcases haction with ⟨rfl, hstage, hreturned⟩ | rfl | rfl | rfl
  · obtain ⟨-, rfl⟩ := step_next hi hstep
    exact ⟨_, List.getElem?_set_self hlt,
      Forwarder.agrees_advanceNext _ hstage (hagrees.opened hstage) hreturned⟩
  · obtain ⟨hwaiting, rfl⟩ := step_poll hi hstep
    obtain ⟨hstage, hreturned⟩ :=
      hagrees.under_way (by simp [hwaiting]) (by rw [hwaiting]; rfl)
    exact ⟨_, List.getElem?_set_self hlt,
      Forwarder.agrees_advanceNext _ hstage (hagrees.opened hstage) hreturned⟩
  · obtain ⟨hwaiting, rfl⟩ := step_forget hi hstep
    obtain ⟨hstage, hreturned⟩ :=
      hagrees.under_way (by simp [hwaiting]) (by rw [hwaiting]; rfl)
    exact ⟨_, List.getElem?_set_self hlt, .polling hstage rfl (hagrees.opened hstage) hreturned⟩
  · rcases step_proceed hi hstep with ⟨o, k, hrunning, rfl⟩ | ⟨dropping, o, k, hcancelling, rfl⟩
    · obtain ⟨hstage, hreturned⟩ :=
        hagrees.under_way (by simp [hrunning]) (by rw [hrunning]; rfl)
      refine ⟨_, List.getElem?_set_self hlt, Forwarder.agrees_advanceNext _ hstage ?_ hreturned⟩
      refine Bool.eq_false_of_not_eq_true fun hclosed ↦ ?_
      exact absurd ((hagrees.opened hstage).symm.trans (closed_step_of_receiver hw h hi hstep
        (fun _ ↦ by rw [hrunning]; rfl) hclosed)) (by simp)
    · refine ⟨_, List.getElem?_set_self hlt, ?_⟩
      have hproper := hw.receivers receiver (List.mem_of_getElem? hi)
      rw [hcancelling] at hproper
      obtain ⟨hfollows, hobeys⟩ := hproper.2.step
      have hended (ended : Ended receiver.entry system.shared) :
          Ended receiver.entry (system.shared.exec o).2 := hfollows.weaken.ended_of_ended ended
      -- which it is that cancels
      have hcases : dropping = false ∧ (f.stage = .overflowing ∨ f.stage = .cancelling) ∨
          dropping = true ∧ f.closed = true ∧ Ended receiver.entry system.shared := by
        cases hagrees with
        | polling stage polls opened returned =>
          exact absurd polls (by simp [hcancelling, ReceiverPhase.polls])
        | observed stage idle opened poll returned =>
          exact absurd (hcancelling.symm.trans idle) (by simp)
        | ending stage ends =>
          rcases ends with ⟨program, hphase⟩ | ⟨hphase, -⟩
          · exact .inl ⟨(ReceiverPhase.cancelling.inj (hcancelling.symm.trans hphase)).1, stage⟩
          · exact absurd (hcancelling.symm.trans hphase) (by simp)
        | ended closed ended drops =>
          rcases drops with ⟨program, hphase⟩ | hphase
          · exact .inr ⟨(ReceiverPhase.cancelling.inj (hcancelling.symm.trans hphase)).1,
              closed, ended⟩
          · exact absurd (hcancelling.symm.trans hphase) (by simp)
      cases hk : k (system.shared.exec o).1 with
      | access o' k' =>
        rcases hcases with ⟨rfl, hstage⟩ | ⟨rfl, hclosed, ended⟩
        · exact .ending hstage (.inl ⟨_, rfl⟩)
        · exact .ended hclosed (hended ended) (.inl ⟨_, rfl⟩)
      | result a =>
        rw [hk] at hobeys
        rcases hcases with ⟨rfl, hstage⟩ | ⟨rfl, hclosed, ended⟩
        · exact .ending hstage (.inr ⟨rfl, hobeys⟩)
        · exact .ended hclosed (hended ended) (.inr rfl)

/-! ## The receivers of the forwarders -/

/-- The receiver of a forwarder is there, and while the connection is open it agrees with it. -/
structure Tracked (system : RegistrySystem) (channelId : ℕ) (opened : Prop) (f : Forwarder)
    (receiver : Receiver) : Prop where
  received : system.receivers[f.receiver]? = some receiver
  channel : receiver.entry.channelId = channelId
  seen : f.seen <+: receiver.returned
  agrees : opened → f.Agrees receiver system.shared

variable {opened : Prop} {channel : BrokerChannel} {answers : ℕ}

theorem Tracked.congr (h : Tracked system channelId opened f receiver)
    (hreceiver : f'.receiver = f.receiver) (hstage : f'.stage = f.stage)
    (hseen : f'.seen = f.seen) :
    Tracked system channelId opened f' receiver :=
  ⟨hreceiver ▸ h.received, h.channel, hseen ▸ h.seen, fun hopened ↦
    (h.agrees hopened).congr hstage hseen⟩

theorem Tracked.imp {opened' : Prop} (h : Tracked system channelId opened f receiver)
    (hopened : opened' → opened) : Tracked system channelId opened' f receiver :=
  { h with agrees := fun h' ↦ h.agrees (hopened h') }

/-- What the others do. -/
theorem Tracked.step (h : Tracked system channelId opened f receiver) (hw : system.WellFormed)
    (hrecorded : system.Recorded l) (hstep : system.step action = some system')
    (hother : opened → action.receiver? ≠ some f.receiver) :
    ∃ receiver', Tracked system' channelId opened f receiver' := by
  obtain ⟨receiver', hi', hentry, hreturned⟩ := receiver_step hw h.received hstep
  refine ⟨receiver', hi', hentry ▸ h.channel, h.seen.trans hreturned, fun hopened ↦ ?_⟩
  obtain rfl := Option.some_inj.mp
    (hi'.symm.trans (receiver_step_of_ne hw hrecorded h.received hstep (hother hopened)))
  exact (h.agrees hopened).of_follows (closed_step_of_receiver hw hrecorded h.received hstep
    fun habout ↦ absurd habout (hother hopened)) ((stepped hw hstep).follows hw)

/-- What the forwarder does. -/
theorem Tracked.own (h : Tracked system channelId opened f receiver) (hw : system.WellFormed)
    (hrecorded : system.Recorded l)
    (haction : action = .next f.receiver ∧ f.stage = .polling ∧ receiver.returned = f.seen ∨
      action = .poll f.receiver ∨ action = .forget f.receiver ∨ action = .proceed f.receiver)
    (hstep : system.step action = some system') :
    ∃ receiver', Tracked system' channelId opened f receiver' := by
  obtain ⟨receiver', hi', hentry, hreturned⟩ := receiver_step hw h.received hstep
  refine ⟨receiver', hi', hentry ▸ h.channel, h.seen.trans hreturned, fun hopened ↦ ?_⟩
  obtain ⟨receiver'', hi'', hagrees⟩ :=
    agrees_step hw hrecorded h.received (h.agrees hopened) haction hstep
  exact Option.some_inj.mp (hi'.symm.trans hi'') ▸ hagrees

/-! ## The channel -/

/-- The channel is of this broker, and nobody gives it up, or has asked to close it. -/
structure Leased (system : RegistrySystem) (channel : BrokerChannel) : Prop where
  recognized : system.fields.recognizes channel = true
  held : channel.id ∉ system.shared.lost
  spares : system.HolderSpares channel.id
  unclosed : ∀ channel', .closeChannel channel' ∈ system.called → channel'.id ≠ channel.id

theorem called_of_call (hw : system.WellFormed) {call : RegistryCall}
    (hstep : system.step (.call call) = some system') : call ∈ system'.called := by
  cases stepped hw hstep with
  | called _ free held eq =>
    rw [eq, called_advance]
    exact List.mem_append_right _ (List.mem_singleton_self _)
  | served i receiver receiver' s not_call => exact absurd rfl (not_call call)

theorem Leased.step (h : Leased system channel) (hw : system.WellFormed)
    (hclose : ∀ channel', .closeChannel channel' ∈ system'.called → channel'.id ≠ channel.id)
    (hdrop : action ≠ .dropChannel channel.id) (hstep : system.step action = some system') :
    Leased system' channel := by
  have hcall (channel' : BrokerChannel) (heq : action = .call (.closeChannel channel'))
      (_ : system.fields.recognizes channel' = true) : channel'.id ≠ channel.id :=
    hclose channel' (called_of_call hw (heq ▸ hstep))
  obtain ⟨hspares, hlost⟩ := keepsLease_step h.spares hw hcall hdrop hstep
  refine ⟨?_, mt hlost h.held, hspares, hclose⟩
  rw [RegistryFields.recognizes, ((stepped hw hstep).onward hw).broker]
  exact h.recognized

/-! ## A subscription that has been asked for -/

/-- The registration of a subscription takes the mutex after `answers` others, or has returned; what
it has handed out is as new. -/
structure Asking (system : RegistrySystem) (channel : BrokerChannel) (answers : ℕ) : Prop where
  asked : (system.answered.length = answers ∧ ∃ holder d c, system.holder = some holder ∧
      holder.call = .register channel d c) ∨
    ∃ d c reply, system.answered[answers]? = some (.register channel d c, reply)
  fresh : ∀ answer entry, system.answered[answers]? = some answer →
    answer.2.registered? = some entry →
    ∃ receiver, system.receivers[(handedOut (system.answered.take answers)).length]? =
      some receiver ∧
      receiver.entry.channelId = channel.id ∧ receiver.phase = .idle ∧ receiver.returned = [] ∧
      (system.shared.cells receiver.entry.subscriptionId).closed = false

theorem Asking.length_le (h : Asking system channel answers) :
    answers ≤ system.answered.length := by
  rcases h.asked with ⟨heq, -⟩ | ⟨d, c, reply, hreply⟩
  · exact heq.ge
  · exact (List.getElem?_eq_some_iff.mp hreply).1.le

/-- The registration returns. -/
theorem asking_answered (hw : system.WellFormed) (hrecorded : system.Recorded l)
    (hstep : system.step action = some system') {d : DocumentId} {c : CapabilityId}
    {reply : RegistryReply}
    (hanswered : system'.answered = system.answered ++ [(.register channel d c, reply)])
    (hreply : (reply.registered? = none ∧ system'.receivers.length = system.receivers.length) ∨
      ∃ channel' d' c' entry, RegistryCall.register channel d c = .register channel' d' c' ∧
        reply = .registered (.ok entry) ∧ entry.channelId = channel'.id ∧
        system.fields.nextSubscriptionId ≤ entry.subscriptionId ∧
        system'.receivers = system.receivers ++ [⟨entry, .idle, []⟩]) :
    Asking system' channel system.answered.length := by
  have hlast : system'.answered[system.answered.length]? = some (.register channel d c, reply) := by
    rw [hanswered, List.getElem?_concat_length]
  refine ⟨.inr ⟨d, c, reply, hlast⟩, fun answer entry hanswer hentry ↦ ?_⟩
  obtain rfl := Option.some_inj.mp (hlast.symm.trans hanswer)
  rcases hreply with ⟨hnone, -⟩ | ⟨channel', d', c', entry', hcall, rfl, hchannel, hid, hreceivers⟩
  · exact absurd (hnone.symm.trans hentry) (by simp)
  · obtain ⟨rfl, -, -⟩ := RegistryCall.register.inj hcall
    refine ⟨⟨entry', .idle, []⟩, ?_, hchannel, rfl, rfl, opened_step hw hrecorded hstep hid⟩
    rw [hanswered, List.take_left, hrecorded.booked.handed, List.length_map, hreceivers,
      List.getElem?_concat_length]

/-- **The answer comes, and nobody else touches what has been handed out.** -/
theorem Asking.step (h : Asking system channel answers) (hw : system.WellFormed)
    (hrecorded : system.Recorded l) (hstep : system.step action = some system')
    (hother : ∀ answer entry, system.answered[answers]? = some answer →
      answer.2.registered? = some entry →
        action.receiver? ≠ some (handedOut (system.answered.take answers)).length) :
    Asking system' channel answers ∧
      system'.answered.take answers = system.answered.take answers := by
  have honward := (stepped hw hstep).onward hw
  obtain ⟨new, hnew⟩ : system.answered <+: system'.answered := by
    rcases honward.answered with ⟨hsame, -⟩ | ⟨call, reply, -, -, hanswered, -⟩
    · exact hsame ▸ List.prefix_refl _
    · exact hanswered ▸ List.prefix_append _ _
  have htake : system'.answered.take answers = system.answered.take answers := by
    rw [← hnew, List.take_append_of_le_length h.length_le]
  refine ⟨?_, htake⟩
  by_cases hdone : answers < system.answered.length
  · -- it has been answered before
    have hget : system'.answered[answers]? = system.answered[answers]? := by
      rw [← hnew, List.getElem?_append_left hdone]
    refine ⟨.inr ?_, fun answer entry hanswer hentry ↦ ?_⟩
    · rw [hget]
      exact h.asked.resolve_left fun hor ↦ absurd hor.1 (Nat.ne_of_gt hdone)
    · rw [hget] at hanswer
      obtain ⟨receiver, hi, hchannel, hidle, hreturned, hopened⟩ :=
        h.fresh answer entry hanswer hentry
      have hne := hother answer entry hanswer hentry
      refine ⟨receiver, htake ▸ receiver_step_of_ne hw hrecorded hi hstep hne, hchannel, hidle,
        hreturned, Bool.eq_false_of_not_eq_true fun hclosed ↦ ?_⟩
      exact absurd (hopened.symm.trans (closed_step_of_receiver hw hrecorded hi hstep
        (fun habout ↦ absurd habout hne) hclosed)) (by simp)
  · obtain rfl : answers = system.answered.length := h.length_le.antisymm (Nat.not_lt.mp hdone)
    obtain ⟨holder, d, c, hholder, hcall⟩ : ∃ holder d c, system.holder = some holder ∧
        holder.call = .register channel d c := by
      rcases h.asked with ⟨-, hasked⟩ | ⟨d, c, reply, hreply⟩
      · exact hasked
      · exact absurd (List.getElem?_eq_some_iff.mp hreply).1 (lt_irrefl _)
    have htakes : system.Takes action (.register channel d c) := .inr ⟨holder, hholder, hcall⟩
    rcases honward.answered with ⟨hsame, -, hholds⟩ | ⟨call, reply, hcalled, -, hanswered, hreply⟩
    · obtain ⟨holder', hholder', hcall'⟩ := hholds _ htakes
      refine ⟨.inl ⟨congrArg _ hsame, holder', d, c, hholder', hcall'⟩,
        fun answer entry hanswer ↦ ?_⟩
      rw [hsame] at hanswer
      exact absurd (List.getElem?_eq_some_iff.mp hanswer).1 (lt_irrefl _)
    · obtain rfl := hcalled.eq htakes
      exact asking_answered hw hrecorded hstep hanswered hreply

end Registry

/-! ## In the store -/

section Store

variable {sha256 : List UInt8 → Bytes verifierLength} {t t' : SharedStore} {action : SharedAction}
  {opened : Prop} {channel : BrokerChannel} {answers : ℕ}

theorem receiver?_of_not_byUser {action : RegistryAction} (h : action.byUser = false) :
    action.receiver? = none := by
  cases action with
  | call call | work | dropChannel channelId => rfl
  | next i | poll i | forget i | cancel i | drop i | proceed i =>
    exact absurd h (by simp [RegistryAction.byUser])

theorem Tracked.shared (h : Tracked t.registry channelId opened f receiver)
    (hreached : t.Reached sha256) (hstep : t.step sha256 action = some t')
    (hother : opened → ∀ action', action = .user action' → action'.receiver? ≠ some f.receiver) :
    ∃ receiver', Tracked t'.registry channelId opened f receiver' := by
  obtain ⟨hw, l, hrecorded⟩ := hreached.recorded
  rcases SharedStore.registry_step hreached.inOrder hstep with hsame | ⟨action', hfrom, hregistry⟩
  · exact ⟨receiver, hsame ▸ h⟩
  refine h.step hw hrecorded hregistry fun hopened ↦ ?_
  rcases hfrom with ⟨rfl, -⟩ | ⟨hnot, -⟩
  · exact hother hopened action' rfl
  · rw [receiver?_of_not_byUser hnot]
    simp

theorem Leased.shared (h : Leased t.registry channel) (hreached : t.Reached sha256)
    (hclose : action ≠ .request (.closeChannel channel))
    (hdrop : action ≠ .user (.dropChannel channel.id)) (hstep : t.step sha256 action = some t') :
    Leased t'.registry channel := by
  have hunclosed : ∀ channel', .closeChannel channel' ∈ t'.registry.called →
      channel'.id ≠ channel.id := by
    intro channel' hcall
    rcases hreached.closes hstep hcall with hold | ⟨heq, hrecognized⟩
    · exact h.unclosed channel' hold
    · intro hid
      obtain rfl : channel' = channel := BrokerChannel.ext
        ((of_decide_eq_true hrecognized).symm.trans (of_decide_eq_true h.recognized)) hid
      exact hclose heq
  rcases SharedStore.registry_step hreached.inOrder hstep with hsame | ⟨action', hfrom, hregistry⟩
  · exact hsame ▸ h
  refine h.step hreached.recorded.1 hunclosed ?_ hregistry
  rcases hfrom with ⟨rfl, -⟩ | ⟨hnot, -⟩
  · exact fun heq ↦ hdrop (congrArg _ heq)
  · rintro rfl
    exact absurd hnot (by simp [RegistryAction.byUser])

theorem Asking.shared (h : Asking t.registry channel answers) (hreached : t.Reached sha256)
    (hstep : t.step sha256 action = some t')
    (hother : ∀ answer entry, t.registry.answered[answers]? = some answer →
      answer.2.registered? = some entry → ∀ action', action = .user action' →
        action'.receiver? ≠ some (handedOut (t.registry.answered.take answers)).length) :
    Asking t'.registry channel answers ∧
      t'.registry.answered.take answers = t.registry.answered.take answers := by
  obtain ⟨hw, l, hrecorded⟩ := hreached.recorded
  rcases SharedStore.registry_step hreached.inOrder hstep with hsame | ⟨action', hfrom, hregistry⟩
  · rw [hsame]
    exact ⟨h, rfl⟩
  refine h.step hw hrecorded hregistry fun answer entry hanswer hentry ↦ ?_
  rcases hfrom with ⟨rfl, -⟩ | ⟨hnot, -⟩
  · exact hother answer entry hanswer hentry action' rfl
  · rw [receiver?_of_not_byUser hnot]
    simp

/-- A subscription is asked for. -/
theorem asking_subscribe (hreached : t.Reached sha256) {d : DocumentId} {c : CapabilityId}
    {a : Authenticator}
    (hcall : (t.store.registryCall? sha256 (.subscribe ⟨channel, d, c, a⟩)).isSome = true)
    (hstep : t.step sha256 (.request (.subscribe ⟨channel, d, c, a⟩)) = some t') :
    Asking t'.registry channel t.registry.answered.length ∧
      t'.registry.answered.take t.registry.answered.length = t.registry.answered := by
  obtain ⟨hw, l, hrecorded⟩ := hreached.recorded
  obtain ⟨hfree, hregistry⟩ : t.registry.holder = none ∧
      t.registry.step (.call (.register channel d c)) = some t'.registry := by
    rw [SharedStore.step] at hstep
    split at hstep
    · rename_i hguard
      refine ⟨Option.isNone_iff_eq_none.mp hguard.1, ?_⟩
      rw [SharedStore.take] at hstep
      rw [DurableUpdateStore.registryCall?] at hcall hstep
      split at hstep
      · obtain ⟨registry, hregistry, rfl⟩ := Option.map_eq_some_iff.mp hstep
        exact hregistry
      · exact absurd hcall (by simp [*])
    · exact absurd hstep (by simp)
  have htakes : t.registry.Takes (.call (.register channel d c)) (.register channel d c) :=
    .inl ⟨rfl, hfree⟩
  rcases ((RegistrySystem.stepped hw hregistry).onward hw).answered with ⟨hsame, -, hholds⟩ |
    ⟨call, reply, hcalled, -, hanswered, hreply⟩
  · obtain ⟨holder, hholder, hcall⟩ := hholds _ htakes
    refine ⟨⟨.inl ⟨congrArg _ hsame, holder, d, c, hholder, hcall⟩, fun answer entry hanswer ↦ ?_⟩,
      by rw [hsame, List.take_length]⟩
    rw [hsame] at hanswer
    exact absurd (List.getElem?_eq_some_iff.mp hanswer).1 (lt_irrefl _)
  · obtain rfl := hcalled.eq htakes
    exact ⟨asking_answered hw hrecorded hregistry hanswered hreply, by
      rw [hanswered, List.take_left]⟩

end Store

/-! ## The connection -/

namespace System

variable {sha256 : List UInt8 → Bytes verifierLength} {m m' : System}

variable (sha256) in
/-- What holds after every run. -/
structure Kept (m : System) : Prop where
  reached : m.shared.Reached sha256
  link : m.link.Sound
  leased : m.link.phase ≠ .ended → Leased m.shared.registry m.channel
  tracked : ∀ f ∈ m.link.forwarders, ∃ receiver,
    Tracked m.shared.registry m.channel.id (m.link.phase ≠ .ended) f receiver
  distinct : (m.link.forwarders.map Forwarder.receiver).Nodup
  asking : ∀ answers, m.link.phase = .subscribing answers →
    Asking m.shared.registry m.channel answers ∧
      ∀ f ∈ m.link.forwarders, f.receiver < m.ticket answers
  looks : Looks m.check

theorem owns_of_mem (h : f ∈ m.link.forwarders) : m.owns f.receiver = true := by
  rw [owns, Bool.or_eq_true]
  exact .inl (List.any_eq_true.mpr ⟨f, h, decide_eq_true rfl⟩)

theorem owns_of_asking {answers : ℕ} (hphase : m.link.phase = .subscribing answers)
    {answer : RegistryCall × RegistryReply} {entry : SubscriptionEntry}
    (hanswer : m.shared.registry.answered[answers]? = some answer)
    (hentry : answer.2.registered? = some entry) : m.owns (m.ticket answers) = true := by
  rw [owns, hphase, Bool.or_eq_true]
  exact .inr (by simp [hanswer, hentry])

/-- What the others may do while the connection is open. -/
theorem spared_of_permits {action : SharedAction} (h : m.permits action = true)
    (hopen : m.link.phase ≠ .ended) : action ≠ .request (.closeChannel m.channel) ∧
      action ≠ .user (.dropChannel m.channel.id) ∧
        ∀ action' i, action = .user action' → action'.receiver? = some i → m.owns i = false := by
  rw [permits, Bool.and_eq_true, Bool.or_eq_true, decide_eq_true_eq, Bool.not_eq_true'] at h
  have hspared := h.2.resolve_left hopen
  refine ⟨?_, ?_, ?_⟩
  · rintro rfl
    exact absurd hspared (by simp [disturbs])
  · rintro rfl
    exact absurd hspared (by simp [disturbs])
  · rintro action' i rfl habout
    cases action' with
    | call call | work | dropChannel channelId =>
      exact absurd habout (by simp [RegistryAction.receiver?])
    | next j | poll j | forget j | cancel j | drop j | proceed j =>
      obtain rfl := Option.some_inj.mp habout
      simpa [disturbs, RegistryAction.receiver?] using hspared

/-- Somebody else does something. -/
theorem Kept.others (h : m.Kept sha256) {action : SharedAction}
    (hstep : m.others sha256 action = some m') : m'.Kept sha256 := by
  rw [System.others] at hstep
  split at hstep
  · rename_i hpermits
    obtain ⟨shared, hshared, rfl⟩ := Option.map_eq_some_iff.mp hstep
    have hspared := spared_of_permits hpermits
    refine ⟨h.reached.step hshared, h.link, fun hopen ↦ ?_, fun f hmem ↦ ?_, h.distinct,
      fun answers hphase ↦ ?_, h.looks⟩
    · obtain ⟨hclose, hdrop, -⟩ := hspared hopen
      exact (h.leased hopen).shared h.reached hclose hdrop hshared
    · obtain ⟨receiver, htracked⟩ := h.tracked f hmem
      refine htracked.shared h.reached hshared fun hopen action' heq habout ↦ ?_
      have howns : m.owns f.receiver = true := owns_of_mem hmem
      exact absurd (howns.symm.trans ((hspared hopen).2.2 action' _ heq habout)) (by simp)
    · have hopen : m.link.phase ≠ .ended := fun heq ↦ absurd (hphase.symm.trans heq) (by simp)
      obtain ⟨hasking, hbelow⟩ := h.asking answers hphase
      obtain ⟨hasking', htake⟩ := hasking.shared h.reached hshared
        fun answer entry hanswer hentry action' heq habout ↦ by
          have howns : m.owns (m.ticket answers) = true := owns_of_asking hphase hanswer hentry
          exact absurd (howns.symm.trans ((hspared hopen).2.2 action' _ heq habout)) (by simp)
      refine ⟨hasking', fun f hmem ↦ ?_⟩
      rw [ticket, htake]
      exact hbelow f hmem
  · exact absurd hstep (by simp)

/-- A subscription is asked for. -/
theorem Kept.subscribe (h : m.Kept sha256) {d : DocumentId} {c : CapabilityId} {a : Authenticator}
    (hstep : m.subscribe sha256 d c a = some m') : m'.Kept sha256 := by
  rw [System.subscribe] at hstep
  split at hstep
  · rename_i hcall
    obtain ⟨link, hlink, hstep⟩ := Option.bind_eq_some_iff.mp hstep
    obtain ⟨shared, hshared, rfl⟩ := Option.map_eq_some_iff.mp hstep
    have hsound := h.link.step hlink
    obtain ⟨hserving, rfl⟩ : m.link.phase = .serving ∧ link =
        { m.link with phase := .subscribing m.shared.registry.answered.length } := by
      cases Link.stepped hlink with
      | subscribe answers serving => exact ⟨serving, rfl⟩
      | forward k f f' new opened was moves => cases moves
    have hopen : m.link.phase ≠ .ended := by simp [hserving]
    obtain ⟨hasking, htake⟩ := asking_subscribe h.reached hcall hshared
    refine ⟨h.reached.step hshared, hsound, fun _ ↦ (h.leased hopen).shared h.reached (by simp)
      (by simp) hshared, fun f hmem ↦ ?_, h.distinct, fun answers hphase ↦ ?_, h.looks⟩
    · obtain ⟨receiver, htracked⟩ := h.tracked f hmem
      obtain ⟨receiver', htracked'⟩ := htracked.shared h.reached hshared (by simp)
      exact ⟨receiver', htracked'.imp fun _ ↦ hopen⟩
    · obtain rfl := LinkPhase.subscribing.inj hphase
      refine ⟨hasking, fun f hmem ↦ ?_⟩
      obtain ⟨receiver, htracked⟩ := h.tracked f hmem
      obtain ⟨-, l, hrecorded⟩ := h.reached.recorded
      rw [ticket, htake, hrecorded.booked.handed, List.length_map]
      exact (List.getElem?_eq_some_iff.mp htracked.received).1
  · exact absurd hstep (by simp)

/-- A check that goes on changes nothing but how far it is. -/
theorem look_spec (hlooks : Looks m.check) (hstep : m.look = some m') :
    ∃ k u o next, m.link.phase = .checking k u ∧ m.check = .access o next ∧
      Looks m'.check ∧ m' = { m with check := next (m.shared.registry.shared.exec o).1 } := by
  rw [System.look] at hstep
  split at hstep
  · rename_i k u o next hphase hcheck
    rw [hcheck] at hlooks
    obtain ⟨hsame, hlooks⟩ := hlooks.access m.shared.registry.shared
    dsimp only at hstep
    rw [hsame] at hstep
    obtain rfl := Option.some_inj.mp hstep
    exact ⟨k, u, o, next, hphase, hcheck, hlooks, rfl⟩
  · exact absurd hstep (by simp)

theorem Kept.look (h : m.Kept sha256) (hstep : m.look = some m') : m'.Kept sha256 := by
  obtain ⟨k, u, o, next, -, -, hlooks, rfl⟩ := look_spec h.looks hstep
  exact { h with looks := hlooks }

/-! ### What the connection does -/

theorem receiver?_eq_some_iff : m.receiver? k = some receiver ↔
    ∃ f, m.link.forwarders[k]? = some f ∧ m.shared.registry.receivers[f.receiver]? =
      some receiver :=
  Option.bind_eq_some_iff

theorem Kept.receiver_ne (h : m.Kept sha256) {j : ℕ} (hj : m.link.forwarders[j]? = some f')
    (hk : m.link.forwarders[k]? = some f) (hne : j ≠ k) : f.receiver ≠ f'.receiver := by
  intro heq
  have hlt : j < (m.link.forwarders.map Forwarder.receiver).length := by
    rw [List.length_map]
    exact (List.getElem?_eq_some_iff.mp hj).1
  refine hne ((List.getElem?_inj hlt h.distinct).mp ?_)
  rw [List.getElem?_map, List.getElem?_map, hj, hk, Option.map_some, Option.map_some, heq]

/-- The connection does something with the receiver of a forwarder, which may have gone on. -/
theorem Kept.own (h : m.Kept sha256) (hopen : m.link.phase ≠ .ended)
    (hk : m.link.forwarders[k]? = some f) {link : Link} (hlink : link.Sound)
    (hphase : link.phase = m.link.phase)
    (hforwarders : link.forwarders = m.link.forwarders.set k f')
    (hreceiver : f'.receiver = f.receiver) {shared : SharedStore}
    (hshared : shared = m.shared ∨ ∃ action : RegistryAction, action.receiver? = some f.receiver ∧
      m.shared.step sha256 (.user action) = some shared)
    (hown : ∃ receiver, Tracked shared.registry m.channel.id (m.link.phase ≠ .ended) f' receiver) :
    { m with link, shared }.Kept sha256 := by
  have hdistinct : link.forwarders.map Forwarder.receiver =
      m.link.forwarders.map Forwarder.receiver := by
    obtain ⟨hlt, hget⟩ := List.getElem?_eq_some_iff.mp hk
    rw [hforwarders, List.map_set, hreceiver, ← hget]
    exact (congrArg _ (List.getElem_map ..).symm).trans (List.set_getElem_self (by simpa using hlt))
  have hmem : f ∈ m.link.forwarders := List.mem_of_getElem? hk
  -- what the others have
  have hothers {j : ℕ} {g : Forwarder} (hj : m.link.forwarders[j]? = some g) (hne : j ≠ k) :
      ∃ receiver, Tracked shared.registry m.channel.id (m.link.phase ≠ .ended) g receiver := by
    obtain ⟨receiver, htracked⟩ := h.tracked g (List.mem_of_getElem? hj)
    rcases hshared with rfl | ⟨action, habout, hstep⟩
    · exact ⟨receiver, htracked⟩
    · refine htracked.shared h.reached hstep fun _ action' heq habout' ↦ ?_
      obtain rfl := SharedAction.user.inj heq
      exact h.receiver_ne hj hk hne (Option.some_inj.mp (habout.symm.trans habout'))
  refine ⟨?_, hlink, fun _ ↦ ?_, fun g hg ↦ ?_, hdistinct ▸ h.distinct, fun answers heq ↦ ?_,
    h.looks⟩
  · rcases hshared with rfl | ⟨action, -, hstep⟩
    · exact h.reached
    · exact h.reached.step hstep
  · rcases hshared with rfl | ⟨action, habout, hstep⟩
    · exact h.leased hopen
    · refine (h.leased hopen).shared h.reached (by simp) (fun heq ↦ ?_) hstep
      obtain rfl := SharedAction.user.inj heq
      exact absurd habout (by simp [RegistryAction.receiver?])
  · have hg : g ∈ link.forwarders := hg
    obtain ⟨j, hj⟩ := List.getElem?_of_mem hg
    rw [hforwarders] at hj
    by_cases hjk : j = k
    · subst hjk
      rw [List.getElem?_set_self (List.getElem?_eq_some_iff.mp hk).1] at hj
      obtain ⟨receiver, htracked⟩ := hown
      exact ⟨receiver, Option.some_inj.mp hj ▸ htracked.imp fun _ ↦ hopen⟩
    · rw [List.getElem?_set_ne (Ne.symm hjk)] at hj
      obtain ⟨receiver, htracked⟩ := hothers hj hjk
      exact ⟨receiver, htracked.imp fun _ ↦ hopen⟩
  · obtain ⟨hasking, hbelow⟩ := h.asking answers (hphase.symm.trans heq)
    have hbelow' (htake : shared.registry.answered.take answers =
      m.shared.registry.answered.take answers) :
        ∀ g ∈ link.forwarders,
          g.receiver < (handedOut (shared.registry.answered.take answers)).length := by
      intro g hg
      rw [htake]
      have hgr : g.receiver ∈ m.link.forwarders.map Forwarder.receiver :=
        hdistinct ▸ List.mem_map_of_mem hg
      obtain ⟨g', hg', hsame⟩ := List.mem_map.mp hgr
      exact hsame ▸ hbelow g' hg'
    rcases hshared with rfl | ⟨action, habout, hstep⟩
    · exact ⟨hasking, hbelow' rfl⟩
    · obtain ⟨hasking', htake⟩ := hasking.shared h.reached hstep
        fun answer entry hanswer hentry action' heq habout' ↦ by
          obtain rfl := SharedAction.user.inj heq
          exact absurd (Option.some_inj.mp (habout.symm.trans habout')) (hbelow f hmem).ne
      exact ⟨hasking', hbelow' htake⟩

/-- A forwarder goes on with its `next`. -/
theorem Kept.user (h : m.Kept sha256) (hopen : m.link.phase ≠ .ended)
    (hk : m.link.forwarders[k]? = some f) {action : RegistryAction}
    (haction : (action = .next f.receiver ∧ f.stage = .polling ∧
        ∀ receiver, m.shared.registry.receivers[f.receiver]? = some receiver →
          receiver.returned = f.seen) ∨
      action = .poll f.receiver ∨ action = .forget f.receiver ∨ action = .proceed f.receiver)
    {shared : SharedStore} (hstep : m.shared.step sha256 (.user action) = some shared) :
    { m with shared }.Kept sha256 := by
  obtain ⟨hw, l, hrecorded⟩ := h.reached.recorded
  obtain ⟨receiver, htracked⟩ := h.tracked f (List.mem_of_getElem? hk)
  obtain ⟨registry, hregistry, rfl⟩ := SharedStore.step_user hstep
  have hlt := (List.getElem?_eq_some_iff.mp hk)
  have hsame : m.link.forwarders = m.link.forwarders.set k f := by
    rw [← hlt.2, List.set_getElem_self]
  refine h.own hopen hk h.link rfl hsame rfl (.inr ⟨action, ?_, hstep⟩)
    (htracked.own hw hrecorded ?_ hregistry)
  · rcases haction with ⟨rfl, -⟩ | rfl | rfl | rfl <;> rfl
  · exact haction.imp (fun hnext ↦ ⟨hnext.1, hnext.2.1, hnext.2.2 receiver htracked.received⟩) id

theorem user_eq_some_iff {action : ℕ → RegistryAction} : m.user sha256 k action = some m' ↔
    ∃ f shared, m.link.forwarders[k]? = some f ∧
      m.shared.step sha256 (.user (action f.receiver)) = some shared ∧ m' = { m with shared } := by
  rw [System.user, Option.bind_eq_some_iff]
  constructor
  · rintro ⟨f, hk, hstep⟩
    obtain ⟨shared, hshared, rfl⟩ := Option.map_eq_some_iff.mp hstep
    exact ⟨f, shared, hk, hshared, rfl⟩
  · rintro ⟨f, shared, hk, hshared, rfl⟩
    exact ⟨f, hk, Option.map_eq_some_iff.mpr ⟨shared, hshared, rfl⟩⟩

theorem Kept.poll (h : m.Kept sha256) (hstep : m.poll sha256 k = some m') : m'.Kept sha256 := by
  rw [System.poll] at hstep
  split at hstep
  · rename_i f receiver hk hreceiver
    split at hstep
    · rename_i hguard
      obtain ⟨f', hk', hi⟩ := receiver?_eq_some_iff.mp hreceiver
      obtain rfl := Option.some_inj.mp (hk.symm.trans hk')
      split at hstep
      · split at hstep
        · rename_i hreturned
          obtain ⟨f', shared, hk', hshared, rfl⟩ := user_eq_some_iff.mp hstep
          obtain rfl := Option.some_inj.mp (hk.symm.trans hk')
          refine h.user hguard.1 hk (.inl ⟨rfl, hguard.2.1, fun receiver' hi' ↦ ?_⟩) hshared
          exact Option.some_inj.mp (hi.symm.trans hi') ▸ hreturned
        · exact absurd hstep (by simp)
      · obtain ⟨f', shared, hk', hshared, rfl⟩ := user_eq_some_iff.mp hstep
        obtain rfl := Option.some_inj.mp (hk.symm.trans hk')
        exact h.user hguard.1 hk (.inr (.inl rfl)) hshared
      · exact absurd hstep (by simp)
    · exact absurd hstep (by simp)
  · exact absurd hstep (by simp)

theorem Kept.forget (h : m.Kept sha256) (hstep : m.forget sha256 k = some m') : m'.Kept sha256 := by
  rw [System.forget] at hstep
  split at hstep
  · split at hstep
    · rename_i hguard
      obtain ⟨f, shared, hk, hshared, rfl⟩ := user_eq_some_iff.mp hstep
      exact h.user hguard.1 hk (.inr (.inr (.inl rfl))) hshared
    · exact absurd hstep (by simp)
  · exact absurd hstep (by simp)

theorem Kept.proceed (h : m.Kept sha256) (hopen : m.link.phase ≠ .ended)
    (hstep : m.user sha256 k .proceed = some m') : m'.Kept sha256 := by
  obtain ⟨f, shared, hk, hshared, rfl⟩ := user_eq_some_iff.mp hstep
  exact h.user hopen hk (.inr (.inr (.inr rfl))) hshared

/-! ### What the loop and the forwarders do -/

theorem looks_authorized (entry : SubscriptionEntry) : Looks (authorizedProgram entry) := by
  have hupgrade : Looks (upgrade entry.channelId) :=
    looks_perform (show SharedAccess.Looks (.upgrade entry.channelId) from trivial)
  have hload : Looks (load entry.subscriptionId) :=
    looks_perform (show SharedAccess.Looks (.load entry.subscriptionId) from trivial)
  refine hupgrade.bind fun alive ↦ ?_
  split
  · exact looks_pure _
  · exact hload.bind fun state ↦ looks_pure _

theorem looks_checkAfter (h : Looks m.check) (action : LinkAction) :
    Looks (m.checkAfter action) := by
  unfold checkAfter
  split
  · cases m.receiver? _ with
    | none => exact looks_pure false
    | some receiver => exact looks_authorized receiver.entry
  · exact h

/-- The loop goes on, and the forwarders stay at what they are. -/
theorem Kept.onward (h : m.Kept sha256) (hopen : m.link.phase ≠ .ended) {link : Link}
    {check : SharedProgram Bool} (hlink : link.Sound) (hlooks : Looks check)
    (hphase : ∀ answers, link.phase ≠ .subscribing answers)
    (hreceivers : link.forwarders.map Forwarder.receiver = m.link.forwarders.map Forwarder.receiver)
    (hforwarders : ∀ f' ∈ link.forwarders, ∃ f ∈ m.link.forwarders,
      f'.receiver = f.receiver ∧ f'.stage = f.stage ∧ f'.seen = f.seen) :
    { m with link, check }.Kept sha256 := by
  refine ⟨h.reached, hlink, fun _ ↦ h.leased hopen, fun f' hmem ↦ ?_, hreceivers ▸ h.distinct,
    fun answers heq ↦ absurd heq (hphase answers), hlooks⟩
  obtain ⟨f, hf, hreceiver, hstage, hseen⟩ := hforwarders f' hmem
  obtain ⟨receiver, htracked⟩ := h.tracked f hf
  exact ⟨receiver, (htracked.imp fun _ ↦ hopen).congr hreceiver hstage hseen⟩

/-- A subscription is acknowledged. -/
theorem Kept.acknowledge (h : m.Kept sha256) {answers i : ℕ}
    (hphase : m.link.phase = .subscribing answers) (hsees : m.sees (.acknowledge i) = true)
    (hlink : ({ m.link with
      forwarders := m.link.forwarders ++ [Forwarder.start i]
      active := m.link.active ++ [m.link.forwarders.length] }.settle
        (.acknowledgement m.link.forwarders.length) true).Sound) :
    { m with link := ({ m.link with
      forwarders := m.link.forwarders ++ [Forwarder.start i]
      active := m.link.active ++ [m.link.forwarders.length] }.settle
        (.acknowledgement m.link.forwarders.length) true) }.Kept sha256 := by
  have hopen : m.link.phase ≠ .ended := by simp [hphase]
  obtain ⟨hasking, hbelow⟩ := h.asking answers hphase
  obtain ⟨rfl, answer, hanswer, hregistered⟩ : i = m.ticket answers ∧ ∃ answer,
      m.shared.registry.answered[answers]? = some answer ∧ answer.2.registered?.isSome := by
    simp only [sees, hphase, Bool.and_eq_true, decide_eq_true_eq, Option.any_eq_true] at hsees
    exact hsees
  obtain ⟨entry, hentry⟩ := Option.isSome_iff_exists.mp hregistered
  obtain ⟨receiver, hi, hchannel, hidle, hreturned, hopened⟩ :=
    hasking.fresh answer entry hanswer hentry
  refine ⟨h.reached, hlink, fun _ ↦ h.leased hopen, fun f hmem ↦ ?_, ?_, fun answers' heq ↦ ?_,
    h.looks⟩
  · rcases List.mem_append.mp hmem with hold | hnew
    · obtain ⟨receiver', htracked⟩ := h.tracked f hold
      exact ⟨receiver', htracked.imp fun _ ↦ hopen⟩
    · obtain rfl := List.mem_singleton.mp hnew
      exact ⟨receiver, hi, hchannel, List.nil_prefix, fun _ ↦
        Forwarder.agrees_start hidle hopened hreturned _⟩
  · change ((m.link.forwarders ++ [Forwarder.start _]).map Forwarder.receiver).Nodup
    rw [List.map_append, List.nodup_append]
    refine ⟨h.distinct, List.nodup_singleton _, fun i hold i' hnew heq ↦ ?_⟩
    obtain ⟨f, hf, rfl⟩ := List.mem_map.mp hold
    exact absurd (heq.trans (List.mem_singleton.mp hnew)) (hbelow f hf).ne
  · exact absurd heq (by simp [Link.settle, Link.retain])

theorem rests_spec {p : Forwarder → Receiver → Bool} (h : m.rests k p = true) :
    ∃ f receiver, m.link.forwarders[k]? = some f ∧
      m.shared.registry.receivers[f.receiver]? = some receiver ∧ receiver.phase = .idle ∧
        p f receiver = true := by
  rw [rests] at h
  split at h
  · rename_i f receiver hk hreceiver
    obtain ⟨f', hk', hi⟩ := receiver?_eq_some_iff.mp hreceiver
    obtain rfl := Option.some_inj.mp (hk.symm.trans hk')
    split at h
    · exact ⟨f, receiver, hk, hi, ‹_›, h⟩
    · exact absurd h (by simp)
  · exact absurd h (by simp)

/-- What follows depends on the stage. -/
theorem follow_eq (hstage : m.link.forwarders[k]?.map Forwarder.stage = some f.stage) :
    (f.stage = .overflowing ∨ f.stage = .cancelling →
      m.follow sha256 k = m.user sha256 k .cancel) ∧
    (f.stage = .returning → m.follow sha256 k = m.user sha256 k .drop) ∧
    (f.stage = .polling → m.follow sha256 k = some m) := by
  rw [System.follow, hstage]
  refine ⟨?_, fun heq ↦ by rw [heq], fun heq ↦ by rw [heq]⟩
  rintro (heq | heq) <;> rw [heq]

/-- A forwarder goes on to cancel its subscription, or to drop it once it has ended. -/
theorem Kept.follow (h : m.Kept sha256) (hopen : m.link.phase ≠ .ended)
    (hk : m.link.forwarders[k]? = some f)
    (hi : m.shared.registry.receivers[f.receiver]? = some receiver) {link : Link}
    (hlink : link.Sound) (hphase : link.phase = m.link.phase)
    (hforwarders : link.forwarders = m.link.forwarders.set k f')
    (hreceiver : f'.receiver = f.receiver)
    (hseen : f'.seen <+: receiver.returned)
    (hstage : (f'.stage = .overflowing ∨ f'.stage = .cancelling) ∨
      f'.stage = .returning ∧ Ended receiver.entry m.shared.registry.shared)
    (hstep : { m with link }.follow sha256 k = some m') : m'.Kept sha256 := by
  have hlt := (List.getElem?_eq_some_iff.mp hk).1
  have hk' : link.forwarders[k]? = some f' := by rw [hforwarders, List.getElem?_set_self hlt]
  obtain ⟨receiver', htracked⟩ := h.tracked f (List.mem_of_getElem? hk)
  obtain rfl := Option.some_inj.mp (hi.symm.trans htracked.received)
  -- the receiver is being cancelled
  have hcancels (dropping : Bool) {action : RegistryAction}
      (haction : action = if dropping then .drop f.receiver else .cancel f.receiver)
      {shared : SharedStore} (hshared : m.shared.step sha256 (.user action) = some shared)
      (hagrees : f'.Agrees { receiver with
        phase := .cancelling dropping (cancelProgram receiver.entry) } m.shared.registry.shared) :
      { m with link, shared }.Kept sha256 := by
    obtain ⟨registry, hregistry, rfl⟩ := SharedStore.step_user hshared
    have habout : action.receiver? = some f.receiver := by
      rw [haction]
      split <;> rfl
    obtain ⟨-, rfl⟩ := RegistrySystem.step_cancel hi haction hregistry
    refine h.own hopen hk hlink hphase hforwarders hreceiver (.inr ⟨action, habout, hshared⟩)
      ⟨{ receiver with phase := .cancelling dropping (cancelProgram receiver.entry) }, ?_,
        htracked.channel, hseen, fun _ ↦ hagrees⟩
    rw [hreceiver]
    exact List.getElem?_set_self (List.getElem?_eq_some_iff.mp hi).1
  obtain ⟨hcancel, hdrop, -⟩ := follow_eq (m := { m with link })
    (congrArg (Option.map Forwarder.stage) hk')
  rcases hstage with hstage | ⟨hstage, hended⟩
  · rw [hcancel hstage] at hstep
    obtain ⟨g, shared, hg, hshared, rfl⟩ := user_eq_some_iff.mp hstep
    obtain rfl := Option.some_inj.mp (hk'.symm.trans hg)
    rw [hreceiver] at hshared
    exact hcancels false rfl hshared (.ending hstage (.inl ⟨_, rfl⟩))
  · rw [hdrop hstage] at hstep
    obtain ⟨g, shared, hg, hshared, rfl⟩ := user_eq_some_iff.mp hstep
    obtain rfl := Option.some_inj.mp (hk'.symm.trans hg)
    rw [hreceiver] at hshared
    exact hcancels true rfl hshared
      (.ended (by simp [Forwarder.closed, hstage]) hended (.inl ⟨_, rfl⟩))

/-- A forwarder goes on. -/
theorem Kept.forward (h : m.Kept sha256) {action : LinkAction} (hsees : m.sees action = true)
    (hopen : m.link.phase ≠ .ended) (hk : m.link.forwarders[k]? = some f) {new : List Message}
    (hmoves : f.Moves k action new f') {link : Link} (hlink : link.Sound)
    (hphase : link.phase = m.link.phase)
    (hforwarders : link.forwarders = m.link.forwarders.set k f')
    (hstep : (match action.forwarder? with
      | some k => { m with link }.follow sha256 k
      | none => some { m with link, check := m.checkAfter action }) = some m') :
        m'.Kept sha256 := by
  obtain ⟨hw, l, hrecorded⟩ := h.reached.recorded
  obtain ⟨receiver, htracked⟩ := h.tracked f (List.mem_of_getElem? hk)
  have hagrees := htracked.agrees hopen
  have hmem := List.mem_of_getElem? htracked.received
  -- what is seen of the receiver is seen of this one
  have hrests {p : Forwarder → Receiver → Bool} (hp : m.rests k p = true) :
      receiver.phase = .idle ∧ p f receiver = true := by
    obtain ⟨g, other, hg, hother, hidle, hp⟩ := rests_spec hp
    obtain rfl := Option.some_inj.mp (hk.symm.trans hg)
    obtain rfl := Option.some_inj.mp (htracked.received.symm.trans hother)
    exact ⟨hidle, hp⟩
  -- an end that has been observed
  have hended {ended : UpdateSubscriptionEnd}
      (hreturned : receiver.returned = f.seen ++ [.invalidated ended]) :
      Ended receiver.entry m.shared.registry.shared := by
    have hreason := (hrecorded.booked.receivers receiver hmem).reasons ended
      (hreturned ▸ List.mem_append_right _ (List.mem_singleton_self _))
    rw [Ledger.word, hrecorded.booked.shared] at hreason
    exact fun hactive ↦ absurd hreason (by simp [hactive])
  cases hmoves with
  | sent poll message polling eq more =>
    obtain ⟨hidle, hreturned⟩ := hrests hsees
    have hreturned := of_decide_eq_true hreturned
    have hsame : some { m with link } = some m' := by
      have hstage : link.forwarders[k]?.map Forwarder.stage = some f.stage := by
        rw [hforwarders, List.getElem?_set_self (List.getElem?_eq_some_iff.mp hk).1]
        rfl
      exact ((follow_eq (m := { m with link }) hstage).2.2 polling).symm.trans hstep
    obtain rfl := Option.some_inj.mp hsame
    exact h.own hopen hk hlink hphase hforwarders rfl (.inl rfl) ⟨receiver, htracked.received,
      htracked.channel, hreturned ▸ List.prefix_refl _, fun _ ↦
        .polling polling (by rw [hidle]; rfl) (hagrees.opened polling) hreturned⟩
  | finished poll message polling eq last =>
    obtain ⟨hidle, hreturned⟩ := hrests hsees
    have hreturned := of_decide_eq_true hreturned
    obtain ⟨ended, rfl⟩ : ∃ ended, poll = .invalidated ended := by
      cases poll with
      | invalidated ended => exact ⟨ended, rfl⟩
      | notification u =>
        obtain rfl := Option.some_inj.mp eq
        exact absurd last (by simp [Message.terminal])
      | pending => exact absurd eq (by simp [message?])
    exact h.follow hopen hk htracked.received hlink hphase hforwarders rfl
      (hreturned ▸ List.prefix_refl _) (.inr ⟨rfl, hended hreturned⟩) hstep
  | silent ended full polling eq =>
    obtain ⟨hidle, hreturned⟩ := hrests hsees
    have hreturned := of_decide_eq_true hreturned
    exact h.follow hopen hk htracked.received hlink hphase hforwarders rfl
      (hreturned ▸ List.prefix_refl _) (.inr ⟨rfl, hended hreturned⟩) hstep
  | refused poll message polling eq =>
    exact h.follow hopen hk htracked.received hlink hphase hforwarders rfl htracked.seen
      (.inl (.inl rfl)) hstep
  | observeCancel polling cancelled =>
    exact h.follow hopen hk htracked.received hlink hphase hforwarders rfl htracked.seen
      (.inl (.inr rfl)) hstep
  | sendOverflow overflowing =>
    exact h.follow hopen hk htracked.received hlink hphase hforwarders rfl htracked.seen
      (.inr ⟨rfl, hagrees.ended_of_idle (hrests hsees).1 (.inl overflowing)⟩) hstep
  | abandonOverflow overflowing cancelled =>
    exact h.follow hopen hk htracked.received hlink hphase hforwarders rfl htracked.seen
      (.inr ⟨rfl, hagrees.ended_of_idle (hrests hsees).1 (.inl overflowing)⟩) hstep
  | drop cancelling =>
    exact h.follow hopen hk htracked.received hlink hphase hforwarders rfl htracked.seen
      (.inr ⟨rfl, hagrees.ended_of_idle (hrests hsees).1 (.inr cancelling)⟩) hstep
  | finish returning =>
    obtain rfl := Option.some_inj.mp hstep
    refine h.own hopen hk hlink hphase hforwarders rfl (.inl rfl) ⟨receiver, htracked.received,
      htracked.channel, htracked.seen, fun _ ↦ ?_⟩
    cases hagrees with
    | polling stage polls opened returned => exact absurd (returning.symm.trans stage) (by simp)
    | observed stage idle opened poll returned =>
      exact absurd (returning.symm.trans stage) (by simp)
    | ending stage ends => exact absurd stage (by simp [returning])
    | ended closed ended drops => exact .ended rfl ended drops

/-- The connection does something. -/
theorem Kept.connection (h : m.Kept sha256) {action : LinkAction}
    (hstep : m.connection sha256 action = some m') : m'.Kept sha256 := by
  rw [System.connection] at hstep
  split at hstep
  · rename_i hsees
    obtain ⟨link, hlink, hstep⟩ := Option.bind_eq_some_iff.mp hstep
    have hsound := h.link.step hlink
    have hlooks := looks_checkAfter h.looks action
    have hsame : ∀ f' ∈ m.link.forwarders, ∃ f ∈ m.link.forwarders,
        f'.receiver = f.receiver ∧ f'.stage = f.stage ∧ f'.seen = f.seen :=
      fun f' hmem ↦ ⟨f', hmem, rfl, rfl, rfl⟩
    cases Link.stepped hlink with
    | receive serving =>
      exact Option.some_inj.mp hstep ▸ h.onward (by simp [serving]) hsound hlooks
        (by simp) rfl hsame
    | respond asked =>
      refine Option.some_inj.mp hstep ▸ h.onward ?_ hsound hlooks
        (by simp [Link.settle, Link.retain]) rfl hsame
      rcases asked with handling | ⟨answers, subscribing⟩
      · simp [handling]
      · simp [subscribing]
    | subscribe answers serving => exact absurd hsees (by simp [sees])
    | acknowledge answers receiver subscribing =>
      exact Option.some_inj.mp hstep ▸ h.acknowledge subscribing hsees hsound
    | cancel k serving =>
      have hopen : m.link.phase ≠ .ended := by simp [serving]
      refine Option.some_inj.mp hstep ▸ h.onward hopen hsound hlooks ?_ ?_ ?_
      · rw [Link.cancel]
        split <;> simp [Link.settle, Link.retain]
      · rw [Link.cancel]
        split
        · refine List.ext_getElem? fun j ↦ ?_
          rw [List.getElem?_map, List.getElem?_map, List.getElem?_modify]
          cases m.link.forwarders[j]? with
          | none => rfl
          | some f => by_cases hj : k = j <;> simp [hj]
        · rfl
      · rw [Link.cancel]
        split
        · intro f' hmem
          obtain ⟨j, hj⟩ := List.getElem?_of_mem hmem
          rw [List.getElem?_modify] at hj
          obtain ⟨f, hf, rfl⟩ := Option.map_eq_some_iff.mp hj
          refine ⟨f, List.mem_of_getElem? hf, ?_⟩
          split <;> exact ⟨rfl, rfl, rfl⟩
        · exact hsame
    | finishCancel k f cancelling was returned =>
      exact Option.some_inj.mp hstep ▸ h.onward (by simp [cancelling]) hsound hlooks
        (by simp [Link.settle, Link.retain]) rfl hsame
    | join k f serving was returned =>
      refine Option.some_inj.mp hstep ▸ h.onward (by simp [serving]) hsound hlooks
        (by simp [Link.retain, Link.setForwarder, serving]) ?_ fun f' hmem ↦ ?_
      · obtain ⟨hlt, hget⟩ := List.getElem?_eq_some_iff.mp was
        change (m.link.forwarders.set k { f with joined := true }).map Forwarder.receiver = _
        rw [List.map_set, ← hget]
        exact (congrArg _ (List.getElem_map ..).symm).trans
          (List.set_getElem_self (by simpa using hlt))
      · rcases List.mem_or_eq_of_mem_set hmem with hold | rfl
        · exact hsame f' hold
        · exact ⟨f, List.mem_of_getElem? was, rfl, rfl, rfl⟩
    | take k u events serving waits =>
      exact Option.some_inj.mp hstep ▸ h.onward (by simp [serving]) hsound hlooks
        (by simp) rfl hsame
    | tell k message events serving waits last =>
      exact Option.some_inj.mp hstep ▸ h.onward (by simp [serving]) hsound hlooks
        (by simp [Link.settle, Link.retain]) rfl hsame
    | enter k u entering =>
      exact Option.some_inj.mp hstep ▸ h.onward (by simp [entering]) hsound hlooks
        (by simp) rfl hsame
    | authorized k u checking =>
      exact Option.some_inj.mp hstep ▸ h.onward (by simp [checking]) hsound hlooks
        (by simp) rfl hsame
    | refused k u checking =>
      exact Option.some_inj.mp hstep ▸ h.onward (by simp [checking]) hsound hlooks
        (by simp [Link.settle, Link.retain]) rfl hsame
    | written k u writing =>
      exact Option.some_inj.mp hstep ▸ h.onward (by simp [writing]) hsound hlooks
        (by simp [Link.settle, Link.retain]) rfl hsame
    | leave opened =>
      exact Option.some_inj.mp hstep ▸ h.onward opened hsound hlooks (by simp) rfl hsame
    | forward k f f' new opened was moves =>
      exact h.forward hsees opened was moves hsound rfl rfl hstep
  · exact absurd hstep (by simp)

/-- **Every step keeps it.** -/
theorem Kept.step (h : m.Kept sha256) {action : Action} (hstep : m.step sha256 action = some m') :
    m'.Kept sha256 := by
  cases action with
  | other action => exact h.others hstep
  | exclude d =>
    rw [System.step] at hstep
    split at hstep
    · exact absurd hstep (by simp)
    · exact Option.some_inj.mp hstep ▸ { h with }
  | release d =>
    rw [System.step] at hstep
    split at hstep
    · exact absurd hstep (by simp)
    · exact Option.some_inj.mp hstep ▸ { h with }
  | subscribe d c a => exact h.subscribe hstep
  | look => exact h.look hstep
  | poll k => exact h.poll hstep
  | proceed k =>
    rw [System.step] at hstep
    split at hstep
    · exact absurd hstep (by simp)
    · exact h.proceed ‹_› hstep
  | forget k => exact h.forget hstep
  | link action => exact h.connection hstep

end System

end Emission

end Renee
