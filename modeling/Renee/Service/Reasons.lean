import Renee.Service.Notices

/-!
# What a connection says of the end

* `terminal_truthful`: a terminal event tells why the subscription has ended, and it is true.
* `finished_told`: a subscription does not end in silence, unless it has been cancelled.
-/

set_option autoImplicit false

namespace Renee.Emission

open ByteString Service
open UpdateSubscriptionRegistry (UpdateSubscriptionPoll)

variable {L L' : Link} {action : LinkAction} {k : ℕ} {f : Forwarder}

/-! ## A full queue -/

/-- The queue of events is full, or its last places are kept. -/
def Link.Full (L : Link) : Prop := connectionEventQueueCapacity ≤ L.events.length + L.overflows

/-- A message is refused when the queue is full. -/
theorem Link.full_of_handle {poll : UpdateSubscriptionPoll} {message : Message}
    (hmessage : message? poll = some message) (hstep : L.step (.handle k poll true) = some L') :
    L.Full := by
  obtain ⟨-, f, -, -, hhandle⟩ := Link.task_eq_some_iff.mp hstep
  have hsend : L.trySend k f poll message true = some L' := by
    cases poll with
    | notification u => exact Option.some_inj.mp hmessage ▸ hhandle
    | invalidated ended =>
      have hterminal : terminalMessage ended = some message := hmessage
      simpa only [Link.handle, message?, hterminal] using hhandle
    | pending => exact absurd hhandle (by simp [Link.handle])
  rw [Link.trySend, if_pos rfl] at hsend
  split at hsend
  · exact absurd hsend (by simp)
  · rename_i hroom
    exact Nat.not_lt.mp hroom

/-- A forwarder for which the queue is found full. -/
theorem Link.Stepped.refusal {f' : Forwarder} (h : L.Stepped action L')
    (hk : L'.forwarders[k]? = some f') (hrefused : f'.refused = true) :
    (∃ f, L.forwarders[k]? = some f ∧ f.refused = true) ∨
      ∃ poll message, action = .handle k poll true ∧ message? poll = some message := by
  have hset {j : ℕ} {g g' : Forwarder} (hj : L.forwarders[j]? = some g)
      (hsame : g'.refused = true → g.refused = true ∨
        ∃ poll message, action = .handle j poll true ∧ message? poll = some message)
      (hk : (L.forwarders.set j g')[k]? = some f') :
      (∃ f, L.forwarders[k]? = some f ∧ f.refused = true) ∨
        ∃ poll message, action = .handle k poll true ∧ message? poll = some message := by
    by_cases heq : j = k
    · subst heq
      rw [List.getElem?_set_self (List.getElem?_eq_some_iff.mp hj).1] at hk
      obtain rfl := Option.some_inj.mp hk
      exact (hsame hrefused).imp (fun hold ↦ ⟨g, hj, hold⟩) id
    · exact .inl ⟨f', (List.getElem?_set_ne heq).symm.trans hk, hrefused⟩
  cases h with
  | acknowledge answers receiver subscribing =>
    have hk : (L.forwarders ++ [Forwarder.start receiver])[k]? = some f' := hk
    rw [List.getElem?_append] at hk
    split at hk
    · exact .inl ⟨f', hk, hrefused⟩
    · obtain rfl := List.mem_singleton.mp (List.mem_of_getElem? hk)
      exact absurd hrefused (by simp [Forwarder.start])
  | cancel k' serving =>
    rw [Link.cancel] at hk
    split at hk
    · rw [List.getElem?_modify] at hk
      obtain ⟨f, hf, rfl⟩ := Option.map_eq_some_iff.mp hk
      refine .inl ⟨f, hf, ?_⟩
      split at hrefused <;> exact hrefused
    · exact .inl ⟨f', hk, hrefused⟩
  | join k' g serving was returned =>
    have hjoined (h : ({ g with joined := true } : Forwarder).refused = true) :
      g.refused = true := h
    exact hset was (fun h ↦ .inl (hjoined h)) hk
  | forward k' g g' new opened was moves =>
    refine hset was (fun hg' ↦ ?_) hk
    cases moves with
    | refused poll message polling eq => exact .inr ⟨poll, message, rfl, eq⟩
    | _ => exact .inl hg'
  | _ => exact .inl ⟨f', hk, hrefused⟩

/-- It is remembered that a message has been refused. -/
theorem Link.Stepped.refused_of_handle {poll : UpdateSubscriptionPoll}
    (h : L.Stepped (.handle k poll true) L') (hmessage : (message? poll).isSome = true) :
    ∃ f', L'.forwarders[k]? = some f' ∧ f'.refused = true := by
  cases h with
  | forward k f f' new opened was moves =>
    cases moves with
    | silent ended full polling eq =>
      rw [message?, eq] at hmessage
      exact absurd hmessage (by simp)
    | refused poll message polling eq =>
      exact ⟨_, List.getElem?_set_self (List.getElem?_eq_some_iff.mp was).1, rfl⟩

/-- A terminal event that has been written has been sent by the forwarder. -/
theorem Link.Kept.sent_of_mem (h : L.Kept) (hcut : L.log.Pairwise Cut)
    (hk : L.forwarders[k]? = some f)
    {message : Message} (hlast : message.terminal = true) (hmem : .event k message ∈ L.output) :
    f.sent = some message := by
  obtain ⟨last, houtput, hsent, -⟩ := h.lifecycle hcut hk
  have hmem : Frame.event k message ∈ L.output.filter (·.about k) :=
    List.mem_filter.mpr ⟨hmem, decide_eq_true rfl⟩
  rw [houtput, List.mem_cons, List.mem_append] at hmem
  rcases hmem with hack | hnotice | hend
  · exact absurd hack (by simp)
  · obtain ⟨u, -, heq⟩ := List.mem_map.mp hnotice
    obtain rfl := (Frame.event.inj heq).2
    exact absurd hlast (by simp [Message.terminal])
  · obtain ⟨message', hmem', heq⟩ := List.mem_map.mp hend
    obtain rfl := (Frame.event.inj heq).2
    exact (hsent message' (Option.mem_toList.mp hmem')).2

/-- What a forwarder has observed of the end has an event. -/
def Forwarder.Voiced (f : Forwarder) : Prop :=
  ∀ ended, .invalidated ended ∈ f.seen → terminalMessage ended ≠ none

/-- What the loop does changes nothing of what the forwarders have observed. -/
theorem Link.Stepped.seen (h : L.Stepped action L') (halone : action.forwarder? = none)
    (hmem : f ∈ L'.forwarders) : f.seen = [] ∨ ∃ f' ∈ L.forwarders, f.seen = f'.seen := by
  cases h with
  | acknowledge answers receiver subscribing =>
    rcases List.mem_append.mp hmem with hold | hnew
    · exact .inr ⟨f, hold, rfl⟩
    · exact .inl (List.mem_singleton.mp hnew ▸ rfl)
  | cancel k serving =>
    rw [Link.cancel] at hmem
    split at hmem
    · obtain ⟨j, hj⟩ := List.getElem?_of_mem hmem
      rw [List.getElem?_modify] at hj
      obtain ⟨f', hf', rfl⟩ := Option.map_eq_some_iff.mp hj
      refine .inr ⟨f', List.mem_of_getElem? hf', ?_⟩
      split <;> rfl
    · exact .inr ⟨f, hmem, rfl⟩
  | join k g serving was returned =>
    rcases List.mem_or_eq_of_mem_set hmem with hold | rfl
    · exact .inr ⟨f, hold, rfl⟩
    · exact .inr ⟨g, List.mem_of_getElem? was, rfl⟩
  | forward k g g' new opened was moves =>
    cases moves with
    | finish returning =>
      rcases List.mem_or_eq_of_mem_set hmem with hold | rfl
      · exact .inr ⟨f, hold, rfl⟩
      · exact .inr ⟨g, List.mem_of_getElem? was, rfl⟩
    | _ => exact absurd halone (by simp [LinkAction.forwarder?])
  | _ => exact .inr ⟨f, hmem, rfl⟩

namespace System

variable {sha256 : List UInt8 → Bytes verifierLength} {m₀ m m' : System} {actions : List Action}
  {receiver : Receiver}

variable (sha256) in
/-- The queue of events has been found full for a message of a subscription. -/
def FoundFull (m₀ : System) (actions : List Action) (k : ℕ) : Prop :=
  ∃ before poll after m₁, actions = before ++ .link (.handle k poll true) :: after ∧
    (message? poll).isSome = true ∧
    Transition.run (step sha256) m₀ before = some m₁ ∧ m₁.link.Full

/-- A step in which the queue is found full for a subscription. -/
theorem full_of_refused (hkept : m.Kept sha256) {a : Action} (hstep : m.step sha256 a = some m')
    (hnot : ¬∃ f, m.link.forwarders[k]? = some f ∧ f.refused = true)
    (hrefused : ∃ f, m'.link.forwarders[k]? = some f ∧ f.refused = true) :
    ∃ poll, a = .link (.handle k poll true) ∧ (message? poll).isSome = true ∧ m.link.Full := by
  obtain ⟨f', hk, hf'⟩ := hrefused
  cases stepped hkept.looks hstep with
  | loop action link alone sees step =>
    rcases (Link.stepped step).refusal hk hf' with hold | ⟨poll, message, rfl, hmessage⟩
    · exact absurd hold hnot
    · exact absurd alone (by simp [LinkAction.forwarder?])
  | forward action k' f f'' new shared opened sees was moves _ =>
    have hlink : m.link.Stepped action _ := .forward k' f f'' new opened was moves
    rcases hlink.refusal hk hf' with hold | ⟨poll, message, rfl, hmessage⟩
    · exact absurd hold hnot
    · rw [System.step, connection, if_pos sees] at hstep
      obtain ⟨link, hlink, -⟩ := Option.bind_eq_some_iff.mp hstep
      exact ⟨poll, rfl, hmessage ▸ rfl, Link.full_of_handle hmessage hlink⟩
  | _ => exact absurd ⟨f', hk, hf'⟩ hnot

/-- A step that finds the queue full for a message. -/
theorem refused_of_handle {poll : UpdateSubscriptionPoll} (hmessage : (message? poll).isSome = true)
    (hstep : m.step sha256 (.link (.handle k poll true)) = some m') :
    ∃ f, m'.link.forwarders[k]? = some f ∧ f.refused = true := by
  rw [System.step, connection] at hstep
  split at hstep
  · obtain ⟨link, hlink, hfollow⟩ := Option.bind_eq_some_iff.mp hstep
    obtain ⟨shared, rfl, -⟩ := follow_spec hfollow
    exact (Link.stepped hlink).refused_of_handle hmessage
  · exact absurd hstep (by simp)

/-- **What a forwarder remembers of a full queue is true.** -/
theorem Starts.refused_iff (hstart : m₀.Starts sha256)
    (hrun : Transition.run (step sha256) m₀ actions = some m)
    (hk : m.link.forwarders[k]? = some f) :
    f.refused = true ↔ FoundFull sha256 m₀ actions k := by
  constructor
  · intro hrefused
    have hnone : ¬∃ f, m₀.link.forwarders[k]? = some f ∧ f.refused = true := by
      rw [hstart.link]
      simp [Link.start]
    obtain ⟨before, action, after, m₁, m₂, rfl, hbefore, hstep, -, hnot, hfull⟩ :=
      Transition.exists_step_of_run
        (P := fun m : System ↦ ∃ f, m.link.forwarders[k]? = some f ∧ f.refused = true) hrun hnone
        ⟨f, hk, hrefused⟩
    obtain ⟨poll, rfl, hmessage, hfull⟩ :=
      full_of_refused (hstart.run hbefore).1 hstep hnot hfull
    exact ⟨before, poll, after, m₁, rfl, hmessage, hbefore, hfull⟩
  · rintro ⟨before, poll, after, m₁, rfl, hmessage, hbefore, -⟩
    rw [Transition.run_append, hbefore, Option.bind_some] at hrun
    obtain ⟨m₂, hstep, hafter⟩ := Transition.run_cons_eq_some_iff.mp hrun
    obtain ⟨f₂, hk₂, hf₂⟩ := refused_of_handle hmessage hstep
    obtain ⟨f', hk', -, hf'⟩ :=
      (((hstart.run hbefore).1.step hstep).later_run hafter).forwarders k f₂ hk₂
    exact Option.some_inj.mp (hk.symm.trans hk') ▸ hf' hf₂

/-! ## No end without an event -/

/-- While a connection is open its subscriptions end for reasons that it has events for. -/
theorem Kept.terminal_of_returned (h : m.Kept sha256) (hopen : m.link.phase ≠ .ended)
    (hk : m.link.forwarders[k]? = some f) (hpolling : f.stage = .polling)
    (hi : m.shared.registry.receivers[f.receiver]? = some receiver) (hidle : receiver.phase = .idle)
    {ended : UpdateSubscriptionEnd} (hended : .invalidated ended ∈ receiver.returned) :
    terminalMessage ended ≠ none := by
  obtain ⟨receiver', htracked⟩ := h.tracked f (List.mem_of_getElem? hk)
  obtain rfl := Option.some_inj.mp (hi.symm.trans htracked.received)
  have hleased := h.leased hopen
  obtain ⟨broker, taken, hregistry⟩ := h.reached.registry
  obtain ⟨-, hcause⟩ :=
    RegistrySystem.reason_accounted hregistry (List.mem_of_getElem? hi) hended
  rcases hcause with ⟨call, hcall, hends⟩ | ⟨-, hcancels | hclosed⟩ | ⟨-, hlost⟩
  · obtain ⟨hgenuine, hshutdown⟩ := h.reached.called call hcall
    cases call with
    | notify d u =>
      obtain ⟨-, heq⟩ := Option.ite_none_right_eq_some.mp hends
      exact Option.some_inj.mp heq ▸ by simp [terminalMessage]
    | invalidateSubscriptions subscriptionIds reason =>
      obtain ⟨-, heq⟩ := Option.ite_none_right_eq_some.mp hends
      obtain rfl : reason = .revoked := hgenuine
      exact Option.some_inj.mp heq ▸ by simp [terminalMessage]
    | invalidateDocument d reason =>
      obtain ⟨-, heq⟩ := Option.ite_none_right_eq_some.mp hends
      obtain rfl : reason = .retired := hgenuine
      exact Option.some_inj.mp heq ▸ by simp [terminalMessage]
    | closeChannel channel =>
      obtain ⟨hid, -⟩ := Option.ite_none_right_eq_some.mp hends
      exact absurd (hid.symm.trans htracked.channel) (hleased.unclosed channel hcall)
    | shutdown => exact absurd rfl hshutdown
    | openChannel | register channel d c => exact absurd hends (by simp [RegistryCall.ends])
  · exact absurd hcancels (by simp [hidle, ReceiverPhase.cancels])
  · exact absurd (((htracked.agrees hopen).opened hpolling).symm.trans hclosed) (by simp)
  · exact absurd (htracked.channel ▸ hlost) hleased.held

/-- **No forwarder observes an end that has no event.** -/
theorem voiced_step (h : ∀ f ∈ m.link.forwarders, f.Voiced) (hkept : m.Kept sha256) {a : Action}
    (hstep : Stepped sha256 m a m') : ∀ f ∈ m'.link.forwarders, f.Voiced := by
  cases hstep with
  | loop action link alone sees step =>
    intro f' hmem
    rcases (Link.stepped step).seen alone hmem with hnone | ⟨f, hf, hsame⟩
    · intro ended hended
      rw [hnone] at hended
      exact absurd hended (by simp)
    · exact fun ended hended ↦ h f hf ended (hsame ▸ hended)
  | forward action k f f' new shared opened sees was moves _ =>
    intro g hmem
    have hmem : g ∈ m.link.forwarders.set k f' := hmem
    rcases List.mem_or_eq_of_mem_set hmem with hold | rfl
    · exact h g hold
    have hf := h f (List.mem_of_getElem? was)
    -- a message has been made of what it has observed
    have hvoiced {poll : UpdateSubscriptionPoll} {message : Message}
        (hmessage : message? poll = some message) (ended : UpdateSubscriptionEnd)
        (hended : .invalidated ended ∈ f.seen ++ [poll]) : terminalMessage ended ≠ none := by
      rcases List.mem_append.mp hended with hold | hnew
      · exact hf ended hold
      · obtain rfl := List.mem_singleton.mp hnew
        have hterminal : terminalMessage ended = some message := hmessage
        simp [hterminal]
    cases moves with
    | sent poll message polling eq more => exact hvoiced eq
    | finished poll message polling eq last => exact hvoiced eq
    | silent ended full polling eq =>
      obtain ⟨f', receiver, hk, hi, hidle, hreturned⟩ := rests_spec sees
      obtain rfl := Option.some_inj.mp (was.symm.trans hk)
      refine absurd eq (hkept.terminal_of_returned opened was polling hi hidle ?_)
      rw [of_decide_eq_true hreturned]
      exact List.mem_append_right _ (List.mem_singleton_self _)
    | _ => exact hf
  | _ => exact h

theorem Starts.voiced (hstart : m₀.Starts sha256)
    (hrun : Transition.run (step sha256) m₀ actions = some m) : ∀ f ∈ m.link.forwarders,
      f.Voiced := by
  refine (Transition.invariant (I := fun m : System ↦ (m.Kept sha256 ∧ m.Guarded) ∧
    ∀ f ∈ m.link.forwarders, f.Voiced) (fun m _ _ h hstep ↦
      ⟨⟨h.1.1.step hstep, h.1.2.step h.1.1 hstep⟩,
        voiced_step h.2 h.1.1 (stepped h.1.1.looks hstep)⟩) ⟨⟨hstart.kept, hstart.guarded⟩,
        ?_⟩ hrun).2
  rw [hstart.link]
  exact fun f hmem ↦ absurd hmem (by simp [Link.start])

/-! ## What is told -/

/-- **A terminal event tells why the subscription has ended.**  If it is told that it has been
invalidated, then what has ended it first is a revocation or a retirement, and its capability has
been revoked or its document has been retired; if it is told of an overflow, then its notifications
have overflowed, or the queue of the connection has been found full for a message of it. -/
theorem terminal_truthful (hstart : m₀.Starts sha256)
    (hrun : Transition.run (step sha256) m₀ actions = some m)
    (hreceiver : m.receiver? k = some receiver) :
    (.event k .invalidated ∈ m.link.output →
      (m.shared.registry.shared.cells receiver.entry.subscriptionId).state = encodeEnd .revoked ∧
        m.shared.store.tables.IsRevoked receiver.entry.documentId receiver.entry.capabilityId ∨
      (m.shared.registry.shared.cells receiver.entry.subscriptionId).state = encodeEnd .retired ∧
        ∃ row, m.shared.store.tables.document? receiver.entry.documentId = some row ∧
          row.retired = true) ∧
    (.event k .overflow ∈ m.link.output →
      (m.shared.registry.shared.cells receiver.entry.subscriptionId).state = encodeEnd .overflowed ∨
      ∃ before poll after m₁, actions = before ++ .link (.handle k poll true) :: after ∧
        (message? poll).isSome = true ∧
        Transition.run (step sha256) m₀ before = some m₁ ∧ m₁.link.Full) := by
  obtain ⟨hkept, -⟩ := hstart.run hrun
  have hcut := (hstart.orderly hrun).cut
  obtain ⟨f, hk, hi⟩ := receiver?_eq_some_iff.mp hreceiver
  obtain ⟨receiver', htracked⟩ := hkept.tracked f (List.mem_of_getElem? hk)
  obtain rfl := Option.some_inj.mp (hi.symm.trans htracked.received)
  have hmem := List.mem_of_getElem? hi
  have hsound := hkept.link.forwarder f (List.mem_of_getElem? hk)
  obtain ⟨broker, taken, hregistry⟩ := hkept.reached.registry
  -- what the forwarder has observed of the end is accounted for
  have haccounted {ended : UpdateSubscriptionEnd} (hseen : .invalidated ended ∈ f.seen) :=
    RegistrySystem.reason_accounted hregistry hmem (htracked.seen.subset hseen)
  constructor
  · intro hwritten
    have hsent := hkept.link.sent_of_mem hcut hk rfl hwritten
    rcases hsound.reason _ hsent with ⟨ended, hseen, hterminal⟩ | ⟨hmessage, -⟩
    · obtain ⟨hword, hcause⟩ := haccounted hseen
      cases ended with
      | revoked =>
        refine .inl ⟨hword, ?_⟩
        rcases hcause with ⟨call, hcall, hends⟩ | ⟨heq, -⟩ | ⟨heq, -⟩
        · exact hkept.reached.ends_revoked hmem hcall hends
        · exact absurd heq (by simp)
        · exact absurd heq (by simp)
      | retired =>
        refine .inr ⟨hword, ?_⟩
        rcases hcause with ⟨call, hcall, hends⟩ | ⟨heq, -⟩ | ⟨heq, -⟩
        · exact hkept.reached.ends_retired hcall hends
        · exact absurd heq (by simp)
        · exact absurd heq (by simp)
      | overflowed | cancelled | channelLost | brokerShutdown =>
        exact absurd hterminal (by simp [terminalMessage])
    · exact absurd hmessage (by simp)
  · intro hwritten
    have hsent := hkept.link.sent_of_mem hcut hk rfl hwritten
    rcases hsound.reason _ hsent with ⟨ended, hseen, hterminal⟩ | ⟨-, hrefused⟩
    · refine .inl ?_
      obtain ⟨hword, -⟩ := haccounted hseen
      cases ended with
      | overflowed => exact hword
      | revoked | retired | cancelled | channelLost | brokerShutdown =>
        exact absurd hterminal (by simp [terminalMessage])
    · exact .inr ((hstart.refused_iff hrun hk).mp hrefused)

/-- The forwarder observes the revocation, and its event is written. -/
def Sample.ending : List Action :=
  [.poll 0, .proceed 0, .proceed 0, .link (.handle 0 (.invalidated .revoked) false), .proceed 0,
    .proceed 0, .link (.finish 0), .link .dequeue]

/-- The child is told that its subscription has been invalidated, and its capability is revoked. -/
theorem terminal_truthful_sample : ∃ m₀ m receiver, Transition.run (step Sample.sha256) m₀
      (Sample.forwarding ++ Sample.revoking ++ Sample.refusing ++ Sample.ending) = some m ∧
    .event 0 .invalidated ∈ m.link.output ∧ m.receiver? 0 = some receiver ∧
    m.shared.store.tables.IsRevoked receiver.entry.documentId receiver.entry.capabilityId := by
  obtain ⟨m₀, m, hstart, hrun, hm⟩ := Sample.exists_run
    (Sample.forwarding ++ Sample.revoking ++ Sample.refusing ++ Sample.ending)
    (fun m : System ↦ decide (.event 0 .invalidated ∈ m.link.output) &&
      (m.receiver? 0).any fun receiver ↦ decide
        ((m.shared.registry.shared.cells receiver.entry.subscriptionId).state ≠ encodeEnd .retired))
    (by decide +kernel)
  rw [Bool.and_eq_true] at hm
  obtain ⟨hwritten, hreceiver⟩ := hm
  have hwritten := of_decide_eq_true hwritten
  obtain ⟨receiver, hreceiver, hword⟩ := (Option.any_eq_true _ _).mp hreceiver
  refine ⟨m₀, m, receiver, hrun, hwritten, hreceiver, ?_⟩
  refine (((terminal_truthful hstart hrun hreceiver).1 hwritten).resolve_right fun h ↦ ?_).2
  exact of_decide_eq_true hword h.1

/-- What a forwarder that has finished has put into the queue last has been written. -/
theorem Kept.told (hkept : m.Kept sha256) (hopen : m.link.phase ≠ .ended)
    (hk : m.link.forwarders[k]? = some f) (hclosed : f.closed = true)
    (hdrained : ∀ message, (k, message) ∉ m.link.events)
    (hfree : ∀ u, m.link.phase.held? ≠ some (k, u))
    (hvoiced : ∀ ended, .invalidated ended ∈ f.seen → terminalMessage ended ≠ none) :
    (∃ message, message.terminal = true ∧ .event k message ∈ m.link.output) ∨
      CancelAnswered k m.link.output ∨ m.link.phase = .cancelling k := by
  have hsound := hkept.link.forwarder f (List.mem_of_getElem? hk)
  have hwritten {frame : Frame} (hmem : (frame, true) ∈ m.link.log) : frame ∈ m.link.output :=
    List.mem_map.mpr ⟨_, List.mem_filter.mpr ⟨hmem, rfl⟩, rfl⟩
  rcases hsound.closed hclosed with hsent | hcancelled |
    ⟨ended, hseen, hterminal⟩
  · obtain ⟨message, hmessage⟩ := Option.ne_none_iff_exists'.mp hsent
    have hlast := (hsound.sent message hmessage).2
    have hheld : held m.link.phase k = [] := by
      cases hhand : m.link.phase.held? with
      | none => exact held_of_none hhand
      | some hand =>
        obtain ⟨k', u⟩ := hand
        rw [held_of_some hhand, if_neg]
        rintro rfl
        exact hfree u hhand
    have hqueued : queued m.link.events k = [] := by
      refine Link.queued_of_unknown fun event hmem heq ↦ hdrained event.2 ?_
      exact heq ▸ hmem
    have hmade := hkept.link.stream hopen k f hk
    rw [hheld, hqueued, List.append_nil, List.append_nil] at hmade
    obtain ⟨⟨frame, written⟩, hmem, hframe⟩ : ∃ entry ∈ m.link.log,
        entry.1.message? k = some message := by
      refine List.mem_filterMap.mp (?_ : message ∈ settled m.link.log k)
      rw [hmade, Forwarder.made, hmessage]
      simp
    obtain rfl : frame = .event k message := by
      cases frame with
      | event k' message' =>
        obtain ⟨rfl, heq⟩ := Option.ite_none_right_eq_some.mp hframe
        exact Option.some_inj.mp heq ▸ rfl
      | response | acknowledgement k' | cancelled k' =>
        exact absurd hframe (by simp [Frame.message?])
    refine .inl ⟨message, hlast, hwritten ?_⟩
    cases written with
    | true => exact hmem
    | false =>
      obtain ⟨k', u, heq⟩ := hkept.link.left_out _ hmem
      obtain rfl := (Frame.event.inj heq).2
      exact absurd hlast (by simp [Message.terminal])
  · exact .inr ((hkept.link.told hopen k f hk hcancelled).symm.imp Dismissed.answered id)
  · exact absurd hterminal (hvoiced ended hseen)

/-- **No subscription ends in silence.**  When the forwarder of a subscription has returned on a
connection that is still open, and everything that it has put into the queue has been dealt with,
then a terminal event has been written, unless the client has cancelled the subscription after it
was acknowledged. -/
theorem finished_told (hstart : m₀.Starts sha256)
    (hrun : Transition.run (step sha256) m₀ actions = some m) (hopen : m.link.phase ≠ .ended)
    (hk : m.link.forwarders[k]? = some f) (hreturned : f.stage = .returned)
    (hdrained : ∀ message, (k, message) ∉ m.link.events)
    (hfree : ∀ u, m.link.phase.held? ≠ some (k, u)) :
    (∃ message, message.terminal = true ∧ .event k message ∈ m.link.output) ∨
      CancelAnswered k m.link.output ∨ m.link.phase = .cancelling k := by
  obtain ⟨hkept, -⟩ := hstart.run hrun
  exact hkept.told hopen hk (by simp [Forwarder.closed, hreturned]) hdrained hfree
    fun ended hseen ↦ hstart.voiced hrun f (List.mem_of_getElem? hk) ended hseen

/-- The forwarder of the child has returned, and the child has been told. -/
theorem finished_told_sample : ∃ m₀ m, Transition.run (step Sample.sha256) m₀
      (Sample.forwarding ++ Sample.revoking ++ Sample.refusing ++ Sample.ending) = some m ∧
    ∃ message, message.terminal = true ∧ .event 0 message ∈ m.link.output := by
  obtain ⟨m₀, m, hstart, hrun, hm⟩ := Sample.exists_run
    (Sample.forwarding ++ Sample.revoking ++ Sample.refusing ++ Sample.ending)
    (fun m : System ↦ decide (m.link.phase = .serving) && decide (m.link.events = []) &&
      decide (Frame.cancelled 0 ∉ m.link.output) &&
      m.link.forwarders[0]?.any fun f : Forwarder ↦
        decide (f.stage = .returned)) (by decide +kernel)
  simp only [Bool.and_eq_true, decide_eq_true_eq] at hm
  obtain ⟨⟨⟨hserving, hevents⟩, hcancelled⟩, hreturned⟩ := hm
  obtain ⟨f, hk, hreturned⟩ := (Option.any_eq_true _ _).mp hreturned
  refine ⟨m₀, m, hrun,
    (finished_told hstart hrun (by simp [hserving]) hk (of_decide_eq_true hreturned)
    (by simp [hevents]) (by simp [hserving, LinkPhase.held?])).resolve_right ?_⟩
  rintro (hmem | hphase)
  · obtain ⟨earlier, later, houtput, -⟩ := hmem
    exact hcancelled (houtput ▸ by simp)
  · exact absurd (hserving.symm.trans hphase) (by simp)

end System

end Renee.Emission
