import Renee.Service.Reasons

/-!
# Which reason a client is told

A subscription keeps the reason for which it has ended first.  The queue of events of its connection
can still be full when its forwarder observes that reason, and then the client is told of an
overflow.

* `FirstReason` is the first reason in a run.
* `terminal_event_reason`: what is told is decided by the first reason, and by whether the queue of
  events has been found full for the subscription.
* `overflow_of_revoked`: a revoked subscription of which the client is told that it has overflowed.
-/

set_option autoImplicit false

namespace Renee.Emission

open ByteString Service
open UpdateSubscriptionRegistry (UpdateSubscriptionPoll)

variable {L L' : Link} {action : LinkAction} {k : ℕ} {message : Message}

/-- Nothing is settled when a connection ends. -/
theorem Link.Stepped.open_of_settled (h : L.Stepped action L') (hlog : L'.log ≠ L.log) :
    L'.phase ≠ .ended := by
  have hsettle (L : Link) (frame : Frame) (written : Bool) :
      (L.settle frame written).phase ≠ .ended := by simp [Link.settle, Link.retain]
  cases h with
  | respond asked => exact hsettle _ _ _
  | acknowledge answers receiver subscribing => exact hsettle _ _ _
  | finishCancel k f cancelling was returned => exact hsettle _ _ _
  | tell k message events serving waits last => exact hsettle _ _ _
  | refused k u checking => exact hsettle _ _ _
  | written k u writing => exact hsettle _ _ _
  | cancel k serving =>
    rw [Link.cancel] at hlog ⊢
    split at hlog
    · exact absurd rfl hlog
    · rw [if_neg ‹_›]
      exact hsettle _ _ _
  | _ => exact absurd rfl hlog

namespace System

variable {sha256 : List UInt8 → Bytes verifierLength} {m₀ m m' : System} {actions : List Action}
  {receiver : Receiver} {subscriptionId : ℕ} {reason : UpdateSubscriptionEnd}

/-! ## The first reason -/

/-- The reason for which a subscription has ended. -/
def ended? (m : System) (subscriptionId : ℕ) : Option UpdateSubscriptionEnd :=
  decodeEnd (m.shared.registry.shared.cells subscriptionId).state

variable (sha256) in
/-- The first reason for which a subscription ends in a run: at some moment it has ended for this
one, and at no moment for another. -/
def FirstReason (m₀ : System) (actions : List Action) (subscriptionId : ℕ)
    (reason : UpdateSubscriptionEnd) : Prop :=
  (∃ before after m₁, actions = before ++ after ∧
    Transition.run (step sha256) m₀ before = some m₁ ∧ m₁.ended? subscriptionId = some reason) ∧
  ∀ before after m₁ ended, actions = before ++ after →
    Transition.run (step sha256) m₀ before = some m₁ → m₁.ended? subscriptionId = some ended →
    ended = reason

/-- A subscription that has ended keeps the reason. -/
theorem Kept.ended_run (h : m.Kept sha256) (hended : m.ended? subscriptionId = some reason)
    (hrun : Transition.run (System.step sha256) m actions = some m') :
    m'.ended? subscriptionId = some reason := by
  have hword : (m.shared.registry.shared.cells subscriptionId).state ≠ active := by
    intro hactive
    rw [ended?, hactive] at hended
    exact absurd hended (by simp)
  rw [ended?, (h.later_run hrun).stays.follows.ended subscriptionId hword]
  exact hended

/-- **The reason that is kept is the first one.** -/
theorem Starts.firstReason (hstart : m₀.Starts sha256)
    (hrun : Transition.run (step sha256) m₀ actions = some m)
    (hended : m.ended? subscriptionId = some reason) :
    FirstReason sha256 m₀ actions subscriptionId reason := by
  refine ⟨⟨actions, [], m, (List.append_nil _).symm, hrun, hended⟩,
    fun before after m₁ ended heq hbefore hended₁ ↦ ?_⟩
  subst heq
  rw [Transition.run_append, hbefore, Option.bind_some] at hrun
  have hkept := (hstart.run hbefore).1
  exact Option.some_inj.mp ((hkept.ended_run hended₁ hrun).symm.trans hended)

/-! ## What is told -/

/-- A subscription has ended when its terminal event is written. -/
theorem Starts.ended_of_written (hstart : m₀.Starts sha256)
    (hrun : Transition.run (step sha256) m₀ actions = some m)
    (hreceiver : m.receiver? k = some receiver)
    (hlast : message.terminal = true) (hwritten : .event k message ∈ m.link.output) :
    ∃ reason, m.ended? receiver.entry.subscriptionId = some reason := by
  have hnone : ¬Frame.event k message ∈ m₀.link.output := by
    rw [hstart.link]
    simp [Link.start, Link.output]
  -- the moment at which it is written
  obtain ⟨before, a, after, m₁, m₂, rfl, hbefore, hstep, hafter, hnot, hmem⟩ :=
    Transition.exists_step_of_run (P := fun m : System ↦ .event k message ∈ m.link.output)
      hrun hnone hwritten
  have hkept₁ := (hstart.run hbefore).1
  have hkept₂ := hkept₁.step hstep
  have hlog : m₂.link.log ≠ m₁.link.log := by
    intro heq
    rw [Link.output, heq] at hmem
    exact hnot hmem
  have hopen : m₂.link.phase ≠ .ended := by
    cases stepped hkept₁.looks hstep with
    | loop action link alone sees step => exact (Link.stepped step).open_of_settled hlog
    | _ => exact absurd rfl hlog
  have hcut := (hstart.orderly (Transition.run_concat_eq_some_iff.mpr ⟨m₁, hbefore, hstep⟩)).cut
  -- its forwarder has sent it, and gives the subscription up
  have hlt := hkept₂.link.lt_of_about hmem (show decide (k = k) = true from decide_eq_true rfl)
  have hk := List.getElem?_eq_getElem hlt
  have hsent := hkept₂.link.sent_of_mem hcut hk hlast hmem
  have hclosed := ((hkept₂.link.forwarder _ (List.getElem_mem hlt)).sent message hsent).1
  obtain ⟨receiver₂, htracked⟩ := hkept₂.tracked _ (List.getElem_mem hlt)
  have hentry : receiver₂.entry = receiver.entry := by
    have hreceives : m₂.Receives k receiver₂.entry :=
      receives_iff.mpr ⟨_, receiver₂, hk, htracked.received, rfl⟩
    exact ((hkept₂.later_run hafter).receives hreceives).eq
      (Option.map_eq_some_iff.mpr ⟨receiver, hreceiver, rfl⟩)
  have hended := (htracked.agrees hopen).ended_of_closed hclosed
  obtain ⟨reason, hreason⟩ := Option.ne_none_iff_exists'.mp (mt decodeEnd_eq_none_iff.mp hended)
  exact ⟨reason, hkept₂.ended_run (hentry ▸ hreason) hafter⟩

/-- **What a client is told is decided by the first reason and by the queue of events.**  It is told
that its subscription has been invalidated exactly if that has been revoked or its document retired
first and the queue of events has not been found full for it, and of an overflow exactly if its
notifications have overflowed first or the queue of events has been found full for it. -/
theorem terminal_event_reason (hstart : m₀.Starts sha256)
    (hrun : Transition.run (step sha256) m₀ actions = some m)
    (hreceiver : m.receiver? k = some receiver)
    (hlast : message.terminal = true) (hwritten : .event k message ∈ m.link.output) :
    ∃ reason, FirstReason sha256 m₀ actions receiver.entry.subscriptionId reason ∧
      (message = .invalidated ↔
        (reason = .revoked ∨ reason = .retired) ∧ ¬FoundFull sha256 m₀ actions k) ∧
      (message = .overflow ↔ reason = .overflowed ∨ FoundFull sha256 m₀ actions k) := by
  obtain ⟨hkept, -⟩ := hstart.run hrun
  obtain ⟨reason, hreason⟩ := hstart.ended_of_written hrun hreceiver hlast hwritten
  refine ⟨reason, hstart.firstReason hrun hreason, ?_⟩
  obtain ⟨f, hk, hi⟩ := receiver?_eq_some_iff.mp hreceiver
  obtain ⟨receiver', htracked⟩ := hkept.tracked f (List.mem_of_getElem? hk)
  obtain rfl := Option.some_inj.mp (hi.symm.trans htracked.received)
  have hsound := hkept.link.forwarder f (List.mem_of_getElem? hk)
  have hsent := hkept.link.sent_of_mem (hstart.orderly hrun).cut hk hlast hwritten
  rw [← hstart.refused_iff hrun hk]
  rcases hsound.reason message hsent with ⟨ended, hseen, hterminal⟩ | ⟨rfl, hrefused⟩
  · -- it has observed the reason, so it has not found the queue full
    have hroom : ¬f.refused = true := by
      intro hrefused
      obtain ⟨u, heq⟩ := (hsound.refused hrefused).2 _ hseen
      exact absurd heq (by simp)
    obtain ⟨broker, taken, hregistry⟩ := hkept.reached.registry
    obtain ⟨hword, -⟩ := RegistrySystem.reason_accounted hregistry (List.mem_of_getElem? hi)
      (htracked.seen.subset hseen)
    obtain rfl : ended = reason := by
      rw [ended?, hword, decodeEnd_encodeEnd] at hreason
      exact Option.some_inj.mp hreason
    cases ended with
    | overflowed | revoked | retired =>
      obtain rfl := Option.some_inj.mp hterminal
      simp [hroom]
    | cancelled | channelLost | brokerShutdown => exact absurd hterminal (by simp [terminalMessage])
  · simp [hrefused]

/-! ## A queue that is full of what the others have been notified of -/

/-- The child subscribes eight times. -/
def Sample.crowding : List Action := (List.range 8).flatMap fun k ↦
  .subscribe Sample.document Sample.child (Sample.secret 3) ::
    List.replicate (4 * k) (.other .work) ++ [.link (.acknowledge k)]

/-- Eight updates fill the queue of events. -/
def Sample.filling : List Action := [1, 2, 3, 4, 5, 6, 7, 8].flatMap fun b ↦
  .other (.request (.accept (Sample.acceptOf b))) :: List.replicate 24 (.other .work) ++
    (List.range 8).flatMap fun k ↦ .poll k :: List.replicate 6 (.proceed k) ++
      [.link (.handle k (.notification (Sample.updateOf b).updateId) false)]

/-- The child is revoked, which the first forwarder observes. -/
def Sample.observing : List Action :=
  .exclude Sample.document :: .other (.request (.revoke Sample.revoke)) ::
    List.replicate 32 (.other .work) ++ [.release Sample.document, .poll 0, .proceed 0, .proceed 0]

/-- There is no room for its event, and by the time that there is, it is another one. -/
def Sample.overtaken : List Action :=
  let refusing : List Action := [.link .dequeue, .link .enter, .look, .look, .link (.checked false)]
  [.link (.handle 0 (.invalidated .revoked) true), .proceed 0, .proceed 0] ++ refusing ++
    [.link (.sendOverflow 0)] ++ (List.replicate 63 refusing).flatten ++ [.link .dequeue]

/-- **A revocation that a client is not told of**, since the queue of events was full. -/
theorem overflow_of_revoked : ∃ m₀ m receiver, m₀.Starts Sample.sha256 ∧
    Transition.run (step Sample.sha256) m₀
      (Sample.crowding ++ Sample.filling ++ Sample.observing ++ Sample.overtaken) = some m ∧
    m.receiver? 0 = some receiver ∧
    FirstReason Sample.sha256 m₀
      (Sample.crowding ++ Sample.filling ++ Sample.observing ++ Sample.overtaken)
      receiver.entry.subscriptionId .revoked ∧
    .event 0 .overflow ∈ m.link.output ∧ .event 0 .invalidated ∉ m.link.output := by
  obtain ⟨m₀, m, hstart, hrun, hm⟩ := Sample.exists_run
    (Sample.crowding ++ Sample.filling ++ Sample.observing ++ Sample.overtaken)
    (fun m : System ↦ decide (.event 0 .overflow ∈ m.link.output) &&
      decide (.event 0 .invalidated ∉ m.link.output) &&
      (m.receiver? 0).any fun receiver ↦
        decide (m.ended? receiver.entry.subscriptionId = some .revoked)) (by decide +kernel)
  simp only [Bool.and_eq_true, decide_eq_true_eq] at hm
  obtain ⟨⟨htold, hnot⟩, hended⟩ := hm
  obtain ⟨receiver, hreceiver, hended⟩ := (Option.any_eq_true _ _).mp hended
  exact ⟨m₀, m, receiver, hstart, hrun, hreceiver,
    hstart.firstReason hrun (of_decide_eq_true hended), htold, hnot⟩

/-- The child is told that it has been revoked, since there was room for the event. -/
theorem terminal_event_reason_sample : ∃ m₀ m receiver, Transition.run (step Sample.sha256) m₀
      (Sample.forwarding ++ Sample.revoking ++ Sample.refusing ++ Sample.ending) = some m ∧
    m.receiver? 0 = some receiver ∧ .event 0 .invalidated ∈ m.link.output ∧
    ∃ reason, FirstReason Sample.sha256 m₀
      (Sample.forwarding ++ Sample.revoking ++ Sample.refusing ++ Sample.ending)
      receiver.entry.subscriptionId reason ∧ (reason = .revoked ∨ reason = .retired) := by
  obtain ⟨m₀, m, hstart, hrun, hm⟩ := Sample.exists_run
    (Sample.forwarding ++ Sample.revoking ++ Sample.refusing ++ Sample.ending)
    (fun m : System ↦ decide (.event 0 .invalidated ∈ m.link.output) && (m.receiver? 0).isSome)
    (by decide +kernel)
  rw [Bool.and_eq_true, decide_eq_true_eq, Option.isSome_iff_exists] at hm
  obtain ⟨hwritten, receiver, hreceiver⟩ := hm
  obtain ⟨reason, hfirst, hinvalidated, -⟩ :=
    terminal_event_reason hstart hrun hreceiver rfl hwritten
  exact ⟨m₀, m, receiver, hrun, hreceiver, hwritten, reason, hfirst, (hinvalidated.mp rfl).1⟩

end System

end Renee.Emission
