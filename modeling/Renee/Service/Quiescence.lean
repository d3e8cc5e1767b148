import Renee.Service.Coverage

/-!
# What a connection emits

* `System.Quiescent` is about the states in which there is nothing left to forward.
* `notification_emission`: the order of what is written about a subscription, its silence after a
  revocation and after a cancellation, and what has become of it in a quiescent state.
-/

set_option autoImplicit false

namespace Renee.Emission

open ByteString Ancestry

namespace System

variable {sha256 : List UInt8 → Bytes verifierLength} {m₀ m : System} {actions : List Action}
    {k : ℕ}
  {f : Forwarder} {receiver : Receiver}

/-- The connection is open, its queue of events is empty, the loop has no notification in hand, and
each forwarder has returned or waits for the next update of an active subscription. -/
structure Quiescent (m : System) : Prop where
  opened : m.link.phase ≠ .ended
  free : m.shared.registry.holder = none
  events : m.link.events = []
  hand : m.link.phase.held? = none
  finished : ∀ f ∈ m.link.forwarders, f.stage = .returned ∨ ∃ receiver,
    m.shared.registry.receivers[f.receiver]? = some receiver ∧ receiver.phase = .waiting ∧
      m.shared.registry.isActive receiver = true ∧
      (m.shared.registry.shared.cells receiver.entry.subscriptionId).queue = []

/-- Nothing is under way to a forwarder that waits. -/
theorem Quiescent.underway (h : m.Quiescent) (hkept : m.Kept sha256)
    (hk : m.link.forwarders[k]? = some f)
    (hi : m.shared.registry.receivers[f.receiver]? = some receiver)
    (hwaiting : receiver.phase = .waiting)
    (hqueue : (m.shared.registry.shared.cells receiver.entry.subscriptionId).queue = []) :
    m.underway k f receiver = [] := by
  obtain ⟨receiver', htracked⟩ := hkept.tracked f (List.mem_of_getElem? hk)
  obtain rfl := Option.some_inj.mp (hi.symm.trans htracked.received)
  obtain ⟨-, hreturned⟩ :=
    (htracked.agrees h.opened).under_way (by simp [hwaiting]) (by rw [hwaiting]; rfl)
  rw [System.underway, held_of_none h.hand, h.events, hqueue, hreturned, List.drop_length]
  rfl

/-- **What has become of a subscription in a quiescent state**: it has been told of its end, it has
been cancelled or is about to be, or it has been notified of everything. -/
theorem Quiescent.told (h : m.Quiescent) (hstart : m₀.Starts sha256)
    (hrun : Transition.run (step sha256) m₀ actions = some m) (hlt : k < m.link.forwarders.length) :
    (∃ message, message.terminal = true ∧ .event k message ∈ m.link.output) ∨
      CancelAnswered k m.link.output ∨ m.link.phase = .cancelling k ∨
      ∃ receiver, m.receiver? k = some receiver ∧
        notices k m.link.output = due m.shared.registry.answered receiver.entry := by
  obtain ⟨hkept, hguarded⟩ := hstart.run hrun
  have hk := List.getElem?_eq_getElem hlt
  rcases h.finished _ (List.getElem_mem hlt) with
    hreturned | ⟨receiver, hi, hwaiting, hactive, hqueue⟩
  · have htold := hkept.told h.opened hk (by simp [Forwarder.closed, hreturned])
      (by simp [h.events]) (by simp [h.hand]) (hstart.voiced hrun _ (List.getElem_mem hlt))
    exact htold.imp id (Or.imp id .inl)
  · have hnotices :=
      hkept.notices_underway hguarded h.free h.opened hk hi hactive (by rw [hwaiting]; rfl)
    rw [h.underway hkept hk hi hwaiting hqueue, List.append_nil] at hnotices
    exact .inr (.inr (.inr ⟨receiver, receiver?_eq_some_iff.mpr ⟨_, hk, hi⟩, hnotices⟩))

/-- **What a connection emits.**  Whatever the forwarders, the loop, the clients of this connection
and everybody else who uses the store do, in any order:

* after a revocation has committed nothing is notified of that belongs to a capability below its
  target;
* a subscription is acknowledged before anything is notified of, and a terminal event comes last, so
  that there is one at most;
* after the response to the cancellation of an acknowledged subscription nothing is notified of;
* in a quiescent state every subscription of which a notification has not been written has had its
  terminal event, unless the client has cancelled it. -/
theorem notification_emission (hstart : m₀.Starts sha256)
    (hrun : Transition.run (step sha256) m₀ actions = some m) (k : ℕ) :
    (∀ before after m₁ receiver c, actions = before ++ after →
      Transition.run (step sha256) m₀ before = some m₁ → m.receiver? k = some receiver →
      Descends (m.shared.store.tables.parent? receiver.entry.documentId)
        receiver.entry.capabilityId c →
      m₁.shared.store.tables.IsRevoked receiver.entry.documentId c →
      notices k m.link.output = notices k m₁.link.output) ∧
    (m.link.output.filter (·.about k) = [] ∨ ∃ last : Option Message,
      m.link.output.filter (·.about k) = .acknowledgement k ::
        ((notices k m.link.output).map (notification k) ++ last.toList.map (.event k)) ∧
      ∀ message ∈ last, message.terminal = true) ∧
    (∀ earlier later, m.link.output = earlier ++ .cancelled k :: later →
      .acknowledgement k ∈ earlier → notices k later = []) ∧
    (m.Quiescent → ∀ receiver u, m.receiver? k = some receiver →
      u ∈ due m.shared.registry.answered receiver.entry → notification k u ∉ m.link.output →
      (∃ message, message.terminal = true ∧ .event k message ∈ m.link.output) ∨
        CancelAnswered k m.link.output ∨ m.link.phase = .cancelling k) := by
  obtain ⟨hkept, -⟩ := hstart.run hrun
  have horderly := hstart.orderly hrun
  refine ⟨fun before after m₁ receiver c heq hbefore hreceiver hbelow hrevoked ↦ ?_,
    hkept.link.ordered horderly.cut k, fun earlier later ↦ horderly.silent,
    fun hquiescent receiver u hreceiver hdue hdropped ↦ ?_⟩
  · subst heq
    rw [Transition.run_append, hbefore, Option.bind_some] at hrun
    exact notices_below (hstart.run hbefore) hrun
      (Option.map_eq_some_iff.mpr ⟨receiver, hreceiver, rfl⟩) hbelow hrevoked
  · obtain ⟨f, hk, -⟩ := receiver?_eq_some_iff.mp hreceiver
    rcases hquiescent.told hstart hrun (List.getElem?_eq_some_iff.mp hk).1 with
      htold | hcancelled | hcancelling | ⟨receiver', hreceiver', hall⟩
    · exact .inl htold
    · exact .inr (.inl hcancelled)
    · exact .inr (.inr hcancelling)
    · obtain rfl := Option.some_inj.mp (hreceiver.symm.trans hreceiver')
      exact absurd (mem_notices.mp (hall ▸ hdue)) hdropped

/-- The update of the child waits when the child is revoked.  It is not written; the end is. -/
theorem notification_emission_sample : ∃ m₀ m₁ m,
    Transition.run (step Sample.sha256) m₀ (Sample.forwarding ++ Sample.revoking) = some m₁ ∧
    m₁.link.events = [(0, .notification Sample.update.updateId)] ∧
    Transition.run (step Sample.sha256) m₀
      ((Sample.forwarding ++ Sample.revoking) ++ (Sample.refusing ++ Sample.ending)) = some m ∧
    notices 0 m.link.output = notices 0 m₁.link.output ∧
    ∃ message, message.terminal = true ∧ .event 0 message ∈ m.link.output := by
  obtain ⟨m₀, m₁, hstart, hrun₁, hm⟩ := Sample.exists_run (Sample.forwarding ++ Sample.revoking)
    (fun m₁ : System ↦ decide (m₁.link.events = [(0, .notification Sample.update.updateId)]) &&
      (m₁.shared.store.tables.capability? Sample.document Sample.child).any (·.revoked) &&
      (Transition.run (step Sample.sha256) m₁ (Sample.refusing ++ Sample.ending)).any
          fun m : System ↦
        decide (m.link.phase = .serving) && decide (m.link.events = []) &&
        m.shared.registry.holder.isNone &&
          m.link.forwarders.all (fun f ↦ decide (f.stage = .returned)) &&
        decide (Frame.cancelled 0 ∉ m.link.output) &&
        decide (notification 0 Sample.update.updateId ∉ m.link.output) &&
        decide ((m.receiver? 0).map Receiver.entry = some Sample.entry) &&
        decide (Sample.update.updateId ∈ due m.shared.registry.answered Sample.entry))
          (by decide +kernel)
  simp only [Bool.and_eq_true, decide_eq_true_eq] at hm
  obtain ⟨⟨hevents, hrevoked⟩, hafter⟩ := hm
  obtain ⟨row, hrow, hrevoked⟩ := (Option.any_eq_true _ _).mp hrevoked
  obtain ⟨m, hafter, hview⟩ := (Option.any_eq_true _ _).mp hafter
  simp only [Bool.and_eq_true, decide_eq_true_eq, Option.isNone_iff_eq_none,
    List.all_eq_true] at hview
  obtain ⟨⟨⟨⟨⟨⟨⟨hserving, hdrained⟩, hfree⟩, hreturned⟩, huncancelled⟩, hdropped⟩, hentry⟩, hdue⟩ :=
    hview
  obtain ⟨receiver, hreceiver, hentry⟩ := Option.map_eq_some_iff.mp hentry
  have hrun := Transition.run_trans hrun₁ hafter
  obtain ⟨hrevocation, -, -, hquiescent⟩ := notification_emission hstart hrun 0
  have hsilent := hrevocation _ _ m₁ receiver receiver.entry.capabilityId rfl hrun₁ hreceiver
    (.refl _) (by rw [hentry]; exact ⟨row, hrow, hrevoked⟩)
  have hrests : m.Quiescent :=
    ⟨by simp [hserving], hfree, hdrained, by simp [hserving, LinkPhase.held?],
    fun f hmem ↦ .inl (hreturned f hmem)⟩
  refine ⟨m₀, m₁, m, hrun₁, hevents, hrun, hsilent, ?_⟩
  refine (hquiescent hrests receiver _ hreceiver (hentry ▸ hdue) hdropped).resolve_right ?_
  rintro (⟨earlier, later, houtput, -⟩ | hphase)
  · exact huncancelled (houtput ▸ by simp)
  · exact absurd (hserving.symm.trans hphase) (by simp)

end System

end Renee.Emission
