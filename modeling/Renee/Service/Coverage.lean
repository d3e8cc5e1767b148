import Renee.Service.Reasons

/-!
# Nothing is lost on the way to the client

* `System.underway` is what a subscription is going to be notified of, wherever it is.
* `Reached.base_run`: what is committed to a subscription stays the end of the log.
* `notices_accepted`: what a client has been notified of and what is under way is what has been
  accepted, from some moment on before the acknowledgement was written.
-/

set_option autoImplicit false

namespace Renee

open ByteString Interference

/-! ## The end of the log -/

/-- **What is committed to a subscription stays the end of the log.** -/
theorem SharedStore.Reached.base_run {sha256 : List UInt8 → Bytes verifierLength} {t₁ : SharedStore}
    (h : t₁.Reached sha256) {entry : SubscriptionEntry}
    (hmem : entry ∈ handedOut t₁.registry.answered) :
    ∃ base, base <+: t₁.store.tables.accepted entry.documentId ∧
      ∀ taken t, Transition.run (SharedStore.step sha256) t₁ taken = some t →
        t.store.tables.accepted entry.documentId = base ++ t.registry.committed entry := by
  obtain ⟨base, hbase⟩ := h.base entry hmem
  refine ⟨base, hbase ▸ List.prefix_append _ _, fun taken t hrun ↦ ?_⟩
  obtain ⟨requests, actions, hcarries, -⟩ := run_spec h.inOrder hrun
  rw [hcarries.accepted, hbase,
    RegistrySystem.committed_run h.recorded.1 hmem hcarries.registry, List.append_assoc]

namespace Emission

variable {k : ℕ} {f : Forwarder} {receiver : Receiver} {s : Shared} {L : Link}

/-! ## What has been written and what has not -/

/-- The update that a message notifies of. -/
def Message.update? : Message → Option UpdateId
  | .notification u => some u
  | .overflow | .invalidated => none

theorem update?_notifications (us : List UpdateId) :
    (us.map .notification).filterMap Message.update? = us := by
  rw [List.filterMap_map]
  exact List.filterMap_some

/-- What has been settled has been written, unless something has been left out. -/
theorem notices_eq (h : ∀ u, (notification k u, false) ∉ L.log) :
    notices k L.output = (settled L.log k).filterMap Message.update? := by
  rw [notices, Link.output, List.filterMap_map, List.filterMap_filter, settled,
    List.filterMap_filterMap]
  refine List.filterMap_congr ?_
  rintro ⟨frame, written⟩ hmem
  cases frame with
  | event k' message =>
    cases message with
    | notification u =>
      by_cases heq : k' = k
      · subst heq
        cases written with
        | true => simp [Frame.notice?, Frame.message?, Message.update?]
        | false => exact absurd hmem (h u)
      · simp [Frame.notice?, Frame.message?, heq]
    | overflow | invalidated => by_cases heq : k' = k <;>
        simp [Frame.notice?, Frame.message?, Message.update?, heq]
  | response | acknowledgement k' | cancelled k' => simp [Frame.notice?, Frame.message?]

/-- While nothing is being done with an active receiver its forwarder polls. -/
theorem Forwarder.Agrees.polls (h : f.Agrees receiver s) (hrests : receiver.phase.rests = true)
    (hactive : ¬Ended receiver.entry s) : f.stage = .polling := by
  cases h with
  | polling stage polls opened returned => exact stage
  | observed stage idle opened poll returned => exact stage
  | ending stage ends =>
    rcases ends with ⟨program, hphase⟩ | ⟨-, hended⟩
    · exact absurd hrests (by simp [hphase, ReceiverPhase.rests])
    · exact absurd hended hactive
  | ended closed ended drops => exact absurd ended hactive

namespace System

variable {sha256 : List UInt8 → Bytes verifierLength} {m₀ m₁ m m' : System} {action : Action}
  {actions before : List Action}

/-- What a subscription is going to be notified of: the loop has it in hand, it waits in the queue
of events, `next` has returned it, or it is in the queue of the subscription. -/
def underway (m : System) (k : ℕ) (f : Forwarder) (receiver : Receiver) : List UpdateId :=
  (held m.link.phase k ++ queued m.link.events k).filterMap Message.update? ++
    (notified (receiver.returned.drop f.seen.length) ++
      (m.shared.registry.shared.cells receiver.entry.subscriptionId).queue)

/-! ## A run of the connection is a run of the store -/

theorem Stepped.shared (h : Stepped sha256 m action m') : m'.shared = m.shared ∨
    ∃ taken, m.shared.step sha256 taken = some m'.shared := by
  cases h with
  | other action shared permits step => exact .inr ⟨_, step⟩
  | subscribe d c a shared serving step => exact .inr ⟨_, step⟩
  | user called shared opened step => exact .inr ⟨_, step⟩
  | forward action k f f' new shared opened sees was moves step =>
    exact step.imp id fun ⟨called, hstep⟩ ↦ ⟨_, hstep⟩
  | _ => exact .inl rfl

theorem Kept.shared_run (h : m.Kept sha256)
    (hrun : Transition.run (System.step sha256) m actions = some m') :
    ∃ taken, Transition.run (SharedStore.step sha256) m.shared taken = some m'.shared := by
  induction actions generalizing m with
  | nil =>
    obtain rfl := Option.some_inj.mp hrun
    exact ⟨[], rfl⟩
  | cons action actions ih =>
    obtain ⟨m₁, hstep, hrun⟩ := Transition.run_cons_eq_some_iff.mp hrun
    obtain ⟨taken, htaken⟩ := ih (h.step hstep) hrun
    rcases (stepped h.looks hstep).shared with hsame | ⟨first, hfirst⟩
    · exact ⟨taken, hsame ▸ htaken⟩
    · exact ⟨first :: taken, Transition.run_cons_eq_some_iff.mpr ⟨_, hfirst, htaken⟩⟩

/-- What has been acknowledged has a receiver. -/
theorem Kept.exists_receives (h : m.Kept sha256) (hack : .acknowledgement k ∈ m.link.output) :
    ∃ entry, m.Receives k entry := by
  have hlt := h.link.lt_of_about hack (show decide (k = k) = true from decide_eq_true rfl)
  obtain ⟨receiver, htracked⟩ := h.tracked _ (List.getElem_mem hlt)
  exact ⟨receiver.entry, receives_iff.mpr
    ⟨_, receiver, List.getElem?_eq_getElem hlt, htracked.received, rfl⟩⟩

/-! ## What is due -/

/-- What has been written is the beginning of what is due. -/
theorem Kept.notices_prefix (h : m.Kept sha256) (hcut : m.link.log.Pairwise Cut)
    (hfree : m.shared.registry.holder = none) (hk : m.link.forwarders[k]? = some f)
    (hi : m.shared.registry.receivers[f.receiver]? = some receiver) :
    notices k m.link.output <+: due m.shared.registry.answered receiver.entry := by
  obtain ⟨receiver', htracked⟩ := h.tracked f (List.mem_of_getElem? hk)
  obtain rfl := Option.some_inj.mp (hi.symm.trans htracked.received)
  obtain ⟨-, l, hrecorded⟩ := h.reached.recorded
  obtain ⟨-, -, -, hseen⟩ := h.link.lifecycle hcut hk
  refine (hseen.trans ?_).trans (hrecorded.notified_prefix hfree (List.mem_of_getElem? hi))
  obtain ⟨later, hlater⟩ := htracked.seen
  rw [← hlater, notified, notified, List.flatMap_append]
  exact List.prefix_append _ _

/-- What the forwarder of an active subscription has dealt with has been written, or is on its
way. -/
theorem Kept.notices_seen (h : m.Kept sha256) (hguarded : m.Guarded) (hopen : m.link.phase ≠ .ended)
    (hk : m.link.forwarders[k]? = some f)
    (hi : m.shared.registry.receivers[f.receiver]? = some receiver)
    (hactive : m.shared.registry.isActive receiver = true) (hpolling : f.stage = .polling) :
    notices k m.link.output ++
      (held m.link.phase k ++ queued m.link.events k).filterMap Message.update? =
        notified f.seen := by
  have hnot := RegistrySystem.isActive_iff.mp hactive
  have hall : ∀ u, (notification k u, false) ∉ m.link.log := by
    intro u hmem
    obtain ⟨entry, hreceives, hended⟩ := hguarded.left_out k u hmem
    obtain rfl := hreceives.eq (receives_iff.mpr ⟨f, receiver, hk, hi, rfl⟩)
    exact hnot hended
  have hsent : f.sent = none := (h.link.forwarder f (List.mem_of_getElem? hk)).sent_of_not_closed
    (by simp [Forwarder.closed, hpolling])
  have hstream := congrArg (List.filterMap Message.update?) (h.link.stream hopen k f hk)
  rwa [Forwarder.made, hsent, Option.toList_none, List.append_nil, update?_notifications,
    List.append_assoc, List.filterMap_append, ← notices_eq hall] at hstream

/-- **What is due has been written or is under way**, while the subscription is active. -/
theorem Kept.notices_underway (h : m.Kept sha256) (hguarded : m.Guarded)
    (hfree : m.shared.registry.holder = none) (hopen : m.link.phase ≠ .ended)
    (hk : m.link.forwarders[k]? = some f)
    (hi : m.shared.registry.receivers[f.receiver]? = some receiver)
    (hactive : m.shared.registry.isActive receiver = true) (hrests : receiver.phase.rests = true) :
    notices k m.link.output ++ m.underway k f receiver =
      due m.shared.registry.answered receiver.entry := by
  obtain ⟨receiver', htracked⟩ := h.tracked f (List.mem_of_getElem? hk)
  obtain rfl := Option.some_inj.mp (hi.symm.trans htracked.received)
  obtain ⟨hw, l, hrecorded⟩ := h.reached.recorded
  have hpolling := (htracked.agrees hopen).polls hrests (RegistrySystem.isActive_iff.mp hactive)
  have hseen := h.notices_seen hguarded hopen hk hi hactive hpolling
  obtain ⟨later, hlater⟩ := htracked.seen
  have hreturned : notified f.seen ++ notified (receiver.returned.drop f.seen.length) =
      notified receiver.returned := by
    rw [← hlater, List.drop_left, notified, notified, notified, List.flatMap_append]
  rw [underway, ← List.append_assoc, hseen, ← List.append_assoc, hreturned]
  exact hrecorded.due_eq hw hfree (List.mem_of_getElem? hi) hactive
    (ReceiverPhase.rests_iff.mp hrests)

/-- **No update is lost on the way to the client, nor repeated, nor out of order.**  Take any moment
at which the acknowledgement of a subscription has been written.  Then, in every run from there,
whenever no operation of the registry is in progress, the notifications that have been written are
about the first of the updates that have been accepted since some moment before; and while the
connection is open and the subscription active, the rest of these updates, in order, is under
way. -/
theorem notices_accepted (hstart : m₀.Starts sha256)
    (hrun₁ : Transition.run (step sha256) m₀ before = some m₁)
    (hack : .acknowledgement k ∈ m₁.link.output) :
    ∃ entry n, n ≤ (m₁.shared.store.tables.accepted entry.documentId).length ∧
      ∀ after m, Transition.run (step sha256) m₁ after = some m → m.shared.registry.holder = none →
        (m.shared.store.tables.accepted entry.documentId).Nodup ∧
        notices k m.link.output <+: (m.shared.store.tables.accepted entry.documentId).drop n ∧
        ∃ f receiver, m.link.forwarders[k]? = some f ∧ m.receiver? k = some receiver ∧
          receiver.entry = entry ∧
          (m.link.phase ≠ .ended → m.shared.registry.isActive receiver = true →
            receiver.phase.rests = true → notices k m.link.output ++ m.underway k f receiver =
              (m.shared.store.tables.accepted entry.documentId).drop n) := by
  obtain ⟨hkept₁, -⟩ := hstart.run hrun₁
  obtain ⟨entry, hreceives⟩ := hkept₁.exists_receives hack
  have hhanded : entry ∈ handedOut m₁.shared.registry.answered := by
    obtain ⟨f, receiver, -, hi, rfl⟩ := receives_iff.mp hreceives
    obtain ⟨-, l, hrecorded⟩ := hkept₁.reached.recorded
    rw [hrecorded.booked.handed]
    exact List.mem_map_of_mem (List.mem_of_getElem? hi)
  obtain ⟨base, hbase, haccepted⟩ := hkept₁.reached.base_run hhanded
  refine ⟨entry, base.length, hbase.length_le, fun after m hrun hfree ↦ ?_⟩
  have hrun₀ := Transition.run_trans hrun₁ hrun
  obtain ⟨hkept, hguarded⟩ := hstart.run hrun₀
  obtain ⟨taken, htaken⟩ := hkept₁.shared_run hrun
  obtain ⟨f, receiver, hk, hi, rfl⟩ := receives_iff.mp ((hkept₁.later_run hrun).receives hreceives)
  rw [haccepted taken m.shared htaken, List.drop_left, RegistrySystem.committed_of_free hfree]
  refine ⟨?_, hkept.notices_prefix (hstart.orderly hrun₀).cut hfree hk hi, f, receiver, hk,
    receiver?_eq_some_iff.mpr ⟨f, hk, hi⟩, rfl,
    fun hopen ↦ hkept.notices_underway hguarded hfree hopen hk hi⟩
  rw [← RegistrySystem.committed_of_free hfree, ← haccepted taken m.shared htaken]
  exact nodup_updateIds _ _

/-- The child is notified of its update, with nothing under way. -/
theorem notices_accepted_sample : ∃ m₀ m, Transition.run (step Sample.sha256) m₀
      (Sample.forwarding ++ Sample.granting ++ [.link .written]) = some m ∧
    ∃ n, notices 0 m.link.output = (m.shared.store.tables.accepted Sample.document).drop n := by
  obtain ⟨m₀, m, hstart, hrun, hm⟩ := Sample.exists_run
    (Sample.forwarding ++ Sample.granting ++ [.link .written])
    (fun m : System ↦ decide (Frame.acknowledgement 0 ∈ m.link.output) &&
      m.shared.registry.holder.isNone && decide (m.link.phase ≠ .ended) &&
      m.link.forwarders[0]?.any fun f : Forwarder ↦ (m.receiver? 0).any fun receiver : Receiver ↦
        m.shared.registry.isActive receiver && receiver.phase.rests &&
        decide (receiver.entry = Sample.entry) && decide (m.underway 0 f receiver = []))
    (by decide +kernel)
  simp only [Bool.and_eq_true, decide_eq_true_eq, Option.isNone_iff_eq_none] at hm
  obtain ⟨⟨⟨hack, hfree⟩, hopen⟩, hf⟩ := hm
  obtain ⟨f, hk, hreceiver⟩ := (Option.any_eq_true _ _).mp hf
  obtain ⟨receiver, hreceiver, hview⟩ := (Option.any_eq_true _ _).mp hreceiver
  simp only [Bool.and_eq_true, decide_eq_true_eq] at hview
  obtain ⟨⟨⟨hactive, hrests⟩, hentry⟩, hdrained⟩ := hview
  obtain ⟨entry, n, -, haccepted⟩ := notices_accepted hstart hrun hack
  obtain ⟨-, -, f', receiver', hk', hreceiver', rfl, hall⟩ := haccepted [] m rfl hfree
  obtain rfl := Option.some_inj.mp (hk.symm.trans hk')
  obtain rfl := Option.some_inj.mp (hreceiver.symm.trans hreceiver')
  have hall := hall hopen hactive hrests
  rw [hdrained, List.append_nil, hentry] at hall
  exact ⟨m₀, m, hrun, n, hall⟩

end System

end Emission

end Renee
