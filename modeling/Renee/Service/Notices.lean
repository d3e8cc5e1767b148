import Renee.Service.Authority

/-!
# What a connection writes

* `Link.Kept.lifecycle`: about each subscription a connection writes the acknowledgement, then
  notifications, then at most one terminal event.
* `Orderly` is about the order of what has been written and of what has been left out.
* `output_ordered`, `notification_authorized` and `silent_after_revocation` are about every run,
  among any other users of the store.
-/

set_option autoImplicit false

namespace Renee.Emission

open ByteString Ancestry
open UpdateSubscriptionRegistry (UpdateSubscriptionPoll)

/-! ## About one subscription -/

/-- The update that a frame notifies of. -/
def Frame.notice? (k : ℕ) : Frame → Option UpdateId
  | .event k' (.notification u) => if k' = k then some u else none
  | _ => none

/-- The updates that a subscription is notified of. -/
def notices (k : ℕ) (frames : List Frame) : List UpdateId := frames.filterMap (Frame.notice? k)

/-- The frame of a notification. -/
def notification (k : ℕ) (u : UpdateId) : Frame := .event k (.notification u)

/-- A cancellation has been responded to after the acknowledgement. -/
def CancelAnswered (k : ℕ) (frames : List Frame) : Prop :=
  ∃ earlier later, frames = earlier ++ .cancelled k :: later ∧ .acknowledgement k ∈ earlier

/-- An event that has been settled as `left` is left out is not followed by one that is written. -/
def Cut (entry later : Frame × Bool) : Prop :=
  ∀ k u u', entry = (notification k u, false) → later ≠ (notification k u', true)

/-- Nothing is written of a subscription that has been dismissed, or of which something has been
left out. -/
structure Orderly (log : List (Frame × Bool)) : Prop where
  pending : ∀ before k u after, log = before ++ (notification k u, true) :: after →
    ¬Dismissed before k
  cut : log.Pairwise Cut

variable {log : List (Frame × Bool)} {frame : Frame} {written : Bool} {k : ℕ} {L : Link}
  {f : Forwarder}

theorem notices_map (k : ℕ) (us : List UpdateId) : notices k (us.map (notification k)) = us := by
  rw [notices, List.filterMap_map]
  exact (congrArg (List.filterMap · us) (funext fun u ↦ if_pos rfl)).trans List.filterMap_some

theorem notices_terminal {last : Option Message} (h : ∀ message ∈ last, message.terminal = true) :
    notices k (last.toList.map (.event k)) = [] := by
  cases last with
  | none => rfl
  | some message =>
    cases message with
    | notification u => exact absurd (h _ rfl) (by simp [Message.terminal])
    | overflow | invalidated => rfl

theorem notices_filter (k : ℕ) (frames : List Frame) :
    notices k (frames.filter (·.about k)) = notices k frames := by
  rw [notices, notices, List.filterMap_filter]
  refine congrArg (List.filterMap · frames) (funext fun frame ↦ ?_)
  cases frame with
  | event k' message => by_cases h : k' = k <;> cases message <;>
    simp [Frame.about, Frame.notice?, h]
  | response | acknowledgement k' | cancelled k' => simp [Frame.about, Frame.notice?]

theorem mem_notices {frames : List Frame} {u : UpdateId} :
    u ∈ notices k frames ↔ notification k u ∈ frames := by
  rw [notices, List.mem_filterMap]
  constructor
  · rintro ⟨frame, hmem, heq⟩
    cases frame with
    | event k' message =>
      cases message with
      | notification u' =>
        obtain ⟨rfl, hu⟩ := Option.ite_none_right_eq_some.mp heq
        exact Option.some_inj.mp hu ▸ hmem
      | overflow | invalidated => exact absurd heq (by simp [Frame.notice?])
    | response | acknowledgement k' | cancelled k' => exact absurd heq (by simp [Frame.notice?])
  · exact fun hmem ↦ ⟨_, hmem, if_pos rfl⟩

/-- Nothing is notified of after a cancellation has been responded to. -/
theorem Orderly.silent (h : Orderly L.log) {earlier later : List Frame}
    (houtput : L.output = earlier ++ .cancelled k :: later) (hack : .acknowledgement k ∈ earlier) :
    notices k later = [] := by
  rw [Link.output] at houtput
  obtain ⟨earlier', rest, hfilter, rfl, hrest⟩ := List.map_eq_append_iff.mp houtput
  obtain ⟨⟨frame, written⟩, later', rfl, hframe, rfl⟩ := List.map_eq_cons_iff.mp hrest
  obtain rfl : frame = .cancelled k := hframe
  obtain ⟨before, rest, hlog, rfl, hrest⟩ := List.filter_eq_append_iff.mp hfilter
  obtain ⟨skipped, after, rfl, -, hwritten, rfl⟩ := List.filter_eq_cons_iff.mp hrest
  obtain rfl : written = true := hwritten
  refine List.eq_nil_iff_forall_not_mem.mpr fun u hu ↦ ?_
  obtain ⟨⟨frame, written⟩, hmem, hframe⟩ := List.mem_map.mp (mem_notices.mp hu)
  obtain rfl : frame = notification k u := hframe
  obtain ⟨hmem, hwritten⟩ := List.mem_filter.mp hmem
  obtain rfl : written = true := hwritten
  obtain ⟨between, after, rfl⟩ := List.append_of_mem hmem
  refine h.pending (before ++ skipped ++ (.cancelled k, true) :: between) k u after (by simp [hlog])
    ⟨before ++ skipped, between, rfl, List.mem_append_left _ ?_⟩
  obtain ⟨⟨frame, written⟩, hmem, hframe⟩ := List.mem_map.mp hack
  obtain rfl : frame = .acknowledgement k := hframe
  obtain ⟨hmem, hwritten⟩ := List.mem_filter.mp hmem
  obtain rfl : written = true := hwritten
  exact hmem

/-- Whoever has been dismissed has been answered. -/
theorem Dismissed.answered (h : Dismissed L.log k) : CancelAnswered k L.output := by
  obtain ⟨before, after, hlog, hack⟩ := h
  refine ⟨(before.filter Prod.snd).map Prod.fst, (after.filter Prod.snd).map Prod.fst, ?_,
    List.mem_map.mpr ⟨_, List.mem_filter.mpr ⟨hack, rfl⟩, rfl⟩⟩
  rw [Link.output, hlog, List.filter_append, List.filter_cons_of_pos rfl, List.map_append,
    List.map_cons]

theorem orderly_nil : Orderly [] :=
  ⟨fun before _ _ after h ↦ absurd h (by simp), List.Pairwise.nil⟩

theorem Orderly.concat (h : Orderly log)
    (hwritten : ∀ k u, (frame, written) = (notification k u, true) →
      ¬Dismissed log k ∧ ∀ u', (notification k u', false) ∉ log) :
    Orderly (log ++ [(frame, written)]) where
  pending before k u after heq := by
    rcases List.eq_nil_or_concat after with rfl | ⟨after, last, rfl⟩
    · obtain ⟨rfl, hlast⟩ := List.append_inj' heq rfl
      exact (hwritten k u (List.singleton_inj.mp hlast)).1
    · rw [List.concat_eq_append, ← List.cons_append, ← List.append_assoc] at heq
      exact h.pending before k u after (List.append_inj' heq rfl).1
  cut := by
    refine List.pairwise_append.mpr ⟨h.cut, List.pairwise_singleton _ _, ?_⟩
    rintro entry hmem last hlast k u u' rfl rfl
    exact (hwritten k u' (List.mem_singleton.mp hlast).symm).2 u hmem

namespace Link

/-- **What has been settled of a subscription**: its acknowledgement, notifications that it has been
notified of in this order, and at most one terminal event, which has been written. -/
theorem Kept.entries (h : L.Kept) (hk : L.forwarders[k]? = some f) :
    ∃ us last notes, L.log.filter (·.1.about k) = (.acknowledgement k, true) ::
        (notes ++ (Option.toList last).map fun message ↦ (.event k message, true)) ∧
      notes.map Prod.fst = us.map (notification k) ∧ us <+: notified f.seen ∧
      (last = none ∨ last = f.sent) ∧ (∀ message ∈ last, message.terminal = true) ∧
      Emission.settled L.log k = us.map .notification ++ last.toList := by
  obtain ⟨rest, hrest, hevents⟩ := h.frames k (List.getElem?_eq_some_iff.mp hk).1
  have hsettled : Emission.settled L.log k = rest.filterMap fun entry ↦ entry.1.message? k := by
    have hfilter : Emission.settled L.log k =
        (L.log.filter (·.1.about k)).filterMap fun entry ↦ entry.1.message? k := by
      rw [Emission.settled, List.filterMap_filter]
      refine congrArg (List.filterMap · L.log) (funext fun entry ↦ ?_)
      rcases entry with ⟨frame, written⟩
      cases frame with
      | event k' message => by_cases heq : k' = k <;> simp [Frame.about, Frame.message?, heq]
      | response | acknowledgement k' | cancelled k' => simp [Frame.about, Frame.message?]
    rw [hfilter, hrest]
    rfl
  have hrest_map : rest.map Prod.fst = (Emission.settled L.log k).map (.event k) := by
    rw [hsettled]
    clear hrest hsettled
    induction rest with
    | nil => rfl
    | cons entry rest ih =>
      obtain ⟨message, hmessage⟩ := hevents entry (List.mem_cons_self ..)
      have hself : entry.1.message? k = some message := by
        rw [hmessage]
        exact if_pos rfl
      rw [List.filterMap_cons_some (f := fun entry : Frame × Bool ↦ entry.1.message? k) hself,
        List.map_cons, List.map_cons, hmessage,
        ih fun entry hmem ↦ hevents entry (List.mem_cons_of_mem _ hmem)]
  -- what has been settled is the beginning of what has been put into the queue
  obtain ⟨us, last, hus, hlast, hmade⟩ : ∃ us last, us <+: notified f.seen ∧
      (last = none ∨ last = f.sent) ∧
      Emission.settled L.log k = us.map .notification ++ Option.toList last := by
    have hprefixed := h.settled k f hk
    rw [Forwarder.made] at hprefixed
    have hnone (hprefixed : Emission.settled L.log k <+: (notified f.seen).map .notification) :
        ∃ us last, us <+: notified f.seen ∧ (last = none ∨ last = f.sent) ∧
          Emission.settled L.log k = us.map .notification ++ Option.toList last := by
      obtain ⟨us, hus, heq⟩ := List.prefix_map_iff.mp hprefixed
      exact ⟨us, none, hus, .inl rfl, by rw [heq, Option.toList_none, List.append_nil]⟩
    cases hsent : f.sent with
    | none =>
      rw [hsent, Option.toList_none, List.append_nil] at hprefixed
      exact hsent ▸ hnone hprefixed
    | some message =>
      rw [hsent, Option.toList_some, List.prefix_concat_iff] at hprefixed
      rcases hprefixed with heq | hprefixed
      · exact ⟨_, some message, List.prefix_refl _, .inr rfl, heq⟩
      · exact hsent ▸ hnone hprefixed
  have hterminal : ∀ message ∈ last, message.terminal = true := by
    intro message hmem
    rcases hlast with rfl | rfl
    · exact absurd hmem (by simp)
    · exact ((h.forwarder f (List.mem_of_getElem? hk)).sent message hmem).2
  rw [hmade, List.map_append, List.map_map] at hrest_map
  obtain ⟨notes, ends, rfl, hnotes, hends⟩ := List.map_eq_append_iff.mp hrest_map
  refine ⟨us, last, notes, ?_, hnotes, hus, hlast, hterminal, hmade⟩
  rw [hrest]
  refine congrArg (fun ends ↦ _ :: (notes ++ ends)) ?_
  -- a terminal event is never left out
  cases last with
  | none => exact List.map_eq_nil_iff.mp hends
  | some message =>
    obtain ⟨⟨frame, written⟩, rfl, hframe⟩ := List.map_eq_singleton_iff.mp hends
    obtain rfl : frame = .event k message := hframe
    cases written with
    | true => rfl
    | false =>
      have hmem : (Frame.event k message, false) ∈ L.log.filter (·.1.about k) := by
        rw [hrest]
        simp
      obtain ⟨k', u, heq⟩ := h.left_out _ (List.mem_of_mem_filter hmem)
      obtain ⟨-, rfl⟩ := Frame.event.inj heq
      exact absurd (hterminal _ rfl) (by simp [Message.terminal])

theorem output_filter (L : Link) (k : ℕ) : L.output.filter (·.about k) =
    ((L.log.filter (·.1.about k)).filter Prod.snd).map Prod.fst := by
  rw [output, List.filter_map, List.filter_comm]
  rfl

/-- What is written before a cut is the beginning of what has been settled. -/
theorem written_of_cut {l : List (Frame × Bool)}
    (hevents : ∃ us : List UpdateId, l.map Prod.fst = us.map (notification k))
    (hcut : l.Pairwise Cut) : l.filter Prod.snd <+: l := by
  induction l with
  | nil => exact List.prefix_refl _
  | cons entry l ih =>
    obtain ⟨us, heq⟩ := hevents
    obtain ⟨u, us, rfl, hu, hus⟩ := List.map_eq_cons_iff.mp heq.symm
    obtain ⟨hfirst, hrest⟩ := List.pairwise_cons.mp hcut
    rcases entry with ⟨frame, written⟩
    cases written with
    | true =>
      rw [List.filter_cons_of_pos rfl]
      exact List.cons_prefix_cons.mpr ⟨rfl, ih ⟨us, hus.symm⟩ hrest⟩
    | false =>
      rw [List.filter_cons_of_neg (by simp), List.filter_eq_nil_iff.mpr]
      · exact List.nil_prefix
      · rintro ⟨later, written⟩ hmem hwritten
        obtain rfl : written = true := hwritten
        have hlater : later ∈ us.map (notification k) := by
          rw [hus]
          exact List.mem_map_of_mem hmem
        obtain ⟨u', -, rfl⟩ := List.mem_map.mp hlater
        exact hfirst _ hmem k u u' (congrArg (·, false) hu.symm) rfl

/-- **What a connection writes about a subscription**: the acknowledgement, notifications of the
first updates that its forwarder has observed, and at most one terminal event. -/
theorem Kept.lifecycle (h : L.Kept) (hcut : L.log.Pairwise Cut) (hk : L.forwarders[k]? = some f) :
    ∃ last : Option Message, L.output.filter (·.about k) =
        .acknowledgement k ::
          ((notices k L.output).map (notification k) ++ last.toList.map (.event k)) ∧
      (∀ message ∈ last, message.terminal = true ∧ f.sent = some message) ∧
      notices k L.output <+: notified f.seen := by
  obtain ⟨us, last, notes, hentries, hnotes, hus, hlast, hterminal, -⟩ := h.entries hk
  have hends : ((last.toList.map fun message ↦ (Frame.event k message, true)).filter Prod.snd).map
      Prod.fst = last.toList.map (Frame.event k) := by cases last <;> rfl
  obtain ⟨ws, hws, hwritten⟩ : ∃ ws, ws <+: us ∧
      (notes.filter Prod.snd).map Prod.fst = ws.map (notification k) := by
    refine List.prefix_map_iff.mp (hnotes ▸ (written_of_cut ⟨us, hnotes⟩ ?_).map Prod.fst)
    have hsub : notes.Sublist L.log := by
      refine List.Sublist.trans ?_ (List.filter_sublist (p := fun entry ↦ entry.1.about k))
      rw [hentries]
      exact (List.sublist_append_left _ _).cons _
    exact hcut.sublist hsub
  have houtput : L.output.filter (·.about k) =
      .acknowledgement k :: (ws.map (notification k) ++ last.toList.map (.event k)) := by
    rw [output_filter, hentries, List.filter_cons_of_pos rfl, List.map_cons, List.filter_append,
      List.map_append, hwritten, hends]
  obtain rfl : notices k L.output = ws := by
    rw [← notices_filter, houtput]
    change notices k (_ ++ _) = ws
    rw [notices, List.filterMap_append]
    change notices k _ ++ notices k _ = ws
    rw [notices_map, notices_terminal hterminal, List.append_nil]
  refine ⟨last, houtput, fun message hmem ↦ ⟨hterminal message hmem, ?_⟩, hws.trans hus⟩
  rcases hlast with rfl | rfl
  · exact absurd hmem (by simp)
  · exact hmem

/-- Of a subscription that has not been acknowledged nothing has been written. -/
theorem Kept.ordered (h : L.Kept) (hcut : L.log.Pairwise Cut) (k : ℕ) :
    L.output.filter (·.about k) = [] ∨ ∃ last : Option Message, L.output.filter (·.about k) =
        .acknowledgement k ::
          ((notices k L.output).map (notification k) ++ last.toList.map (.event k)) ∧
      ∀ message ∈ last, message.terminal = true := by
  rcases Nat.lt_or_ge k L.forwarders.length with hlt | hle
  · obtain ⟨last, houtput, hlast, -⟩ := h.lifecycle hcut (List.getElem?_eq_getElem hlt)
    exact .inr ⟨last, houtput, fun message hmem ↦ (hlast message hmem).1⟩
  · refine .inl ?_
    have hunknown : L.log.filter (·.1.about k) = [] := List.filter_eq_nil_iff.mpr
      fun entry hmem ↦ by simp [h.unknown k hle entry hmem]
    rw [output_filter, hunknown]
    rfl

end Link

/-! ## A connection of the child -/

/-- The document is there, with its child, and a channel is opened. -/
def Sample.prepared : List SharedAction :=
  [.request (.create Sample.create), .request (.grant Sample.grant), .request .openChannel]

/-- A connection on the channel. -/
def Sample.connected (shared : SharedStore) : System :=
  ⟨shared, [], none, Sample.channel, .start, .result false⟩

/-- The child subscribes; its update is inserted, and waits in the queue of events. -/
def Sample.forwarding : List Action :=
  [.subscribe Sample.document Sample.child (Sample.secret 3), .link (.acknowledge 0),
    .other (.request (.accept Sample.accept)), .other .work, .other .work, .other .work, .poll 0] ++
  List.replicate 6 (.proceed 0) ++ [.link (.handle 0 (.notification Sample.update.updateId) false)]

/-- The loop takes it from the queue, and finds it authorized. -/
def Sample.granting : List Action :=
  [.link .dequeue, .link .enter, .look, .look, .link (.checked true)]

/-- The capability is revoked by somebody who has the gate. -/
def Sample.revoking : List Action :=
  .exclude Sample.document :: .other (.request (.revoke Sample.revoke)) ::
    List.replicate 4 (.other .work)

/-- The loop takes it from the queue, and leaves it out. -/
def Sample.refusing : List Action :=
  [.release Sample.document, .link .dequeue, .link .enter, .look, .look, .link (.checked false)]

/-- What the connection comes to. -/
theorem Sample.exists_run (actions : List Action) (p : System → Bool)
    (h : (Transition.run (SharedStore.step Sample.sha256) Sample.opened prepared).any (fun t ↦
      (Transition.run (System.step Sample.sha256) (connected t) actions).any p) = true) :
    ∃ m₀ m : System, m₀.Starts Sample.sha256 ∧
      Transition.run (System.step Sample.sha256) m₀ actions = some m ∧ p m = true := by
  obtain ⟨t, hprepared, h⟩ := (Option.any_eq_true _ _).mp h
  obtain ⟨m, hrun, hm⟩ := (Option.any_eq_true _ _).mp h
  have hview : (Transition.run (SharedStore.step Sample.sha256) Sample.opened prepared).any (fun t ↦
      t.registry.holder.isNone && t.revoking.isNone &&
        t.registry.fields.recognizes Sample.channel &&
      decide (Sample.channel.id ∉ t.registry.shared.lost) &&
      decide (t.registry.called = [.openChannel])) = true := by decide +kernel
  rw [hprepared, Option.any_some] at hview
  simp only [Bool.and_eq_true, Option.isNone_iff_eq_none, decide_eq_true_eq] at hview
  obtain ⟨⟨⟨⟨hholder, hrevoking⟩, hrecognized⟩, hheld⟩, hcalled⟩ := hview
  have hreached : t.Reached Sample.sha256 :=
    ⟨[], Sample.provision, Sample.bytes _ 9, 1, prepared, hprepared⟩
  refine ⟨connected t, m,
    ⟨hreached, ⟨hholder, hrevoking⟩, hrecognized, hheld, fun channel hmem ↦ ?_,
    rfl, rfl, false, rfl⟩, hrun, hm⟩
  have hmem : RegistryCall.closeChannel channel ∈ t.registry.called := hmem
  rw [hcalled] at hmem
  exact absurd hmem (by simp)

/-! ## Among the other users of the store -/

namespace System

variable {sha256 : List UInt8 → Bytes verifierLength} {m₀ m m' : System} {action : Action}
  {actions before after : List Action} {u : UpdateId}

/-- What a step settles. -/
theorem Stepped.settles (h : Stepped sha256 m action m') : m'.link.log = m.link.log ∨
    ∃ frame written, m'.link.log = m.link.log ++ [(frame, written)] ∧
      ∀ k u, frame = notification k u →
        m.link.phase = if written then .writing k u else .checking k u := by
  cases h with
  | loop action link alone sees step => exact (Link.stepped step).settles
  | _ => exact .inl rfl

/-- What has been written is what has been written before, and what a step settles. -/
theorem Stepped.output (h : Stepped sha256 m action m') : m'.link.output = m.link.output ∨
    ∃ frame, m'.link.output = m.link.output ++ [frame] ∧
      ∀ k u, frame = notification k u → m.link.phase = .writing k u := by
  rcases h.settles with hsame | ⟨frame, written, hlog, hphase⟩
  · exact .inl (by rw [Link.output, hsame, Link.output])
  · have houtput : m'.link.output =
        m.link.output ++ ([(frame, written)].filter Prod.snd).map Prod.fst := by
      rw [Link.output, hlog, List.filter_append, List.map_append, Link.output]
    cases written with
    | true => exact .inr ⟨frame, houtput, hphase⟩
    | false => exact .inl (houtput.trans (List.append_nil _))

/-- **Every step keeps the order.** -/
theorem orderly_step (h : Orderly m.link.log) (hguarded : m.Guarded)
    (hstep : Stepped sha256 m action m') : Orderly m'.link.log := by
  rcases hstep.settles with hsame | ⟨frame, written, hlog, hphase⟩
  · exact hsame ▸ h
  · refine hlog ▸ h.concat fun k u heq ↦ ?_
    obtain ⟨rfl, rfl⟩ := Prod.mk.inj heq
    obtain ⟨entry, -, hgranted⟩ := hguarded.writing k u (hphase k u rfl)
    exact ⟨hgranted.pending, hgranted.complete⟩

theorem Starts.orderly (h : m₀.Starts sha256)
    (hrun : Transition.run (step sha256) m₀ actions = some m) : Orderly m.link.log := by
  refine (Transition.invariant (I := fun m : System ↦ (m.Kept sha256 ∧ m.Guarded) ∧
    Orderly m.link.log) (fun m _ _ h hstep ↦ ⟨⟨h.1.1.step hstep, h.1.2.step h.1.1 hstep⟩,
      orderly_step h.2 h.1.2 (stepped h.1.1.looks hstep)⟩) ⟨⟨h.kept, h.guarded⟩, ?_⟩ hrun).2
  rw [h.link]
  exact orderly_nil

/-- **What a connection writes about a subscription is in order**: its acknowledgement before
anything else, then notifications, then at most one terminal event, and nothing after it.  And once
a cancellation that follows the acknowledgement has been responded to, there are no more
notifications. -/
theorem output_ordered (hstart : m₀.Starts sha256)
    (hrun : Transition.run (step sha256) m₀ actions = some m) (k : ℕ) :
    (m.link.output.filter (·.about k) = [] ∨ ∃ last : Option Message,
      m.link.output.filter (·.about k) = .acknowledgement k ::
        ((notices k m.link.output).map (notification k) ++ last.toList.map (.event k)) ∧
      ∀ message ∈ last, message.terminal = true) ∧
    ∀ earlier later, m.link.output = earlier ++ .cancelled k :: later →
      .acknowledgement k ∈ earlier → notices k later = [] := by
  obtain ⟨hkept, -⟩ := hstart.run hrun
  have horderly := hstart.orderly hrun
  exact ⟨hkept.link.ordered horderly.cut k, fun earlier later ↦ horderly.silent⟩

/-- The acknowledgement and the notification. -/
theorem output_ordered_sample : ∃ m₀ m, Transition.run (step Sample.sha256) m₀
      (Sample.forwarding ++ Sample.granting ++ [.link .written]) = some m ∧
    m.link.output.length = 2 ∧ ∃ last : Option Message,
      m.link.output.filter (·.about 0) = .acknowledgement 0 ::
        ((notices 0 m.link.output).map (notification 0) ++ last.toList.map (.event 0)) := by
  obtain ⟨m₀, m, hstart, hrun, hm⟩ := Sample.exists_run
    (Sample.forwarding ++ Sample.granting ++ [.link .written])
    (fun m ↦ decide (m.link.output.length = 2) &&
      decide (m.link.output.filter (·.about 0) ≠ [])) (by decide +kernel)
  simp only [Bool.and_eq_true, decide_eq_true_eq] at hm
  obtain ⟨last, hlast, -⟩ := (output_ordered hstart hrun 0).1.resolve_left hm.2
  exact ⟨m₀, m, hrun, hm.1, last, hlast⟩

/-- The update that the loop has in hand has been returned by the `next` of its subscription. -/
theorem Kept.observed (h : m.Kept sha256) (hheld : m.link.phase.held? = some (k, u)) :
    ∃ receiver, m.receiver? k = some receiver ∧ u ∈ notified receiver.returned := by
  have hopen : m.link.phase ≠ .ended := fun heq ↦ by simp [heq, LinkPhase.held?] at hheld
  obtain ⟨f, hf⟩ : ∃ f, m.link.forwarders[k]? = some f :=
    ⟨_, List.getElem?_eq_getElem (h.link.held k u hheld)⟩
  obtain ⟨receiver, htracked⟩ := h.tracked f (List.mem_of_getElem? hf)
  refine ⟨receiver, receiver?_eq_some_iff.mpr ⟨_, hf, htracked.received⟩, ?_⟩
  have hmade := h.link.stream hopen k f hf
  rw [held_of_some hheld, if_pos rfl] at hmade
  have hmem : Message.notification u ∈ f.made := by
    rw [← hmade]
    simp
  rw [Forwarder.made, List.mem_append, Option.mem_toList] at hmem
  rcases hmem with hnotified | hsent
  · obtain ⟨u', hu', heq⟩ := List.mem_map.mp hnotified
    obtain ⟨rest, hrest⟩ := htracked.seen
    rw [← hrest, notified, List.flatMap_append]
    exact List.mem_append_left _ (Message.notification.inj heq ▸ hu')
  · have hsound := h.link.forwarder _ (List.mem_of_getElem? hf)
    exact absurd (hsound.sent _ hsent).2 (by simp [Message.terminal])

/-- **What a connection notifies of is authorized when it is written**: `next` has returned the
update, and at that moment neither the capability of the subscription nor any that it descends from
has been revoked. -/
theorem notification_authorized (hstart : m₀.Starts sha256)
    (hrun : Transition.run (step sha256) m₀ actions = some m)
    (hstep : m.step sha256 action = some m')
    (hwritten : m'.link.output = m.link.output ++ [notification k u]) :
    ∃ receiver, m.receiver? k = some receiver ∧ u ∈ notified receiver.returned ∧
      ∀ c, Descends (m.shared.store.tables.parent? receiver.entry.documentId)
        receiver.entry.capabilityId c →
        m.shared.store.tables.Active receiver.entry.documentId c := by
  obtain ⟨hkept, hguarded⟩ := hstart.run hrun
  have hphase : m.link.phase = .writing k u := by
    rcases (stepped hkept.looks hstep).output with hsame | ⟨frame, houtput, hphase⟩
    · exact absurd (hsame.symm.trans hwritten) (by simp)
    · refine hphase k u ?_
      exact List.singleton_inj.mp (List.append_cancel_left (houtput.symm.trans hwritten))
  obtain ⟨receiver, hreceiver, hnotified⟩ := hkept.observed (k := k) (u := u) (by rw [hphase]; rfl)
  obtain ⟨entry, hk, hgranted⟩ := hguarded.writing k u hphase
  obtain rfl : receiver.entry = entry :=
    Receives.eq (Option.map_eq_some_iff.mpr ⟨receiver, hreceiver, rfl⟩) hk
  refine ⟨receiver, hreceiver, hnotified, fun c hdescends ↦ ?_⟩
  exact (hkept.reached.inOrder.tables.control.forest _).active_of_descends hgranted.active hdescends

/-- The update is written while the capability of the child is active. -/
theorem notification_authorized_sample : ∃ m₀ m m' receiver, Transition.run (step Sample.sha256) m₀
      (Sample.forwarding ++ Sample.granting) = some m ∧
    m.step Sample.sha256 (.link .written) = some m' ∧
    m'.link.output = m.link.output ++ [notification 0 Sample.update.updateId] ∧
    m.receiver? 0 = some receiver ∧
    m.shared.store.tables.Active receiver.entry.documentId receiver.entry.capabilityId := by
  obtain ⟨m₀, m, hstart, hrun, hm⟩ := Sample.exists_run
    (Sample.forwarding ++ Sample.granting)
    (fun m : System ↦ (m.step Sample.sha256 (.link .written)).any fun m' : System ↦
      decide (m'.link.output = m.link.output ++ [notification 0 Sample.update.updateId]))
    (by decide +kernel)
  obtain ⟨m', hstep, hwritten⟩ := (Option.any_eq_true _ _).mp hm
  have hwritten := of_decide_eq_true hwritten
  obtain ⟨receiver, hreceiver, -, hactive⟩ := notification_authorized hstart hrun hstep hwritten
  exact ⟨m₀, m, m', receiver, hrun, hstep, hwritten, hreceiver, hactive _ (.refl _)⟩

/-- Nothing is notified of that belongs to a capability that is revoked, or below one that is, also
if it is only found out later that the subscription belongs to it. -/
theorem notices_below (h : m.Kept sha256 ∧ m.Guarded)
    (hafter : Transition.run (step sha256) m after = some m') {entry : SubscriptionEntry}
    (hk : m'.Receives k entry) {c : CapabilityId}
    (hbelow : Descends (m'.shared.store.tables.parent? entry.documentId) entry.capabilityId c)
    (hrevoked : m.shared.store.tables.IsRevoked entry.documentId c) :
    notices k m'.link.output = notices k m.link.output := by
  induction after generalizing m with
  | nil => rw [Option.some_inj.mp hafter]
  | cons action after ih =>
    obtain ⟨m₁, hstep, hafter'⟩ := Transition.run_cons_eq_some_iff.mp hafter
    obtain ⟨hkept, hguarded⟩ := h
    have hstepped := stepped hkept.looks hstep
    have hlater := hkept.later_run hafter
    rw [ih ⟨hkept.step hstep, hguarded.step hkept hstep⟩ hafter'
      (hrevoked.persists (hstepped.later hkept).stays.tables)]
    rcases hstepped.output with heq | ⟨frame, houtput, hphase⟩
    · rw [heq]
    have hnone : notices k [frame] = [] := by
      refine List.eq_nil_iff_forall_not_mem.mpr fun u hu ↦ ?_
      obtain rfl := List.mem_singleton.mp (mem_notices.mp hu)
      -- it would have been found authorized while what it descends from was revoked
      obtain ⟨entry', hk', hgranted⟩ := hguarded.writing k u (hphase k u rfl)
      obtain rfl := (hlater.receives hk').eq hk
      obtain ⟨row, hrow, hactive⟩ := hgranted.active
      have hcontrol := hkept.reached.inOrder.tables.control
      have hbelow' := (hlater.stays.tables.descends_iff hcontrol hrow).mp hbelow
      obtain ⟨row', hrow', hended⟩ := hrevoked.of_descends hcontrol hbelow'
      rw [Option.some_inj.mp (hrow.symm.trans hrow'), hended] at hactive
      exact absurd hactive (by simp)
    rw [houtput, notices, List.filterMap_append]
    change notices k _ ++ notices k [frame] = _
    rw [hnone, List.append_nil]

/-- **After a revocation has committed nothing below its target is notified of any more**, whatever
is in the queues and on its way, and whoever else does anything. -/
theorem silent_after_revocation (hstart : m₀.Starts sha256)
    (hrun : Transition.run (step sha256) m₀ before = some m) {receiver : Receiver}
    (hreceiver : m.receiver? k = some receiver) {c : CapabilityId}
    (hbelow : Descends (m.shared.store.tables.parent? receiver.entry.documentId)
      receiver.entry.capabilityId c)
    (hrevoked : m.shared.store.tables.IsRevoked receiver.entry.documentId c)
    (hafter : Transition.run (step sha256) m after = some m') :
    notices k m'.link.output = notices k m.link.output := by
  have hkept := hstart.run hrun
  have hk : m.Receives k receiver.entry := Option.map_eq_some_iff.mpr ⟨receiver, hreceiver, rfl⟩
  exact notices_below hkept hafter ((hkept.1.later_run hafter).receives hk) (.refl _)
    (hrevoked.of_descends hkept.1.reached.inOrder.tables.control hbelow)

/-- The update waits in the queue of events when the capability is revoked, and is not written. -/
theorem silent_after_revocation_sample : ∃ m₀ m m', Transition.run (step Sample.sha256) m₀
      (Sample.forwarding ++ Sample.revoking) = some m ∧
    m.link.events = [(0, .notification Sample.update.updateId)] ∧
    Transition.run (step Sample.sha256) m Sample.refusing = some m' ∧ m'.link.events = [] ∧
    notices 0 m'.link.output = [] := by
  obtain ⟨m₀, m, hstart, hrun, hm⟩ := Sample.exists_run
    (Sample.forwarding ++ Sample.revoking)
    (fun m : System ↦ decide (m.link.events = [(0, .notification Sample.update.updateId)]) &&
      decide (m.link.output = [.acknowledgement 0]) &&
      decide ((m.receiver? 0).map Receiver.entry = some Sample.entry) &&
      (m.shared.store.tables.capability? Sample.document Sample.child).any (·.revoked) &&
      (Transition.run (step Sample.sha256) m Sample.refusing).any fun m' : System ↦
        decide (m'.link.events = [])) (by decide +kernel)
  simp only [Bool.and_eq_true, decide_eq_true_eq] at hm
  obtain ⟨⟨⟨⟨hevents, houtput⟩, hentry⟩, hrevoked⟩, hafter⟩ := hm
  obtain ⟨receiver, hreceiver, hentry⟩ := Option.map_eq_some_iff.mp hentry
  obtain ⟨row, hrow, hrevoked⟩ := (Option.any_eq_true _ _).mp hrevoked
  obtain ⟨m', hafter, hdequeued⟩ := (Option.any_eq_true _ _).mp hafter
  refine ⟨m₀, m, m', hrun, hevents, hafter, of_decide_eq_true hdequeued, ?_⟩
  have hrevoked : m.shared.store.tables.IsRevoked receiver.entry.documentId
      receiver.entry.capabilityId := by
    rw [hentry]
    exact ⟨row, hrow, hrevoked⟩
  rw [silent_after_revocation hstart hrun hreceiver (.refl _) hrevoked hafter, houtput]
  rfl

end System

end Renee.Emission
