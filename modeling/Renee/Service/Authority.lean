import Renee.Service.Tracking
import Renee.Store.Revocation

/-!
# What a connection notifies of is authorized

A notification is written while its capability is active, which nobody can change from the check on
until it has been written: revocations of the document are kept out by its gate.

* `System.Stepped` says what a step can do.
* `Controlled` is about the store and the revocation that has the mutex.
* `System.Guarded` holds after every run, and `notification_authorized` says what it comes to.
-/

set_option autoImplicit false

namespace Renee.Emission

open ByteString Interference SharedProgram

/-! ## What stays -/

theorem Forwarder.Moves.receiver_eq {f f' : Forwarder} {k : ℕ} {action : LinkAction}
    {new : List Message} (h : f.Moves k action new f') : f'.receiver = f.receiver := by
  cases h <;> rfl

theorem Forwarder.Moves.refused_mono {f f' : Forwarder} {k : ℕ} {action : LinkAction}
    {new : List Message} (h : f.Moves k action new f') (hf : f.refused = true) :
      f'.refused = true := by
  cases h with
  | refused poll message polling eq => rfl
  | _ => exact hf

namespace Link

variable {L L' : Link} {action : LinkAction} {k : ℕ} {f : Forwarder}

/-- A forwarder stays, with its receiver, and once the queue has been full for it that stays so. -/
theorem Stepped.forwarder (h : L.Stepped action L') (hk : L.forwarders[k]? = some f) :
    ∃ f', L'.forwarders[k]? = some f' ∧ f'.receiver = f.receiver ∧
      (f.refused = true → f'.refused = true) := by
  have hlt := (List.getElem?_eq_some_iff.mp hk).1
  have hset {j : ℕ} {g g' : Forwarder} (hj : L.forwarders[j]? = some g)
      (hsame : g'.receiver = g.receiver ∧ (g.refused = true → g'.refused = true)) :
      ∃ f', (L.forwarders.set j g')[k]? = some f' ∧ f'.receiver = f.receiver ∧
        (f.refused = true → f'.refused = true) := by
    by_cases heq : j = k
    · subst heq
      obtain rfl := Option.some_inj.mp (hk.symm.trans hj)
      exact ⟨g', List.getElem?_set_self hlt, hsame⟩
    · exact ⟨f, (List.getElem?_set_ne heq).trans hk, rfl, id⟩
  cases h with
  | acknowledge answers receiver subscribing =>
    exact ⟨f, (List.getElem?_append_left hlt).trans hk, rfl, id⟩
  | cancel k' serving =>
    rw [Link.cancel]
    split
    · rw [List.getElem?_modify, hk]
      refine ⟨_, rfl, ?_⟩
      split <;> exact ⟨rfl, id⟩
    · exact ⟨f, hk, rfl, id⟩
  | join k' g serving was returned => exact hset was ⟨rfl, id⟩
  | forward k' g g' new opened was moves => exact hset was ⟨moves.receiver_eq, moves.refused_mono⟩
  | _ => exact ⟨f, hk, rfl, id⟩

/-- **What a step settles**: nothing, or one frame.  A notification has been in hand, and is written
if it has been found authorized. -/
theorem Stepped.settles (h : L.Stepped action L') : L'.log = L.log ∨
    ∃ frame written, L'.log = L.log ++ [(frame, written)] ∧
      ∀ k u, frame = .event k (.notification u) →
        L.phase = if written then .writing k u else .checking k u := by
  cases h with
  | respond asked => exact .inr ⟨_, _, rfl, by simp⟩
  | acknowledge answers receiver subscribing => exact .inr ⟨_, _, rfl, by simp⟩
  | finishCancel k f cancelling was returned => exact .inr ⟨_, _, rfl, by simp⟩
  | cancel k serving =>
    rw [Link.cancel]
    split
    · exact .inl rfl
    · exact .inr ⟨_, _, rfl, by simp⟩
  | tell k message events serving waits last =>
    refine .inr ⟨_, _, rfl, fun k' u heq ↦ ?_⟩
    obtain ⟨-, rfl⟩ := Frame.event.inj heq
    exact absurd last (by simp [Message.terminal])
  | refused k u checking =>
    refine .inr ⟨_, _, rfl, fun k' u' heq ↦ ?_⟩
    obtain ⟨rfl, hmessage⟩ := Frame.event.inj heq
    exact Message.notification.inj hmessage ▸ checking
  | written k u writing =>
    refine .inr ⟨_, _, rfl, fun k' u' heq ↦ ?_⟩
    obtain ⟨rfl, hmessage⟩ := Frame.event.inj heq
    exact Message.notification.inj hmessage ▸ writing
  | _ => exact .inl rfl

theorem Stepped.log (h : L.Stepped action L') : L.log <+: L'.log := by
  rcases h.settles with hsame | ⟨frame, written, hlog, -⟩
  · exact hsame ▸ List.prefix_refl _
  · exact hlog ▸ List.prefix_append _ _

end Link

/-! ## What a step does -/

namespace System

variable {sha256 : List UInt8 → Bytes verifierLength} {m m' : System} {f f' : Forwarder} {k : ℕ}

/-- The document of the revocation that has the mutex after a step. -/
def controlAfter (control : Option DocumentId) (action : SharedAction) (t : SharedStore) :
    Option DocumentId :=
  if t.registry.holder.isNone && t.revoking.isNone then none
  else (SharedAction.revoked? action).or control

variable (sha256) in
/-- What a step does. -/
inductive Stepped (m : System) : Action → System → Prop
  | other (action : SharedAction) (shared : SharedStore) (permits : m.permits action = true)
      (step : m.shared.step sha256 action = some shared) :
      Stepped m (.other action) { m with shared, control := controlAfter m.control action shared }
  | exclude (d : DocumentId) (free : m.guarded ≠ some d) :
      Stepped m (.exclude d) { m with excluded := d :: m.excluded }
  | release (d : DocumentId) (done : m.control ≠ some d) :
      Stepped m (.release d) { m with excluded := m.excluded.erase d }
  | subscribe (d : DocumentId) (c : CapabilityId) (a : Authenticator) (shared : SharedStore)
      (serving : m.link.phase = .serving)
      (step : m.shared.step sha256 (.request (.subscribe ⟨m.channel, d, c, a⟩)) = some shared) :
      Stepped m (.subscribe d c a) { m with
        link := { m.link with phase := .subscribing m.shared.registry.answered.length }, shared }
  | look (k : ℕ) (u : UpdateId) (o : SharedAccess) (next : o.Answer → SharedProgram Bool)
      (checking : m.link.phase = .checking k u) (check : m.check = .access o next) :
      Stepped m .look { m with check := next (m.shared.registry.shared.exec o).1 }
  /-- A forwarder does something with its receiver. -/
  | user {action : Action} (called : RegistryAction) (shared : SharedStore)
      (opened : m.link.phase ≠ .ended) (step : m.shared.step sha256 (.user called) = some shared) :
      Stepped m action { m with shared }
  /-- The loop goes on, or a forwarder does that has dropped its receiver. -/
  | loop (action : LinkAction) (link : Link) (alone : action.forwarder? = none)
      (sees : m.sees action = true) (step : m.link.step action = some link) :
      Stepped m (.link action) { m with link, check := m.checkAfter action }
  /-- A forwarder goes on. -/
  | forward (action : LinkAction) (k : ℕ) (f f' : Forwarder) (new : List Message)
      (shared : SharedStore) (opened : m.link.phase ≠ .ended) (sees : m.sees action = true)
      (was : m.link.forwarders[k]? = some f) (moves : f.Moves k action new f')
      (step : shared = m.shared ∨ ∃ called, m.shared.step sha256 (.user called) = some shared) :
      Stepped m (.link action) { m with
        link := { m.link with events := m.link.events ++ new.map (Prod.mk k) }.setForwarder k f',
        shared }

theorem follow_spec {link : Link} (hstep : { m with link }.follow sha256 k = some m') :
    ∃ shared, m' = { m with link, shared } ∧
      (shared = m.shared ∨ ∃ called, m.shared.step sha256 (.user called) = some shared) := by
  rw [follow] at hstep
  split at hstep
  · obtain ⟨g, shared, -, hshared, rfl⟩ := user_eq_some_iff.mp hstep
    exact ⟨shared, rfl, .inr ⟨_, hshared⟩⟩
  · obtain ⟨g, shared, -, hshared, rfl⟩ := user_eq_some_iff.mp hstep
    exact ⟨shared, rfl, .inr ⟨_, hshared⟩⟩
  · obtain ⟨g, shared, -, hshared, rfl⟩ := user_eq_some_iff.mp hstep
    exact ⟨shared, rfl, .inr ⟨_, hshared⟩⟩
  · exact ⟨m.shared, (Option.some_inj.mp hstep).symm, .inl rfl⟩

/-- **What a step can do.** -/
theorem stepped (hlooks : Looks m.check) {action : Action}
    (hstep : m.step sha256 action = some m') : Stepped sha256 m action m' := by
  cases action with
  | other action =>
    rw [System.step, others] at hstep
    split at hstep
    · obtain ⟨shared, hshared, rfl⟩ := Option.map_eq_some_iff.mp hstep
      exact .other action shared ‹_› hshared
    · exact absurd hstep (by simp)
  | exclude d =>
    rw [System.step] at hstep
    split at hstep
    · exact absurd hstep (by simp)
    · rename_i hfree
      refine Option.some_inj.mp hstep ▸ .exclude d fun heq ↦ hfree ?_
      rw [decide_eq_true heq, Bool.or_true]
  | release d =>
    rw [System.step] at hstep
    split at hstep
    · exact absurd hstep (by simp)
    · exact Option.some_inj.mp hstep ▸ .release d ‹_›
  | subscribe d c a =>
    rw [System.step, System.subscribe] at hstep
    split at hstep
    · obtain ⟨link, hlink, hstep⟩ := Option.bind_eq_some_iff.mp hstep
      obtain ⟨shared, hshared, rfl⟩ := Option.map_eq_some_iff.mp hstep
      cases Link.stepped hlink with
      | subscribe answers serving => exact .subscribe d c a shared serving hshared
      | forward k f f' new opened was moves => cases moves
    · exact absurd hstep (by simp)
  | look =>
    obtain ⟨k, u, o, next, hphase, hcheck, -, rfl⟩ := look_spec hlooks hstep
    exact .look k u o next hphase hcheck
  | poll k =>
    rw [System.step, System.poll] at hstep
    split at hstep
    · split at hstep
      · rename_i hguard
        have huser {called : ℕ → RegistryAction} (huser : m.user sha256 k called = some m') :
            Stepped sha256 m (.poll k) m' := by
          obtain ⟨f, shared, -, hshared, rfl⟩ := user_eq_some_iff.mp huser
          exact .user _ shared hguard.1 hshared
        split at hstep
        · split at hstep
          · exact huser hstep
          · exact absurd hstep (by simp)
        · exact huser hstep
        · exact absurd hstep (by simp)
      · exact absurd hstep (by simp)
    · exact absurd hstep (by simp)
  | proceed k =>
    rw [System.step] at hstep
    split at hstep
    · exact absurd hstep (by simp)
    · obtain ⟨f, shared, -, hshared, rfl⟩ := user_eq_some_iff.mp hstep
      exact .user _ shared ‹_› hshared
  | forget k =>
    rw [System.step, System.forget] at hstep
    split at hstep
    · split at hstep
      · rename_i hguard
        obtain ⟨f, shared, -, hshared, rfl⟩ := user_eq_some_iff.mp hstep
        exact .user _ shared hguard.1 hshared
      · exact absurd hstep (by simp)
    · exact absurd hstep (by simp)
  | link action =>
    rw [System.step, System.connection] at hstep
    split at hstep
    · rename_i hsees
      obtain ⟨link, hlink, hstep⟩ := Option.bind_eq_some_iff.mp hstep
      cases hforwarder : action.forwarder? with
      | none =>
        rw [hforwarder] at hstep
        obtain rfl := Option.some_inj.mp hstep
        exact .loop action link hforwarder hsees hlink
      | some k =>
        rw [hforwarder] at hstep
        obtain ⟨shared, rfl, hshared⟩ := follow_spec hstep
        cases Link.stepped hlink with
        | forward k f f' new opened was moves =>
          exact .forward action k f f' new shared opened hsees was moves hshared
        | _ => exact absurd hforwarder (by simp [LinkAction.forwarder?])
    · exact absurd hstep (by simp)

/-! ## What stays -/

/-- The receiver of a subscription is there, for an entry that does not change. -/
def Receives (m : System) (k : ℕ) (entry : SubscriptionEntry) : Prop :=
  (m.receiver? k).map Receiver.entry = some entry

theorem receives_iff {entry : SubscriptionEntry} : m.Receives k entry ↔ ∃ f receiver,
    m.link.forwarders[k]? = some f ∧ m.shared.registry.receivers[f.receiver]? = some receiver ∧
      receiver.entry = entry := by
  rw [Receives, Option.map_eq_some_iff]
  constructor
  · rintro ⟨receiver, hreceiver, hentry⟩
    obtain ⟨f, hk, hi⟩ := receiver?_eq_some_iff.mp hreceiver
    exact ⟨f, receiver, hk, hi, hentry⟩
  · rintro ⟨f, receiver, hk, hi, hentry⟩
    exact ⟨receiver, receiver?_eq_some_iff.mpr ⟨f, hk, hi⟩, hentry⟩

/-- What a step leaves. -/
structure Later (m m' : System) : Prop where
  stays : m.shared.Stays m'.shared
  forwarders : ∀ (k : ℕ) (f : Forwarder), m.link.forwarders[k]? = some f →
    ∃ f' : Forwarder, m'.link.forwarders[k]? = some f' ∧ f'.receiver = f.receiver ∧
      (f.refused = true → f'.refused = true)
  log : m.link.log <+: m'.link.log

variable {entry : SubscriptionEntry} {action : Action}

theorem Later.refl (m : System) : m.Later m :=
  ⟨.refl _, fun _ f hk ↦ ⟨f, hk, rfl, id⟩, List.prefix_refl _⟩

theorem Later.trans {m'' : System} (h : m.Later m') (h' : m'.Later m'') : m.Later m'' where
  stays := h.stays.trans h'.stays
  forwarders k f hk := by
    obtain ⟨f', hk', hreceiver, hrefused⟩ := h.forwarders k f hk
    obtain ⟨f'', hk'', hreceiver', hrefused'⟩ := h'.forwarders k f' hk'
    exact ⟨f'', hk'', hreceiver'.trans hreceiver, fun hf ↦ hrefused' (hrefused hf)⟩
  log := h.log.trans h'.log

theorem Later.receives (h : m.Later m') (hk : m.Receives k entry) : m'.Receives k entry := by
  obtain ⟨f, receiver, hf, hi, rfl⟩ := receives_iff.mp hk
  obtain ⟨f', hf', hreceiver, -⟩ := h.forwarders k f hf
  obtain ⟨receiver', hi', hentry, -⟩ := h.stays.receivers f.receiver receiver hi
  exact receives_iff.mpr ⟨f', receiver', hf', hreceiver ▸ hi', hentry⟩

theorem Stepped.later (h : m.Kept sha256) (hstep : Stepped sha256 m action m') : m.Later m' := by
  have hforwarders : ∀ (k : ℕ) (f : Forwarder), m.link.forwarders[k]? = some f →
      ∃ f' : Forwarder, m.link.forwarders[k]? = some f' ∧ f'.receiver = f.receiver ∧
        (f.refused = true → f'.refused = true) :=
    fun k f hk ↦ ⟨f, hk, rfl, id⟩
  cases hstep with
  | other action shared permits step =>
    exact ⟨h.reached.stays step, hforwarders, List.prefix_refl _⟩
  | subscribe d c a shared serving step =>
    exact ⟨h.reached.stays step, hforwarders, List.prefix_refl _⟩
  | user called shared opened step =>
    exact ⟨h.reached.stays step, hforwarders, List.prefix_refl _⟩
  | exclude d free => exact ⟨.refl _, hforwarders, List.prefix_refl _⟩
  | release d done => exact ⟨.refl _, hforwarders, List.prefix_refl _⟩
  | look k u o next checking check => exact ⟨.refl _, hforwarders, List.prefix_refl _⟩
  | loop action link alone sees step =>
    have hlink := Link.stepped step
    exact ⟨.refl _, fun k f hk ↦ hlink.forwarder hk, hlink.log⟩
  | forward action k f f' new shared opened sees was moves step =>
    have hlink : m.link.Stepped action _ := .forward k f f' new opened was moves
    refine ⟨?_, fun k f hk ↦ hlink.forwarder hk, hlink.log⟩
    rcases step with rfl | ⟨called, hshared⟩
    · exact .refl _
    · exact h.reached.stays hshared

/-- **What a run leaves.** -/
theorem Kept.later_run (h : m.Kept sha256) {actions : List Action}
    (hrun : Transition.run (System.step sha256) m actions = some m') : m.Later m' := by
  refine (Transition.invariant (I := fun t : System ↦ t.Kept sha256 ∧ m.Later t) ?_
    ⟨h, .refl m⟩ hrun).2
  exact fun t action t' ⟨hkept, hlater⟩ hstep ↦
    ⟨hkept.step hstep, hlater.trans ((stepped hkept.looks hstep).later hkept)⟩

/-! ## What is authorized -/

/-- The capability of a subscription is active, nothing of the subscription has been left out, and
it has not been dismissed. -/
structure Granted (m : System) (k : ℕ) (entry : SubscriptionEntry) : Prop where
  active : m.shared.store.tables.Active entry.documentId entry.capabilityId
  complete : ∀ u, (.event k (.notification u), false) ∉ m.link.log
  pending : ¬Dismissed m.link.log k

/-- How far a check is. -/
inductive Checking (m : System) (k : ℕ) (entry : SubscriptionEntry) : SharedProgram Bool → Prop
  | begins : Checking m k entry (authorizedProgram entry)
  /-- The lease is held. -/
  | held : Checking m k entry
      (load entry.subscriptionId >>= fun state ↦ pure (decide (state = active)))
  | refused (ended : Ended entry m.shared.registry.shared) : Checking m k entry (.result false)
  | granted (granted : m.Granted k entry) : Checking m k entry (.result true)

/-- What holds after every run. -/
structure Guarded (m : System) : Prop where
  entitled : m.shared.Entitled fun d ↦ m.control = some d
  /-- Whoever revokes has the gate for himself. -/
  excluded : ∀ d, m.control = some d → d ∈ m.excluded
  /-- Nobody has the gate for himself that the loop has. -/
  guarded : ∀ d, m.guarded = some d → d ∉ m.excluded
  checking : ∀ k u, m.link.phase = .checking k u →
    ∃ entry, m.Receives k entry ∧ m.Checking k entry m.check
  writing : ∀ k u, m.link.phase = .writing k u → ∃ entry, m.Receives k entry ∧ m.Granted k entry
  left_out : ∀ k u, (.event k (.notification u), false) ∈ m.link.log →
    ∃ entry, m.Receives k entry ∧ Ended entry m.shared.registry.shared

theorem guarded_eq_some {u : UpdateId}
    (hphase : m.link.phase = .checking k u ∨ m.link.phase = .writing k u)
    (hk : m.Receives k entry) : m.guarded = some entry.documentId := by
  obtain ⟨receiver, hreceiver, rfl⟩ := Option.map_eq_some_iff.mp hk
  rcases hphase with hphase | hphase
  all_goals
    rw [guarded, hphase]
    exact congrArg (Option.map fun receiver ↦ receiver.entry.documentId) hreceiver

theorem guarded_eq_none (h : ∀ k u, m.link.phase ≠ .checking k u ∧ m.link.phase ≠ .writing k u) :
    m.guarded = none := by
  rw [guarded]
  split
  · exact absurd ‹_› (h _ _).1
  · exact absurd ‹_› (h _ _).2
  · rfl

theorem Granted.later (h : m.Granted k entry) (hlog : m'.link.log = m.link.log)
    (hactive : m'.shared.store.tables.Active entry.documentId entry.capabilityId) :
    m'.Granted k entry :=
  ⟨hactive, hlog ▸ h.complete, hlog ▸ h.pending⟩

theorem Checking.later {program : SharedProgram Bool} (h : m.Checking k entry program)
    (hlater : m.Later m') (hgranted : m.Granted k entry → m'.Granted k entry) :
    m'.Checking k entry program := by
  cases h with
  | begins => exact .begins
  | held => exact .held
  | refused ended => exact .refused (hlater.stays.follows.ended_of_ended ended)
  | granted granted => exact .granted (hgranted granted)

/-- A step that leaves what the loop has in hand, while the gate is kept. -/
theorem Guarded.later (h : m.Guarded) (hlater : m.Later m')
    (hentitled : m'.shared.Entitled fun d ↦ m'.control = some d)
    (hexcluded : ∀ d, m'.control = some d → d ∈ m'.excluded)
    (hphase : m'.link.phase = m.link.phase) (hlog : m'.link.log = m.link.log)
    (hcheck : m'.check = m.check)
    (hactive : ∀ d c, m.guarded = some d → m.shared.store.tables.Active d c →
      m'.shared.store.tables.Active d c)
    (hfree : ∀ d, m.guarded = some d → d ∉ m'.excluded) : m'.Guarded := by
  have hgranted {k : ℕ} {u : UpdateId} {entry : SubscriptionEntry}
      (hphase : m.link.phase = .checking k u ∨ m.link.phase = .writing k u)
      (hk : m.Receives k entry) (hgranted : m.Granted k entry) : m'.Granted k entry :=
    hgranted.later hlog (hactive _ _ (guarded_eq_some hphase hk) hgranted.active)
  refine ⟨hentitled, hexcluded, fun d hd ↦ ?_, fun k u heq ↦ ?_, fun k u heq ↦ ?_,
    fun k u hmem ↦ ?_⟩
  · by_cases hgate : ∃ k u, m.link.phase = .checking k u ∨ m.link.phase = .writing k u
    · obtain ⟨k, u, hgate⟩ := hgate
      obtain ⟨entry, hk⟩ : ∃ entry, m.Receives k entry := by
        rcases hgate with hgate | hgate
        · exact (h.checking k u hgate).imp fun _ h ↦ h.1
        · exact (h.writing k u hgate).imp fun _ h ↦ h.1
      have hgate' : m'.link.phase = .checking k u ∨ m'.link.phase = .writing k u := hphase ▸ hgate
      obtain rfl := Option.some_inj.mp ((guarded_eq_some hgate' (hlater.receives hk)).symm.trans hd)
      exact hfree _ (guarded_eq_some hgate hk)
    · have hnone : m'.guarded = none := guarded_eq_none fun k u ↦ by
        rw [hphase]
        exact ⟨fun heq ↦ hgate ⟨k, u, .inl heq⟩, fun heq ↦ hgate ⟨k, u, .inr heq⟩⟩
      exact absurd (hnone.symm.trans hd) (by simp)
  · rw [hphase] at heq
    obtain ⟨entry, hk, hchecking⟩ := h.checking k u heq
    exact ⟨entry, hlater.receives hk, hcheck ▸ hchecking.later hlater (hgranted (.inl heq) hk)⟩
  · rw [hphase] at heq
    obtain ⟨entry, hk, hwriting⟩ := h.writing k u heq
    exact ⟨entry, hlater.receives hk, hgranted (.inr heq) hk hwriting⟩
  · obtain ⟨entry, hk, hended⟩ := h.left_out k u (hlog ▸ hmem)
    exact ⟨entry, hlater.receives hk, hlater.stays.follows.ended_of_ended hended⟩

/-- A step after which the loop has no gate. -/
theorem Guarded.without_gate (h : m.Guarded) (hlater : m.Later m')
    (hentitled : m'.shared.Entitled fun d ↦ m'.control = some d)
    (hexcluded : ∀ d, m'.control = some d → d ∈ m'.excluded)
    (hphase : ∀ k u, m'.link.phase ≠ .checking k u ∧ m'.link.phase ≠ .writing k u)
    (hleft : ∀ k u, (.event k (.notification u), false) ∈ m'.link.log →
      (.event k (.notification u), false) ∈ m.link.log ∨
        ∃ entry, m.Receives k entry ∧ Ended entry m.shared.registry.shared) : m'.Guarded where
  entitled := hentitled
  excluded := hexcluded
  guarded d hd := absurd ((guarded_eq_none hphase).symm.trans hd) (by simp)
  checking k u heq := absurd heq (hphase k u).1
  writing k u heq := absurd heq (hphase k u).2
  left_out k u hmem := by
    obtain ⟨entry, hk, hended⟩ := (hleft k u hmem).elim (h.left_out k u) id
    exact ⟨entry, hlater.receives hk, hlater.stays.follows.ended_of_ended hended⟩

/-- The store takes a step, and whoever revokes has the gate for himself. -/
theorem Guarded.shared (h : m.Guarded) (hreached : m.shared.Reached sha256) {action : SharedAction}
    (hrevoked : ∀ d, SharedAction.revoked? action = some d → d ∈ m.excluded) {t : SharedStore}
    (hstep : m.shared.step sha256 action = some t) :
    (t.Entitled fun d ↦ (SharedAction.revoked? action).or m.control = some d) ∧
      (∀ d, (SharedAction.revoked? action).or m.control = some d → d ∈ m.excluded) ∧
        ∀ d c, d ∉ m.excluded → m.shared.store.tables.Active d c → t.store.tables.Active d c := by
  obtain ⟨hw, l, hrecorded⟩ := hreached.recorded
  have hrevokes {r : RevokeCommand} (heq : action = .request (.revoke r)) :
      SharedAction.revoked? action = some r.documentId := by rw [heq]; rfl
  refine ⟨?_, fun d heq ↦ ?_, fun d c hd hactive ↦ ?_⟩
  · cases hdocument : SharedAction.revoked? action with
    | none =>
      refine h.entitled.step hreached.inOrder hw hrecorded (fun r heq ↦ ?_) hstep
      exact absurd (hdocument.symm.trans (hrevokes heq)) (by simp)
    | some d =>
      -- it has the mutex from here on, so nothing has been in progress
      obtain ⟨hfree, hrevoking⟩ : m.shared.registry.holder = none ∧ m.shared.revoking = none := by
        cases action with
        | request request =>
          rw [SharedStore.step] at hstep
          split at hstep
          · rename_i hguard
            exact ⟨Option.isNone_iff_eq_none.mp hguard.1, Option.isNone_iff_eq_none.mp hguard.2⟩
          · exact absurd hstep (by simp)
        | work | user action => exact absurd hdocument (by simp [SharedAction.revoked?])
      refine (h.entitled.of_free hfree hrevoking).step hreached.inOrder hw hrecorded
        (fun r heq ↦ ?_) hstep
      exact hdocument.symm.trans (hrevokes heq)
  · cases hdocument : SharedAction.revoked? action with
    | none =>
      rw [hdocument] at heq
      exact h.excluded d heq
    | some d' =>
      rw [hdocument] at heq
      exact hrevoked d (hdocument.trans heq)
  · refine h.entitled.active_step hreached.inOrder (fun heq ↦ hd (h.excluded d heq))
      (fun r heq ↦ ?_) hactive hstep
    rintro rfl
    exact hd (hrevoked _ (hrevokes heq))

/-! ### The check -/

theorem Receives.eq {entry' : SubscriptionEntry} (h : m.Receives k entry)
    (h' : m.Receives k entry') : entry = entry' := Option.some_inj.mp (h.symm.trans h')

/-- What is found active is granted. -/
theorem Guarded.granted (h : m.Guarded) (hkept : m.Kept sha256) {u : UpdateId}
    (hphase : m.link.phase = .checking k u) (hk : m.Receives k entry)
    (hactive : (m.shared.registry.shared.cells entry.subscriptionId).state = active) :
    m.Granted k entry := by
  have hopen : m.link.phase ≠ .ended := by simp [hphase]
  obtain ⟨f, receiver, hf, hi, rfl⟩ := receives_iff.mp hk
  obtain ⟨receiver', htracked⟩ := hkept.tracked f (List.mem_of_getElem? hf)
  obtain rfl := Option.some_inj.mp (hi.symm.trans htracked.received)
  refine ⟨?_, fun u' hmem ↦ ?_, fun hdismissed ↦ ?_⟩
  · have htaken : Taken m.shared.registry.shared receiver.entry :=
      ⟨hactive, htracked.channel ▸ (hkept.leased hopen).held⟩
    refine (h.entitled.registry.live receiver (List.mem_of_getElem? hi) htaken).resolve_right
      fun hor ↦ ?_
    exact h.guarded _ (guarded_eq_some (.inl hphase) hk) (h.excluded _ hor.1)
  · obtain ⟨entry, hk', hended⟩ := h.left_out k u' hmem
    exact hk.eq hk' ▸ hended <| hactive
  · exact (htracked.agrees hopen).ended_of_closed (hkept.link.dismissed k f hf hdismissed) hactive

/-- A check goes on. -/
theorem Guarded.look (h : m.Guarded) (hkept : m.Kept sha256) {u : UpdateId} {o : SharedAccess}
    {next : o.Answer → SharedProgram Bool} (hphase : m.link.phase = .checking k u)
    (hk : m.Receives k entry) (hchecking : m.Checking k entry (.access o next)) :
    m.Checking k entry (next (m.shared.registry.shared.exec o).1) := by
  have hopen : m.link.phase ≠ .ended := by simp [hphase]
  generalize hprogram : Program.access o next = program at hchecking
  cases hchecking with
  | begins =>
    obtain ⟨f, receiver, hf, hi, rfl⟩ := receives_iff.mp hk
    obtain ⟨receiver', htracked⟩ := hkept.tracked f (List.mem_of_getElem? hf)
    obtain rfl := Option.some_inj.mp (hi.symm.trans htracked.received)
    obtain ⟨rfl, hnext⟩ := Program.access.inj hprogram
    obtain rfl := eq_of_heq hnext
    have hheld : m.shared.registry.shared.lost.contains receiver.entry.channelId = false := by
      rw [htracked.channel]
      exact Bool.eq_false_iff.mpr fun heq ↦
        (hkept.leased hopen).held (List.contains_iff_mem.mp heq)
    simp only [Shared.exec, hheld, Bool.not_false]
    exact .held
  | held =>
    obtain ⟨rfl, hnext⟩ := Program.access.inj hprogram
    obtain rfl := eq_of_heq hnext
    change m.Checking k entry
      (.result (decide ((m.shared.registry.shared.cells entry.subscriptionId).state = active)))
    by_cases hactive : (m.shared.registry.shared.cells entry.subscriptionId).state = active
    · rw [decide_eq_true hactive]
      exact .granted (h.granted hkept hphase hk hactive)
    · rw [decide_eq_false hactive]
      exact .refused hactive
  | refused ended => exact absurd hprogram (by simp)
  | granted granted => exact absurd hprogram (by simp)

/-! ### Every step -/

/-- The loop takes the gate. -/
theorem Guarded.enter (h : m.Guarded) {u : UpdateId} (hphase : m.link.phase = .entering k u)
    (hsees : m.sees .enter = true) (hlater : m.Later
      { m with link := { m.link with phase := .checking k u }, check := m.checkAfter .enter }) :
    { m with link := { m.link with phase := .checking k u }, check :=
      m.checkAfter .enter }.Guarded := by
  obtain ⟨receiver, hreceiver, hfree⟩ : ∃ receiver, m.receiver? k = some receiver ∧
      receiver.entry.documentId ∉ m.excluded := by
    rw [sees, hphase] at hsees
    obtain ⟨receiver, hreceiver, hfree⟩ := (Option.any_eq_true _ _).mp hsees
    exact ⟨receiver, hreceiver, by simpa using hfree⟩
  have hk : m.Receives k receiver.entry := Option.map_eq_some_iff.mpr ⟨receiver, hreceiver, rfl⟩
  have hcheck : m.checkAfter .enter = authorizedProgram receiver.entry := by
    simp only [checkAfter, hphase, hreceiver, Option.elim_some]
  refine ⟨h.entitled, h.excluded, fun d hd ↦ ?_, fun k' u' heq ↦ ?_, fun k' u' heq ↦ ?_,
    fun k' u' hmem ↦ ?_⟩
  · obtain rfl := Option.some_inj.mp
      ((guarded_eq_some (u := u) (.inl rfl) (hlater.receives hk)).symm.trans hd)
    exact hfree
  · obtain ⟨rfl, rfl⟩ := LinkPhase.checking.inj heq
    exact ⟨receiver.entry, hlater.receives hk, hcheck ▸ .begins⟩
  · exact absurd heq (by simp)
  · obtain ⟨entry, hk', hended⟩ := h.left_out k' u' hmem
    exact ⟨entry, hlater.receives hk', hended⟩

/-- The check is done. -/
theorem Guarded.checked (h : m.Guarded) {u : UpdateId} {authorized : Bool}
    (hphase : m.link.phase = .checking k u) (hsees : m.sees (.checked authorized) = true) :
    ∃ entry, m.Receives k entry ∧
      if authorized then m.Granted k entry else Ended entry m.shared.registry.shared := by
  obtain ⟨entry, hk, hchecking⟩ := h.checking k u hphase
  refine ⟨entry, hk, ?_⟩
  have hcheck : m.check = .result authorized := by
    rw [sees] at hsees
    split at hsees
    · rename_i outcome heq
      exact heq.trans (congrArg _ (of_decide_eq_true hsees))
    · exact absurd hsees (by simp)
  rw [hcheck] at hchecking
  generalize hprogram : Program.result authorized = program at hchecking
  cases hchecking with
  | begins => exact absurd hprogram (by simp [authorizedProgram, upgrade])
  | held => exact absurd hprogram (by simp [load])
  | refused ended =>
    obtain rfl := Program.result.inj hprogram
    exact ended
  | granted granted =>
    obtain rfl := Program.result.inj hprogram
    exact granted

/-- The loop goes on. -/
theorem Guarded.loop (h : m.Guarded) {action : LinkAction} {link : Link}
    (halone : action.forwarder? = none) (hsees : m.sees action = true)
    (hstep : m.link.step action = some link)
    (hlater : m.Later { m with link, check := m.checkAfter action }) :
    { m with link, check := m.checkAfter action }.Guarded := by
  -- the log gets longer by what is written, unless it is a notification that is left out
  have hlog {frame : Frame} {k : ℕ} {u : UpdateId}
      (hmem : (.event k (.notification u), false) ∈ m.link.log ++ [(frame, true)]) :
      (.event k (.notification u), false) ∈ m.link.log ∨
        ∃ entry, m.Receives k entry ∧ Ended entry m.shared.registry.shared :=
    .inl ((List.mem_append.mp hmem).resolve_right (by simp))
  have hquiet {link : Link} {check : SharedProgram Bool} (hlater : m.Later { m with link, check })
      (hphase : ∀ k u, link.phase ≠ .checking k u ∧ link.phase ≠ .writing k u)
      (hleft : ∀ k u, (.event k (.notification u), false) ∈ link.log →
        (.event k (.notification u), false) ∈ m.link.log ∨
          ∃ entry, m.Receives k entry ∧ Ended entry m.shared.registry.shared) :
      { m with link, check }.Guarded :=
    h.without_gate hlater h.entitled h.excluded hphase hleft
  cases Link.stepped hstep with
  | receive serving => exact hquiet hlater (by simp) fun _ _ ↦ .inl
  | respond asked =>
    exact hquiet hlater (by simp [Link.settle, Link.retain]) fun _ _ hmem ↦ hlog hmem
  | subscribe answers serving => exact hquiet hlater (by simp) fun _ _ ↦ .inl
  | acknowledge answers receiver subscribing =>
    exact hquiet hlater (by simp [Link.settle, Link.retain]) fun _ _ hmem ↦ hlog hmem
  | cancel k serving =>
    refine hquiet hlater ?_ ?_
    · rw [Link.cancel]
      split <;> simp [Link.settle, Link.retain]
    · rw [Link.cancel]
      split
      · exact fun _ _ ↦ .inl
      · exact fun _ _ hmem ↦ hlog hmem
  | finishCancel k f cancelling was returned =>
    exact hquiet hlater (by simp [Link.settle, Link.retain]) fun _ _ hmem ↦ hlog hmem
  | join k f serving was returned =>
    exact hquiet hlater (by simp [Link.retain, Link.setForwarder, serving]) fun _ _ ↦ .inl
  | take k u events serving waits => exact hquiet hlater (by simp) fun _ _ ↦ .inl
  | tell k message events serving waits last =>
    exact hquiet hlater (by simp [Link.settle, Link.retain]) fun _ _ hmem ↦ hlog hmem
  | enter k u entering => exact h.enter entering hsees hlater
  | authorized k u checking =>
    obtain ⟨entry, hk, hgranted⟩ := h.checked checking hsees
    have hk' := hlater.receives hk
    refine ⟨h.entitled, h.excluded, fun d hd ↦ ?_, fun k' u' heq ↦ absurd heq (by simp),
      fun k' u' heq ↦ ?_, fun k' u' hmem ↦ ?_⟩
    · obtain rfl := Option.some_inj.mp ((guarded_eq_some (u := u) (.inr rfl) hk').symm.trans hd)
      exact h.guarded _ (guarded_eq_some (.inl checking) hk)
    · obtain ⟨rfl, rfl⟩ := LinkPhase.writing.inj heq
      exact ⟨entry, hk', Granted.later hgranted rfl hgranted.active⟩
    · obtain ⟨entry, hk', hended⟩ := h.left_out k' u' hmem
      exact ⟨entry, hlater.receives hk', hended⟩
  | refused k u checking =>
    obtain ⟨entry, hk, hended⟩ := h.checked checking hsees
    refine hquiet hlater (by simp [Link.settle, Link.retain]) fun k' u' hmem ↦ ?_
    rcases List.mem_append.mp hmem with hold | hlast
    · exact .inl hold
    · obtain ⟨rfl, -⟩ := Frame.event.inj (Prod.mk.inj (List.mem_singleton.mp hlast)).1
      exact .inr ⟨entry, hk, hended⟩
  | written k u writing =>
    exact hquiet hlater (by simp [Link.settle, Link.retain]) fun _ _ hmem ↦ hlog hmem
  | leave opened => exact hquiet hlater (by simp) fun _ _ ↦ .inl
  | @forward _ k f f' new opened was moves =>
    cases moves with
    | finish returning =>
      exact h.later hlater h.entitled h.excluded rfl rfl rfl (fun _ _ _ hactive ↦ hactive) h.guarded
    | _ => exact absurd halone (by simp [LinkAction.forwarder?])

/-- **Every step keeps it.** -/
theorem Guarded.step (h : m.Guarded) (hkept : m.Kept sha256) {action : Action}
    (hstep : m.step sha256 action = some m') : m'.Guarded := by
  have hstepped := stepped hkept.looks hstep
  have hlater := hstepped.later hkept
  have hfree (d : DocumentId) (hd : m.guarded = some d) : d ∉ m.excluded := h.guarded d hd
  cases hstepped with
  | other action shared permits step =>
    have hrevoked : ∀ d, SharedAction.revoked? action = some d → d ∈ m.excluded := by
      intro d heq
      rw [System.permits, heq, Bool.and_eq_true] at permits
      simpa using permits.1
    obtain ⟨hentitled, hexcluded, hactive⟩ := h.shared hkept.reached hrevoked step
    refine h.later hlater ?_ ?_ rfl rfl rfl (fun d c hd ↦ hactive d c (hfree d hd)) hfree
    · rw [show controlAfter m.control action shared = _ from rfl, controlAfter]
      split
      · rename_i hdone
        rw [Bool.and_eq_true, Option.isNone_iff_eq_none, Option.isNone_iff_eq_none] at hdone
        exact hentitled.of_free hdone.1 hdone.2
      · exact hentitled
    · intro d heq
      change controlAfter m.control action shared = some d at heq
      rw [controlAfter] at heq
      split at heq
      · exact absurd heq (by simp)
      · exact hexcluded d heq
  | exclude d free =>
    refine h.later hlater h.entitled (fun d' heq ↦ List.mem_cons_of_mem _ (h.excluded d' heq))
      rfl rfl rfl (fun _ _ _ hactive ↦ hactive) fun d' hd hmem ↦ ?_
    rcases List.mem_cons.mp hmem with rfl | hmem
    · exact free hd
    · exact hfree d' hd hmem
  | release d done =>
    refine h.later hlater h.entitled (fun d' heq ↦ ?_) rfl rfl rfl (fun _ _ _ hactive ↦ hactive)
      fun d' hd hmem ↦ hfree d' hd (List.mem_of_mem_erase hmem)
    refine (List.mem_erase_of_ne ?_).mpr (h.excluded d' heq)
    rintro rfl
    exact done heq
  | subscribe d c a shared serving step =>
    obtain ⟨hentitled, hexcluded, -⟩ :=
      h.shared hkept.reached (by simp [SharedAction.revoked?]) step
    exact h.without_gate hlater hentitled hexcluded (by simp) fun _ _ ↦ .inl
  | look k u o next checking check =>
    obtain ⟨entry, hk, hchecking⟩ := h.checking k u checking
    rw [check] at hchecking
    refine ⟨h.entitled, h.excluded, hfree, fun k' u' heq ↦ ?_, fun k' u' heq ↦ ?_, h.left_out⟩
    · obtain ⟨rfl, rfl⟩ := LinkPhase.checking.inj (checking.symm.trans heq)
      exact ⟨entry, hk, (h.look hkept checking hk hchecking).later hlater
        fun hgranted ↦ hgranted.later rfl hgranted.active⟩
    · exact absurd (checking.symm.trans heq) (by simp)
  | user called shared opened step =>
    obtain ⟨hentitled, hexcluded, hactive⟩ :=
      h.shared hkept.reached (by simp [SharedAction.revoked?]) step
    exact h.later hlater hentitled hexcluded rfl rfl rfl
      (fun d c hd ↦ hactive d c (hfree d hd)) hfree
  | loop action link alone sees step => exact h.loop alone sees step hlater
  | forward action k f f' new shared opened sees was moves step =>
    rcases step with rfl | ⟨called, step⟩
    · exact h.later hlater h.entitled h.excluded rfl rfl rfl (fun _ _ _ hactive ↦ hactive) hfree
    · obtain ⟨hentitled, hexcluded, hactive⟩ :=
        h.shared hkept.reached (by simp [SharedAction.revoked?]) step
      exact h.later hlater hentitled hexcluded rfl rfl rfl
        (fun d c hd ↦ hactive d c (hfree d hd)) hfree

/-! ## Runs -/

variable (sha256) in
/-- A connection that has just opened its channel, while nobody has the mutex. -/
structure Starts (m : System) : Prop where
  reached : m.shared.Reached sha256
  free : m.shared.registry.holder = none ∧ m.shared.revoking = none
  recognized : m.shared.registry.fields.recognizes m.channel = true
  held : m.channel.id ∉ m.shared.registry.shared.lost
  unclosed : ∀ channel, .closeChannel channel ∈ m.shared.registry.called → channel.id ≠ m.channel.id
  control : m.control = none
  link : m.link = .start
  check : ∃ outcome, m.check = .result outcome

variable {m₀ : System} {actions : List Action}

theorem Starts.kept (h : m.Starts sha256) : m.Kept sha256 where
  reached := h.reached
  link := h.link ▸ Link.sound_start
  leased _ := ⟨h.recognized, h.held, fun holder hholder ↦ by
    rw [h.free.1] at hholder
    exact absurd hholder (by simp), h.unclosed⟩
  tracked f hmem := by
    rw [h.link] at hmem
    exact absurd hmem (by simp [Link.start])
  distinct := by
    rw [h.link]
    exact List.nodup_nil
  asking answers heq := by
    rw [h.link] at heq
    exact absurd heq (by simp [Link.start])
  looks := by
    obtain ⟨outcome, hcheck⟩ := h.check
    exact hcheck ▸ looks_pure outcome

theorem Starts.guarded (h : m.Starts sha256) : m.Guarded := by
  have hphase : m.link.phase = .serving := by rw [h.link]; rfl
  have hlog : m.link.log = [] := by rw [h.link]; rfl
  refine ⟨h.reached.entitled.of_free h.free.1 h.free.2, fun d heq ↦
    absurd (h.control.symm.trans heq) (by simp), fun d heq ↦
      absurd ((guarded_eq_none fun k u ↦ ?_).symm.trans heq) (by simp),
    fun k u heq ↦ absurd (hphase.symm.trans heq) (by simp),
    fun k u heq ↦ absurd (hphase.symm.trans heq) (by simp), fun k u hmem ↦ ?_⟩
  · rw [hphase]
    simp
  · rw [hlog] at hmem
    exact absurd hmem (by simp)

/-- **What holds after every run.** -/
theorem Starts.run (h : m₀.Starts sha256)
    (hrun : Transition.run (step sha256) m₀ actions = some m) : m.Kept sha256 ∧ m.Guarded :=
  Transition.invariant (I := fun m : System ↦ m.Kept sha256 ∧ m.Guarded)
    (fun _ _ _ h hstep ↦ ⟨h.1.step hstep, h.2.step h.1 hstep⟩) ⟨h.kept, h.guarded⟩ hrun

end System

end Renee.Emission
