import Renee.Service.Coverage
import Renee.Service.Progress

/-!
# Everyone is told in the end

* `Resumes` is what the loop leaves when it is done with what it has taken on (`exists_served`), and
  `exists_drained` empties the queue of events.
* `exists_still`: one forwarder after the other comes to rest.
* `everyone_told`: whatever state an open connection is in, what happens by itself leads to one
  where nothing is under way any more, and every subscription has been told of everything or of its
  end.
-/

set_option autoImplicit false

namespace Renee.Emission

open ByteString Interference Service

namespace System

variable {sha256 : List UInt8 → Bytes verifierLength} {m₀ m₁ m m' m'' : System} {k : ℕ}
    {u : UpdateId}
  {f : Forwarder}

/-! ## The loop -/

variable (sha256) in
/-- The loop is done with what it has taken on, and has left everything else as it was. -/
structure Resumes (m m' : System) : Prop where
  leads : m.Leads sha256 m'
  serving : m'.link.phase = .serving
  excluded : m'.excluded = m.excluded
  shared : m'.shared = m.shared
  forwarders : m'.link.forwarders = m.link.forwarders

theorem Resumes.calm (h : Resumes sha256 m m') (hcalm : m.Calm sha256) : m'.Calm sha256 :=
  hcalm.leads h.leads (by simp [h.serving]) (h.shared ▸ hcalm.free) h.excluded

/-- What has come before is left as well. -/
theorem Resumes.after (h : Resumes sha256 m' m'') (hleads : m.Leads sha256 m')
    (hexcluded : m'.excluded = m.excluded) (hshared : m'.shared = m.shared)
    (hforwarders : m'.link.forwarders = m.link.forwarders) : Resumes sha256 m m'' where
  leads := hleads.trans h.leads
  serving := h.serving
  excluded := h.excluded.trans hexcluded
  shared := h.shared.trans hshared
  forwarders := h.forwarders.trans hforwarders

variable (sha256) in
/-- A step of the loop. -/
theorem leads_loop {action : LinkAction} {link : Link} (hstep : m.link.step action = some link)
    (hsees : m.sees action = true) (hown : action.own = true) (halone : action.forwarder? = none) :
    m.Leads sha256 { m with link, check := m.checkAfter action } := by
  refine leads_of_step (show (Action.link action).own = true from hown) ?_
  rw [System.step, connection, if_pos hsees, hstep, Option.bind_some, halone]

variable (sha256) in
/-- The loop has settled something. -/
theorem resumes_loop {action : LinkAction} {link : Link} (hstep : m.link.step action = some link)
    (hsees : m.sees action = true) (hown : action.own = true) (halone : action.forwarder? = none)
    (hserving : link.phase = .serving) (hforwarders : link.forwarders = m.link.forwarders) :
    Resumes sha256 m { m with link, check := m.checkAfter action } :=
  ⟨leads_loop sha256 hstep hsees hown halone, hserving, rfl, rfl, hforwarders⟩

variable (sha256) in
theorem resumes_written (hphase : m.link.phase = .writing k u) :
    ∃ m', Resumes sha256 m m' ∧ m'.link.events = m.link.events := by
  have hstep : m.link.step .written = some (m.link.settle (.event k (.notification u)) true) := by
    rw [Link.step, hphase]
  exact ⟨_, resumes_loop sha256 hstep rfl rfl rfl rfl rfl, rfl⟩

/-- A check comes to its outcome, and the loop writes or not. -/
theorem exists_checked (program : SharedProgram Bool) : ∀ m : System, m.Calm sha256 →
    m.check = program → m.link.phase = .checking k u →
      ∃ m', Resumes sha256 m m' ∧ m'.link.events = m.link.events := by
  induction program with
  | result authorized =>
    intro m hcalm hcheck hphase
    have hsees : m.sees (.checked authorized) = true := by
      rw [sees, hcheck]
      exact decide_eq_true rfl
    cases authorized with
    | false =>
      have hstep : m.link.step (.checked false) =
          some (m.link.settle (.event k (.notification u)) false) := by
        rw [Link.step, hphase]
        rfl
      exact ⟨_, resumes_loop sha256 hstep hsees rfl rfl rfl rfl, rfl⟩
    | true =>
      have hstep : m.link.step (.checked true) = some { m.link with phase := .writing k u } := by
        rw [Link.step, hphase]
        rfl
      have hleads := leads_loop sha256 hstep hsees rfl rfl
      obtain ⟨m', hresumes, hevents⟩ := resumes_written sha256
        (show ({ m with
          link := { m.link with phase := .writing k u }
          check := m.checkAfter (.checked true) } : System).link.phase = .writing k u from rfl)
      exact ⟨m', hresumes.after hleads rfl rfl rfl, hevents⟩
  | access o next ih =>
    intro m hcalm hcheck hphase
    have hlook : ∃ m₁, m.look = some m₁ := by
      rw [System.look, hphase, hcheck]
      exact ⟨_, rfl⟩
    obtain ⟨m₁, hlook⟩ := hlook
    obtain ⟨-, -, o', next', -, hcheck', -, rfl⟩ := look_spec hcalm.steady.kept.looks hlook
    obtain ⟨rfl, hnext⟩ := Program.access.inj (hcheck.symm.trans hcheck')
    obtain rfl := eq_of_heq hnext
    have hleads : m.Leads sha256 _ := leads_of_step (show Action.look.own = true from rfl) hlook
    obtain ⟨m', hresumes, hevents⟩ :=
      ih _ _ (hcalm.leads hleads hcalm.opened hcalm.free rfl) rfl hphase
    exact ⟨m', hresumes.after hleads rfl rfl rfl, hevents⟩

/-- **A notification that the loop has in hand is dealt with.** -/
theorem exists_settled_hand (h : m.Calm sha256) (hheld : m.link.phase.held? = some (k, u)) :
    ∃ m', Resumes sha256 m m' ∧ m'.link.events = m.link.events := by
  have hcases : m.link.phase = .entering k u ∨ m.link.phase = .checking k u ∨
      m.link.phase = .writing k u := by
    cases hphase : m.link.phase <;> rw [hphase] at hheld <;>
      simp_all [LinkPhase.held?]
  rcases hcases with hphase | hphase | hphase
  · have hlt := h.steady.kept.link.held k u hheld
    obtain ⟨receiver, htracked⟩ := h.steady.kept.tracked _ (List.getElem_mem hlt)
    have hsees : m.sees .enter = true := by
      rw [sees, hphase]
      dsimp only
      rw [receiver?_eq_some_iff.mpr ⟨_, List.getElem?_eq_getElem hlt, htracked.received⟩,
        h.excluded]
      rfl
    have hstep : m.link.step .enter = some { m.link with phase := .checking k u } := by
      rw [Link.step, hphase]
    have hleads := leads_loop sha256 hstep hsees rfl rfl
    obtain ⟨m', hresumes, hevents⟩ := exists_checked _ _
      (h.leads hleads (by simp) h.free rfl) rfl
      (show LinkPhase.checking k u = .checking k u from rfl)
    exact ⟨m', hresumes.after hleads rfl rfl rfl, hevents⟩
  · exact exists_checked _ m h rfl hphase
  · exact resumes_written sha256 hphase

/-- A terminal event is written when the loop takes it from the queue. -/
theorem step_dequeue {L : Link} {message : Message} {events : List (ℕ × Message)}
    (hserving : L.phase = .serving) (hevents : L.events = (k, message) :: events)
    (hterminal : message.terminal = true) :
    L.step .dequeue = some ({ L with events }.settle (.event k message) true) := by
  rw [Link.step, if_pos hserving, Link.dequeue, hevents]
  cases message with
  | notification u => exact absurd hterminal (by simp [Message.terminal])
  | overflow | invalidated => rfl

/-- **The queue of events is emptied.** -/
theorem exists_drained (events : List (ℕ × Message)) : ∀ m : System, m.Calm sha256 →
    m.link.phase = .serving → m.link.events = events →
      ∃ m', Resumes sha256 m m' ∧ m'.link.events = [] := by
  induction events with
  | nil => exact fun m _ hserving hevents ↦ ⟨m, ⟨.refl m, hserving, rfl, rfl, rfl⟩, hevents⟩
  | cons event events ih =>
    intro m hcalm hserving hevents
    obtain ⟨k, message⟩ := event
    -- what comes first is dealt with
    obtain ⟨m₁, hresumes, hevents₁⟩ : ∃ m₁, Resumes sha256 m m₁ ∧ m₁.link.events = events := by
      cases message with
      | notification u =>
        have hstep : m.link.step .dequeue = some
            { m.link with phase := .entering k u, events } := by
          rw [Link.step, if_pos hserving, Link.dequeue, hevents]
        have hleads := leads_loop sha256 hstep rfl rfl rfl
        obtain ⟨m₁, hresumes, hevents₁⟩ := exists_settled_hand
          (h := hcalm.leads hleads (by simp) hcalm.free rfl)
          (show (LinkPhase.entering k u).held? = some (k, u) from rfl)
        exact ⟨m₁, hresumes.after hleads rfl rfl rfl, hevents₁⟩
      | overflow | invalidated =>
        exact ⟨_, resumes_loop sha256 (step_dequeue hserving hevents rfl) rfl rfl rfl rfl rfl, rfl⟩
    obtain ⟨m', hresumes', hevents'⟩ := ih m₁ (hresumes.calm hcalm) hresumes.serving hevents₁
    exact ⟨m', hresumes'.after hresumes.leads hresumes.excluded hresumes.shared hresumes.forwarders,
      hevents'⟩

/-- What a registration has returned on the channel of the connection. -/
theorem Calm.registered (h : m.Calm sha256) {answers : ℕ}
    (hphase : m.link.phase = .subscribing answers) :
    ∃ answer, m.shared.registry.answered[answers]? = some answer ∧
      (answer.2 = .registered (.error .backpressure) ∨ answer.2.registered?.isSome) := by
  obtain ⟨hasking, -⟩ := h.steady.kept.asking answers hphase
  rcases hasking.asked with ⟨-, holder, d, c, hholder, -⟩ | ⟨d, c, reply, hreply⟩
  · exact absurd (h.free.1.symm.trans hholder) (by simp)
  obtain ⟨broker, actions, hrun⟩ := h.steady.kept.reached.registry
  refine ⟨_, hreply, ?_⟩
  rcases (RegistrySystem.answersWell_run hrun).answered _ (List.mem_of_getElem? hreply) with
    hforeign | hfull | ⟨entry, hentry⟩
  · exact absurd (of_decide_eq_true (h.steady.kept.leased h.opened).recognized) hforeign
  · exact .inl hfull
  · exact .inr (by rw [hentry]; rfl)

/-- **The loop is done with what it has taken on.** -/
theorem exists_served (h : m.Calm sha256) :
    ∃ m', m.Leads sha256 m' ∧ m'.Calm sha256 ∧ m'.link.phase = .serving := by
  have hloop {m₁ : System} (hcalm : m₁.Calm sha256) (hleads : m.Leads sha256 m₁)
    {action : LinkAction}
      {link : Link} (hstep : m₁.link.step action = some link) (hsees : m₁.sees action = true)
      (hown : action.own = true) (halone : action.forwarder? = none)
      (hserving : link.phase = .serving) :
      ∃ m', m.Leads sha256 m' ∧ m'.Calm sha256 ∧ m'.link.phase = .serving := by
    have hleads' := leads_loop sha256 hstep hsees hown halone
    exact ⟨_, hleads.trans hleads', hcalm.leads hleads' (by simp [hserving]) hcalm.free rfl,
      hserving⟩
  have hhand {k : ℕ} {u : UpdateId} (hheld : m.link.phase.held? = some (k, u)) :
      ∃ m', m.Leads sha256 m' ∧ m'.Calm sha256 ∧ m'.link.phase = .serving := by
    obtain ⟨m', hresumes, -⟩ := exists_settled_hand h hheld
    exact ⟨m', hresumes.leads, hresumes.calm h, hresumes.serving⟩
  cases hphase : m.link.phase with
  | serving => exact ⟨m, .refl m, h, hphase⟩
  | ended => exact absurd hphase h.opened
  | entering k u | checking k u | writing k u => exact hhand (by rw [hphase]; rfl)
  | handling =>
    have hstep : m.link.step .respond = some (m.link.settle .response true) := by
      rw [Link.step, hphase]
    exact hloop h (.refl m) hstep (by rw [sees, hphase]) rfl rfl rfl
  | subscribing answers =>
    obtain ⟨answer, hanswer, hfull | hsome⟩ := h.registered hphase
    · have hstep : m.link.step .respond = some (m.link.settle .response true) := by
        rw [Link.step, hphase]
      refine hloop h (.refl m) hstep ?_ rfl rfl rfl
      rw [sees, hphase]
      dsimp only
      rw [hanswer]
      exact decide_eq_true hfull
    · have hstep : m.link.step (.acknowledge (m.ticket answers)) = some ({ m.link with
          forwarders := m.link.forwarders ++ [Forwarder.start (m.ticket answers)]
          active := m.link.active ++ [m.link.forwarders.length] }.settle
            (.acknowledgement m.link.forwarders.length) true) := by
        rw [Link.step, hphase]
        rfl
      refine hloop h (.refl m) hstep ?_ rfl rfl rfl
      rw [sees, hphase]
      dsimp only
      rw [hanswer]
      simpa using hsome
  | cancelling k =>
    obtain ⟨f, hk, hcancelled⟩ := h.steady.attended.cancelled k hphase
    obtain ⟨m₁, hbeside, f', hk', hreturned⟩ := exists_quit h hk hcancelled
    have hphase₁ := hbeside.phase.trans hphase
    have hstep : m₁.link.step .finishCancel = some (m₁.link.settle (.cancelled k) true) := by
      rw [Link.step, hphase₁]
      exact Link.task_eq_some_iff.mpr ⟨by simp [hphase₁], f', hk', hreturned, rfl⟩
    exact hloop (h.beside hbeside hk) hbeside.leads hstep rfl rfl rfl rfl

/-! ## The forwarders -/

variable {j : ℕ} {entry : SubscriptionEntry}

theorem Still.resumes (h : m.Still k) (hresumes : Resumes sha256 m m') : m'.Still k := by
  rw [Still, HasReturned, Waits, hresumes.shared, hresumes.forwarders]
  exact h

/-- What is done for one forwarder leaves the others at rest. -/
theorem Still.beside (h : m.Still j) (hcalm : m.Calm sha256) (hbeside : Beside sha256 k m m')
    (hk : m.link.forwarders[k]? = some f) (hne : j ≠ k) : m'.Still j := by
  obtain ⟨f', -, -, -, hapart⟩ := hbeside.forwarder f hk
  rcases h with ⟨g, hj, hreturned⟩ |
    ⟨g, receiver, hj, hi, hpolling, hwaiting, hreturned, hactive, hdue⟩
  · exact .inl ⟨g, (hbeside.others j hne).trans hj, hreturned⟩
  · have hother := (hcalm.steady.kept.receiver_ne hj hk hne).symm
    refine .inr ⟨g, receiver, (hbeside.others j hne).trans hj, (hapart.others _ hother).trans hi,
      hpolling, hwaiting, hreturned, ?_, hapart.answered ▸ hdue⟩
    rw [RegistrySystem.isActive_iff] at hactive ⊢
    exact fun hended ↦ hactive (hapart.active _ hother receiver hi hended)

theorem Leads.receives (hleads : m.Leads sha256 m') (h : m.Kept sha256) (hk : m.Receives k entry) :
    m'.Receives k entry :=
  hleads.elim fun _ hrun ↦ (h.later_run hrun.2).receives hk

/-- What a forwarder has dealt with is due. -/
theorem Calm.seen_le (h : m.Calm sha256) (hk : m.link.forwarders[k]? = some f)
    (hentry : m.Receives k entry) :
    (notified f.seen).length ≤ (due m.shared.registry.answered entry).length := by
  obtain ⟨g, receiver, hg, hi, rfl⟩ := receives_iff.mp hentry
  obtain rfl := Option.some_inj.mp (hk.symm.trans hg)
  obtain ⟨receiver', htracked⟩ := h.steady.kept.tracked f (List.mem_of_getElem? hk)
  obtain rfl := Option.some_inj.mp (hi.symm.trans htracked.received)
  obtain ⟨-, l, hrecorded⟩ := h.steady.kept.reached.recorded
  obtain ⟨later, hlater⟩ := htracked.seen
  refine List.IsPrefix.length_le (List.IsPrefix.trans ?_
    (hrecorded.notified_prefix h.free.1 (List.mem_of_getElem? hi)))
  rw [← hlater, notified, notified, List.flatMap_append]
  exact List.prefix_append _ _

variable (sha256) in
/-- What is done to bring one forwarder to rest leaves the others at rest. -/
structure Nearer (k : ℕ) (m m' : System) : Prop where
  calm : m'.Calm sha256
  serving : m'.link.phase = .serving
  answered : m'.shared.registry.answered = m.shared.registry.answered
  length : m'.link.forwarders.length = m.link.forwarders.length
  others : ∀ j ≠ k, m.Still j → m'.Still j

theorem Nearer.resumes (h : Nearer sha256 k m m') (hresumes : Resumes sha256 m' m'') :
    Nearer sha256 k m m'' where
  calm := hresumes.calm h.calm
  serving := hresumes.serving
  answered := hresumes.shared ▸ h.answered
  length := (congrArg List.length hresumes.forwarders).trans h.length
  others j hne hstill := (h.others j hne hstill).resumes hresumes

theorem Nearer.beside (h : Nearer sha256 k m m') (hk : m'.link.forwarders[k]? = some f)
    (hbeside : Beside sha256 k m' m'') : Nearer sha256 k m m'' where
  calm := h.calm.beside hbeside hk
  serving := hbeside.phase.trans h.serving
  answered := by
    obtain ⟨-, -, -, -, hapart⟩ := hbeside.forwarder f hk
    exact hapart.answered.trans h.answered
  length := hbeside.length.trans h.length
  others j hne hstill := (h.others j hne hstill).beside h.calm hbeside hk hne

/-- How much a forwarder has dealt with. -/
def progress (m : System) (k : ℕ) : ℕ := m.link.forwarders[k]?.elim 0 fun f ↦
    (notified f.seen).length

/-- **A forwarder comes to rest**, since there is an end to what is due. -/
theorem exists_still (hcalm : m.Calm sha256) (hserving : m.link.phase = .serving)
    (hlt : k < m.link.forwarders.length) : ∃ m', m.Leads sha256 m' ∧ Nearer sha256 k m m' ∧
      m'.Still k ∧ m'.link.events = [] := by
  obtain ⟨receiver, htracked⟩ := hcalm.steady.kept.tracked _ (List.getElem_mem hlt)
  have hentry : m.Receives k receiver.entry :=
    receives_iff.mpr ⟨_, receiver, List.getElem?_eq_getElem hlt, htracked.received, rfl⟩
  have hrest : ∃ m', m.Leads sha256 m' ∧ (Nearer sha256 k m m' ∧ m'.Receives k receiver.entry) ∧
      m'.Still k ∧ m'.link.events = [] := by
    refine Transition.exists_leads (fun t : System ↦
      (due m.shared.registry.answered receiver.entry).length - t.progress k)
      ?_ ⟨⟨hcalm, hserving, rfl, rfl, fun _ _ hstill ↦ hstill⟩, hentry⟩
    rintro t ⟨hnearer, hentry⟩ -
    have hlt' : k < t.link.forwarders.length := hnearer.length ▸ hlt
    -- the queue is emptied, so that there is room
    obtain ⟨t₁, hresumes, hevents⟩ := exists_drained _ t hnearer.calm hnearer.serving rfl
    have hnearer₁ := hnearer.resumes hresumes
    have hk₁ : t₁.link.forwarders[k]? = some t.link.forwarders[k] := by
      rw [hresumes.forwarders, List.getElem?_eq_getElem hlt']
    obtain ⟨t₂, hbeside, houtcome⟩ := exists_advanced hnearer₁.calm (by rw [hevents]; decide) hk₁
    have hnearer₂ := hnearer₁.beside hk₁ hbeside
    have hleads := hresumes.leads.trans hbeside.leads
    have hentry₂ := hleads.receives hnearer.calm.steady.kept hentry
    rcases houtcome with hstill | ⟨f', hk₂, hmore⟩
    · obtain ⟨t₃, hresumes₃, hevents₃⟩ := exists_drained _ t₂ hnearer₂.calm hnearer₂.serving rfl
      exact ⟨t₃, hleads.trans hresumes₃.leads, ⟨hnearer₂.resumes hresumes₃,
        hresumes₃.leads.receives hnearer₂.calm.steady.kept hentry₂⟩,
        .inl ⟨hstill.resumes hresumes₃, hevents₃⟩⟩
    · have hle := hnearer₂.calm.seen_le hk₂ hentry₂
      rw [hnearer₂.answered] at hle
      refine ⟨t₂, hleads, ⟨hnearer₂, hentry₂⟩, .inr ?_⟩
      rw [progress, progress, hk₂, List.getElem?_eq_getElem hlt', Option.elim_some,
        Option.elim_some]
      omega
  obtain ⟨m', hleads, ⟨hnearer, -⟩, hstill⟩ := hrest
  exact ⟨m', hleads, hnearer, hstill⟩

/-- One forwarder after the other comes to rest. -/
theorem exists_all_still (hcalm : m.Calm sha256) (hserving : m.link.phase = .serving) (n : ℕ)
    (hn : n ≤ m.link.forwarders.length) :
    ∃ m', m.Leads sha256 m' ∧ m'.Calm sha256 ∧ m'.link.phase = .serving ∧ m'.link.events = [] ∧
      m'.link.forwarders.length = m.link.forwarders.length ∧ ∀ j < n, m'.Still j := by
  induction n with
  | zero =>
    obtain ⟨m', hresumes, hevents⟩ := exists_drained _ m hcalm hserving rfl
    exact ⟨m', hresumes.leads, hresumes.calm hcalm, hresumes.serving, hevents,
      congrArg List.length hresumes.forwarders, by simp⟩
  | succ n ih =>
    obtain ⟨m₁, hleads, hcalm₁, hserving₁, -, hlength, hstill⟩ := ih (Nat.le_of_succ_le hn)
    obtain ⟨m', hleads', hnearer, hlast, hevents⟩ := exists_still hcalm₁ hserving₁ (hlength ▸ hn)
    refine ⟨m', hleads.trans hleads', hnearer.calm, hnearer.serving, hevents,
      hnearer.length.trans hlength, fun j hj ↦ ?_⟩
    rcases Nat.lt_succ_iff_lt_or_eq.mp hj with hlt | rfl
    · exact hnearer.others j hlt.ne (hstill j hlt)
    · exact hlast

/-- **An open connection comes to rest.** -/
theorem exists_rest (h : m.Steady sha256) (hopen : m.link.phase ≠ .ended) :
    ∃ m', m.Leads sha256 m' ∧ m'.Calm sha256 ∧ m'.link.phase = .serving ∧ m'.link.events = [] ∧
      ∀ k < m'.link.forwarders.length, m'.Still k := by
  obtain ⟨m₁, hleads₁, hcalm₁, -⟩ := exists_calm h hopen
  obtain ⟨m₂, hleads₂, hcalm₂, hserving₂⟩ := exists_served hcalm₁
  obtain ⟨m', hleads, hcalm, hserving, hevents, hlength, hstill⟩ :=
    exists_all_still hcalm₂ hserving₂ _ le_rfl
  exact ⟨m', hleads₁.trans (hleads₂.trans hleads), hcalm, hserving, hevents,
    fun k hk ↦ hstill k (hlength ▸ hk)⟩

/-! ## What everyone has been told -/

/-- What happens by itself accepts nothing. -/
theorem accepted_step (h : m.Kept sha256) {action : Action} (hown : action.own = true)
    (hstep : m.step sha256 action = some m') (d : DocumentId) :
    m'.shared.store.tables.accepted d = m.shared.store.tables.accepted d := by
  have hshared {called : SharedAction} {shared : SharedStore}
      (hcalled : ∀ request, called ≠ .request request)
      (hshared : m.shared.step sha256 called = some shared) :
      shared.store.tables.accepted d = m.shared.store.tables.accepted d := by
    rcases SharedStore.store_step hshared with hsame | ⟨request, hstore, heq | ⟨r, program, rfl, -⟩⟩
    · rw [hsame]
    · exact absurd heq (hcalled request)
    · rw [hstore, Tables.accepted, Tables.accepted, DurableUpdateStore.log_step_of_ne (by simp) d]
  cases stepped h.looks hstep with
  | other action shared permits step =>
    cases action with
    | work => exact hshared (by simp) step
    | request request => exact absurd hown (by simp [Action.own])
    | user action => exact absurd hown (by simp [Action.own])
  | subscribe d c a shared serving step => exact absurd hown (by simp [Action.own])
  | user called shared opened step => exact hshared (by simp) step
  | forward action k f f' new shared opened sees was moves step =>
    rcases step with rfl | ⟨called, hstep⟩
    · rfl
    · exact hshared (by simp) hstep
  | _ => rfl

theorem Leads.accepted_eq (hleads : m.Leads sha256 m') (h : m.Kept sha256) (d : DocumentId) :
    m'.shared.store.tables.accepted d = m.shared.store.tables.accepted d := by
  obtain ⟨actions, hown, hrun⟩ := hleads
  induction actions generalizing m with
  | nil => rw [Option.some_inj.mp hrun]
  | cons action actions ih =>
    obtain ⟨m₁, hstep, hrun⟩ := Transition.run_cons_eq_some_iff.mp hrun
    rw [ih (h.step hstep) (fun action hmem ↦ hown action (List.mem_cons_of_mem _ hmem)) hrun,
      accepted_step h (hown action (List.mem_cons_self ..)) hstep]

/-- **No subscriber is left waiting for what is already there.**  From every state of an open
connection, whatever its forwarders, its queues, the mutex and the gates are at, what happens by
itself, without anybody asking for anything more, leads to a state in which nothing is under way;
and there every subscription whose acknowledgement had been written has been told of its end, has
been cancelled since, or has been notified of every update that has been accepted since. -/
theorem everyone_told (hstart : m₀.Starts sha256) {before after : List Action}
    (hrun₁ : Transition.run (step sha256) m₀ before = some m₁)
    (hrun : Transition.run (step sha256) m₁ after = some m) (hopen : m.link.phase ≠ .ended) :
    ∃ actions m', (∀ action ∈ actions, action.own = true) ∧
      Transition.run (step sha256) m actions = some m' ∧ m'.link.phase = .serving ∧
      m'.link.events = [] ∧ m'.shared.Free ∧ m'.excluded = [] ∧
      ∀ k, .acknowledgement k ∈ m₁.link.output →
        (∃ message, message.terminal = true ∧ .event k message ∈ m'.link.output) ∨
        CancelAnswered k m'.link.output ∨
        ∃ entry n, m₁.Receives k entry ∧
          n ≤ (m₁.shared.store.tables.accepted entry.documentId).length ∧
          notices k m'.link.output = (m.shared.store.tables.accepted entry.documentId).drop n := by
  have hsteady₁ := hstart.steady.run hrun₁
  have hsteady := hsteady₁.run hrun
  obtain ⟨m', hleads, hcalm, hserving, hevents, hstill⟩ := exists_rest hsteady hopen
  have haccepted := hleads.accepted_eq hsteady.kept
  obtain ⟨actions, hown, hrun'⟩ := hleads
  refine ⟨actions, m', hown, hrun', hserving, hevents, hcalm.free, hcalm.excluded, fun k hack ↦ ?_⟩
  obtain ⟨entry, hreceives⟩ := hsteady₁.kept.exists_receives hack
  have hrun₁' := Transition.run_trans hrun hrun'
  have hreceives' := (hsteady₁.kept.later_run hrun₁').receives hreceives
  obtain ⟨f, receiver, hk, hi, rfl⟩ := receives_iff.mp hreceives'
  rcases hstill k (List.getElem?_eq_some_iff.mp hk).1 with ⟨g, hg, hreturned⟩ | hwaits
  · obtain rfl := Option.some_inj.mp (hk.symm.trans hg)
    have hvoiced := hstart.voiced (Transition.run_trans hrun₁ hrun₁') f (List.mem_of_getElem? hk)
    rcases hcalm.steady.kept.told hcalm.opened hk (by simp [Forwarder.closed, hreturned])
      (by simp [hevents]) (by simp [hserving, LinkPhase.held?]) hvoiced with
        htold | hcancelled | hphase
    · exact .inl htold
    · exact .inr (.inl hcancelled)
    · exact absurd (hserving.symm.trans hphase) (by simp)
  · obtain ⟨g, receiver', hg, hi', hpolling, hwaiting, hreturned, hactive, hdue⟩ := hwaits
    obtain rfl := Option.some_inj.mp (hk.symm.trans hg)
    obtain rfl := Option.some_inj.mp (hi.symm.trans hi')
    have hhanded : receiver.entry ∈ handedOut m₁.shared.registry.answered := by
      obtain ⟨g, receiver', -, hi', hentry⟩ := receives_iff.mp hreceives
      obtain ⟨-, l, hrecorded⟩ := hsteady₁.kept.reached.recorded
      rw [hrecorded.booked.handed, ← hentry]
      exact List.mem_map_of_mem (List.mem_of_getElem? hi')
    obtain ⟨base, hbase, hlog⟩ := hsteady₁.kept.reached.base_run hhanded
    obtain ⟨taken, htaken⟩ := hsteady₁.kept.shared_run hrun₁'
    refine .inr (.inr ⟨receiver.entry, base.length, hreceives, hbase.length_le, ?_⟩)
    rw [← haccepted, hlog taken m'.shared htaken, List.drop_left,
      RegistrySystem.committed_of_free hcalm.free.1, ← hdue]
    have hseen :=
      hcalm.steady.kept.notices_seen hcalm.steady.guarded hcalm.opened hk hi hactive hpolling
    rw [hevents, held_of_none (by rw [hserving]; rfl)] at hseen
    simpa [queued] using hseen

/-- The update of the child waits in the queue, and goes to the client. -/
theorem everyone_told_sample : ∃ m₀ m actions m',
    Transition.run (step Sample.sha256) m₀ Sample.forwarding = some m ∧
      m.link.events = [(0, .notification Sample.update.updateId)] ∧
      (∀ action ∈ actions, action.own = true) ∧
      Transition.run (step Sample.sha256) m actions = some m' ∧ m'.link.events = [] := by
  obtain ⟨m₀, m, hstart, hrun, hm⟩ := Sample.exists_run Sample.forwarding
    (fun m : System ↦ decide (m.link.events = [(0, .notification Sample.update.updateId)]) &&
      decide (m.link.phase ≠ .ended)) (by decide +kernel)
  simp only [Bool.and_eq_true, decide_eq_true_eq] at hm
  have hnothing : Transition.run (step Sample.sha256) m [] = some m := rfl
  obtain ⟨actions, m', hown, hrun', -, hevents, -⟩ := everyone_told hstart hrun hnothing hm.2
  exact ⟨m₀, m, actions, m', hrun, hm.1, hown, hrun', hevents⟩

end System

end Renee.Emission
