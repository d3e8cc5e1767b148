import Renee.Service.Authority
import Renee.Subscription.Alone

/-!
# An open connection does not get stuck

What happens without anybody asking for anything more: whoever has the mutex or a gate goes on and
gives it up, the forwarders poll, and the loop deals with what it has taken on.

* `Action.own` are these actions, and `System.Leads` what they lead to.
* `exists_calm`: the mutex and the gates become free.
* `Beside` is what a forwarder leaves to the others, and `exists_advanced` says how far one that is
  left alone comes.
-/

set_option autoImplicit false

namespace Renee

open ByteString Interference

/-! ## The mutex -/

namespace SharedStore

variable {sha256 : List UInt8 → Bytes verifierLength} {t t' : SharedStore}

/-- Nobody has the mutex. -/
def Free (t : SharedStore) : Prop := t.registry.holder = none ∧ t.revoking = none

/-- What the registry does while it has the mutex, it does here. -/
theorem run_work (hrevoking : t.revoking = none) {n : ℕ} {registry : RegistrySystem}
    (h : Transition.run RegistrySystem.step t.registry (List.replicate n .work) = some registry) :
    Transition.run (step sha256) t (List.replicate n .work) = some { t with registry } := by
  induction n generalizing t with
  | zero => exact congrArg some (by rw [← Option.some_inj.mp h])
  | succ n ih =>
    obtain ⟨registry₁, hstep, hrun⟩ := Transition.run_cons_eq_some_iff.mp h
    refine Transition.run_cons_eq_some_iff.mpr
      ⟨{ t with registry := registry₁ }, ?_,
        ih (t := { t with registry := registry₁ }) hrevoking hrun⟩
    rw [step, hrevoking]
    dsimp only
    rw [hstep, Option.map_some]

variable (sha256) in
/-- A revocation that is left alone commits, and the registry ends what it has found. -/
theorem exists_revoked (r : RevokeCommand) (program : SharedProgram (List SubscriptionEntry)) :
    ∀ t : SharedStore, t.registry.holder = none → ∃ t₁, t.revoke sha256 r program = some t₁ ∧
      ∃ n t', Transition.run (step sha256) t₁ (List.replicate n .work) = some t' ∧ t'.Free := by
  induction program with
  | result entries =>
    intro t hfree
    let call : RegistryCall := .invalidateSubscriptions (t.revokedIds r entries) .revoked
    obtain ⟨n, registry, hrun, hholder⟩ :=
      RegistrySystem.exists_completed call (call.program t.registry.fields) t.registry
    have hstep : t.registry.step (.call call) =
        some (t.registry.advance call (call.program t.registry.fields)) := by
      rw [RegistrySystem.step, if_pos ⟨Option.isNone_iff_eq_none.mpr hfree, rfl⟩]
    refine ⟨{ ({ t with revoking := none }.serve sha256 (.revoke r)) with
        registry := t.registry.advance call (call.program t.registry.fields) }, ?_, n, _,
      run_work rfl hrun, hholder, rfl⟩
    exact Option.map_eq_some_iff.mpr ⟨_, hstep, rfl⟩
  | access o k ih =>
    intro t hfree
    obtain ⟨t₁, hrevoke, n, t', hrun, ht'⟩ := ih (t.registry.shared.exec o).1
      { t with
        registry := { t.registry with shared := (t.registry.shared.exec o).2 }
        revoking := some (r, .access o k) } hfree
    exact ⟨_, rfl, n + 1, t', Transition.run_cons_eq_some_iff.mpr ⟨t₁, hrevoke, hrun⟩, ht'⟩

variable (sha256) in
/-- **The mutex becomes free.** -/
theorem exists_free (hw : t.registry.WellFormed) {exposed : DocumentId → Prop}
    (hentitled : t.Entitled exposed) :
    ∃ n t', Transition.run (step sha256) t (List.replicate n .work) = some t' ∧ t'.Free := by
  cases hrevoking : t.revoking with
  | none =>
    obtain ⟨n, registry, hrun, hholder⟩ := RegistrySystem.exists_free hw
    exact ⟨n, _, run_work hrevoking hrun, hholder, hrevoking⟩
  | some revoking =>
    obtain ⟨r, program⟩ := revoking
    obtain ⟨hfree, -, ⟨o, k, rfl⟩, -⟩ := hentitled.revoking r program hrevoking
    obtain ⟨t₁, hrevoke, hrun⟩ := exists_revoked sha256 r (.access o k) t hfree
    obtain rfl : t = t₁ := by
      refine Eq.trans ?_ (Option.some_inj.mp hrevoke)
      rw [← hrevoking]
    exact hrun

end SharedStore

namespace Emission

open Service
open UpdateSubscriptionRegistry (UpdateSubscriptionPoll)

/-! ## What happens by itself -/

/-- What the loop and the forwarders do without being asked. -/
def LinkAction.own : LinkAction → Bool
  | .receive | .subscribe _ | .cancel _ | .leave => false
  | _ => true

/-- What happens without anybody asking for anything more. -/
def Action.own : Action → Bool
  | .other .work | .release _ | .look | .poll _ | .proceed _ | .forget _ => true
  | .link action => action.own
  | _ => false

namespace System

variable {sha256 : List UInt8 → Bytes verifierLength} {m m' m'' : System} {k : ℕ} {f : Forwarder}
  {receiver : Receiver}

variable (sha256) in
/-- What happens by itself leads from one state to the other. -/
def Leads (m m' : System) : Prop := Transition.Leads (step sha256) (Action.own · = true) m m'

theorem Leads.refl (m : System) : m.Leads sha256 m := Transition.Leads.refl m

theorem Leads.trans (h : m.Leads sha256 m') (h' : m'.Leads sha256 m'') : m.Leads sha256 m'' :=
  Transition.Leads.trans h h'

theorem leads_of_step {action : Action} (hown : action.own = true)
    (h : m.step sha256 action = some m') : m.Leads sha256 m' :=
  Transition.leads_of_step (p := (Action.own · = true)) hown h

/-- The mutex is somebody's for as long as there is a revocation that has it, and the forwarder that
the loop waits for has been told to return. -/
structure Attended (m : System) : Prop where
  control : m.shared.Free → m.control = none
  cancelled : ∀ k, m.link.phase = .cancelling k →
    ∃ f, m.link.forwarders[k]? = some f ∧ f.cancelled = true

theorem free_user {t t' : SharedStore} (hw : t.registry.WellFormed) {called : RegistryAction}
    (hstep : t.step sha256 (.user called) = some t') : t'.Free ↔ t.Free := by
  obtain ⟨registry, hregistry, rfl⟩ := SharedStore.step_user hstep
  have huser : called.byUser = true := by
    by_contra hnot
    rw [SharedStore.step, if_neg hnot] at hstep
    exact absurd hstep (by simp)
  have hholder : registry.holder = t.registry.holder := by
    cases RegistrySystem.stepped hw hregistry with
    | called call | worked call => exact absurd huser (by simp [RegistryAction.byUser])
    | lost channelId s follows eq => exact eq ▸ rfl
    | served i receiver receiver' s not_call not_work received follows progress eq => exact eq ▸ rfl
  rw [SharedStore.Free, SharedStore.Free, hholder]

theorem Attended.step (h : m.Attended) (hkept : m.Kept sha256) {action : Action}
    (hstep : m.step sha256 action = some m') : m'.Attended := by
  obtain ⟨hw, -⟩ := hkept.reached.recorded
  cases stepped hkept.looks hstep with
  | other action shared permits step =>
    refine ⟨fun hfree ↦ ?_, h.cancelled⟩
    change controlAfter m.control action shared = none
    rw [controlAfter, if_pos]
    rw [Bool.and_eq_true, Option.isNone_iff_eq_none, Option.isNone_iff_eq_none]
    exact hfree
  | exclude d free => exact ⟨h.control, h.cancelled⟩
  | release d done => exact ⟨h.control, h.cancelled⟩
  | subscribe d c a shared serving step =>
    refine ⟨fun _ ↦ h.control ?_, fun k heq ↦ absurd heq (by simp)⟩
    rw [SharedStore.step] at step
    split at step
    · rename_i hfree
      exact hfree.imp Option.isNone_iff_eq_none.mp Option.isNone_iff_eq_none.mp
    · exact absurd step (by simp)
  | look k u o next checking check => exact ⟨h.control, h.cancelled⟩
  | user called shared opened step =>
    exact ⟨fun hfree ↦ h.control ((free_user hw step).mp hfree), h.cancelled⟩
  | loop action link alone sees step =>
    refine ⟨h.control, fun k heq ↦ ?_⟩
    have heq : link.phase = .cancelling k := heq
    change ∃ f, link.forwarders[k]? = some f ∧ f.cancelled = true
    have hset {j : ℕ} {g g' : Forwarder} (hj : m.link.forwarders[j]? = some g)
        (hsame : g'.cancelled = g.cancelled) (hphase : m.link.phase = .cancelling k) :
        ∃ f, (m.link.forwarders.set j g')[k]? = some f ∧ f.cancelled = true := by
      obtain ⟨f, hk, hcancelled⟩ := h.cancelled k hphase
      by_cases hjk : j = k
      · subst hjk
        obtain rfl := Option.some_inj.mp (hk.symm.trans hj)
        exact ⟨g', List.getElem?_set_self (List.getElem?_eq_some_iff.mp hk).1,
          hsame.trans hcancelled⟩
      · exact ⟨f, (List.getElem?_set_ne hjk).trans hk, hcancelled⟩
    cases Link.stepped step with
    | cancel k' serving =>
      rw [Link.cancel] at heq ⊢
      split at heq
      · rename_i hactive
        obtain rfl := LinkPhase.cancelling.inj heq
        have hlt := hkept.link.active k' hactive
        rw [if_pos hactive]
        refine ⟨{ m.link.forwarders[k'] with cancelled := true }, ?_, rfl⟩
        rw [List.getElem?_modify, List.getElem?_eq_getElem hlt]
        exact congrArg some (if_pos rfl)
      · exact absurd heq (by simp [Link.settle, Link.retain])
    | join k' g serving was returned =>
      exact absurd (serving.symm.trans heq) (by simp)
    | forward k' g g' new opened was moves => exact hset was moves.cancelled_eq heq
    | receive | subscribe | take | enter | authorized | leave => exact absurd heq (by simp)
    | respond | acknowledge | finishCancel | tell | refused | written =>
      exact absurd heq (by simp [Link.settle, Link.retain])
  | forward action k' g g' new shared opened sees was moves step =>
    refine ⟨fun hfree ↦ h.control ?_, fun k heq ↦ ?_⟩
    · rcases step with rfl | ⟨called, hshared⟩
      · exact hfree
      · exact (free_user hw hshared).mp hfree
    · obtain ⟨f, hk, hcancelled⟩ := h.cancelled k heq
      change ∃ f, (m.link.forwarders.set k' g')[k]? = some f ∧ f.cancelled = true
      by_cases hjk : k' = k
      · subst hjk
        obtain rfl := Option.some_inj.mp (hk.symm.trans was)
        exact ⟨g', List.getElem?_set_self (List.getElem?_eq_some_iff.mp hk).1,
          moves.cancelled_eq.trans hcancelled⟩
      · exact ⟨f, (List.getElem?_set_ne hjk).trans hk, hcancelled⟩

/-! ## A calm connection -/

variable (sha256) in
/-- What holds after every run. -/
structure Steady (m : System) : Prop where
  kept : m.Kept sha256
  guarded : m.Guarded
  attended : m.Attended

theorem Steady.run (h : m.Steady sha256) {actions : List Action}
    (hrun : Transition.run (step sha256) m actions = some m') : m'.Steady sha256 :=
  Transition.invariant (I := Steady sha256) (fun _ _ _ h hstep ↦
    ⟨h.kept.step hstep, h.guarded.step h.kept hstep, h.attended.step h.kept hstep⟩) h hrun

theorem Steady.leads (h : m.Steady sha256) (hleads : m.Leads sha256 m') : m'.Steady sha256 :=
  hleads.elim fun _ hrun ↦ h.run hrun.2

theorem Starts.steady (h : m.Starts sha256) : m.Steady sha256 :=
  ⟨h.kept, h.guarded, fun _ ↦ h.control, fun k heq ↦ by
    rw [h.link] at heq
    exact absurd heq (by simp [Link.start])⟩

variable (sha256) in
/-- The connection is open, and nobody has the mutex or a gate. -/
structure Calm (m : System) : Prop where
  steady : m.Steady sha256
  opened : m.link.phase ≠ .ended
  free : m.shared.Free
  excluded : m.excluded = []

/-- What happens by itself once the mutex is free leaves it so. -/
theorem Calm.leads (h : m.Calm sha256) (hleads : m.Leads sha256 m') (hopen : m'.link.phase ≠ .ended)
    (hfree : m'.shared.Free) (hexcluded : m'.excluded = m.excluded) : m'.Calm sha256 :=
  ⟨h.steady.leads hleads, hopen, hfree, hexcluded.trans h.excluded⟩

/-- A forwarder agrees with its receiver. -/
theorem Calm.agrees (h : m.Calm sha256) (hk : m.link.forwarders[k]? = some f)
    (hi : m.shared.registry.receivers[f.receiver]? = some receiver) :
    f.Agrees receiver m.shared.registry.shared := by
  obtain ⟨receiver', htracked⟩ := h.steady.kept.tracked f (List.mem_of_getElem? hk)
  obtain rfl := Option.some_inj.mp (hi.symm.trans htracked.received)
  exact htracked.agrees h.opened

/-- What whoever has the mutex does is done beside the connection. -/
theorem leads_work {n : ℕ} {t : SharedStore}
    (hrun : Transition.run (SharedStore.step sha256) m.shared (List.replicate n .work) = some t) :
    ∃ control, m.Leads sha256 { m with shared := t, control } := by
  induction n generalizing m with
  | zero =>
    obtain rfl := Option.some_inj.mp hrun
    exact ⟨m.control, .refl m⟩
  | succ n ih =>
    obtain ⟨t₁, hstep, hrun⟩ := Transition.run_cons_eq_some_iff.mp hrun
    have hpermits : m.permits .work = true := by simp [permits, disturbs, SharedAction.revoked?]
    have hother : m.step sha256 (.other .work) =
        some { m with shared := t₁, control := controlAfter m.control .work t₁ } := by
      rw [System.step, others, if_pos hpermits, hstep]
      rfl
    obtain ⟨control, hleads⟩ :=
      ih (m := { m with shared := t₁, control := controlAfter m.control .work t₁ }) hrun
    exact ⟨control, (leads_of_step rfl hother).trans hleads⟩

/-- The gates that somebody has for himself are given up. -/
theorem leads_release (hcontrol : m.control = none) (excluded : List DocumentId) :
    { m with excluded }.Leads sha256 { m with excluded := [] } := by
  induction excluded with
  | nil => exact .refl _
  | cons d excluded ih =>
    refine (leads_of_step (show (Action.release d).own = true from rfl) ?_).trans ih
    rw [System.step, if_neg (by simp [hcontrol])]
    exact congrArg (fun excluded ↦ some { m with excluded })
      (List.erase_cons_head d excluded)

/-- **The mutex and the gates become free.** -/
theorem exists_calm (h : m.Steady sha256) (hopen : m.link.phase ≠ .ended) :
    ∃ m', m.Leads sha256 m' ∧ m'.Calm sha256 ∧ m'.link = m.link := by
  obtain ⟨n, t, hrun, hfree⟩ :=
    SharedStore.exists_free sha256 h.kept.reached.recorded.1 h.guarded.entitled
  obtain ⟨control, hwork⟩ := leads_work hrun
  have hcontrol : control = none := (h.leads hwork).attended.control hfree
  have hleads := hwork.trans
    (leads_release (m := { m with shared := t, control }) hcontrol m.excluded)
  exact ⟨_, hleads, ⟨h.leads hleads, hopen, hfree, rfl⟩, rfl⟩

/-! ## A forwarder that is left alone -/

variable (sha256) in
/-- What happens by itself and is about one forwarder, which leaves everything else as it is. -/
structure Beside (k : ℕ) (m m' : System) : Prop where
  leads : m.Leads sha256 m'
  phase : m'.link.phase = m.link.phase
  excluded : m'.excluded = m.excluded
  revoking : m'.shared.revoking = m.shared.revoking
  length : m'.link.forwarders.length = m.link.forwarders.length
  others : ∀ j ≠ k, m'.link.forwarders[j]? = m.link.forwarders[j]?
  forwarder : ∀ f, m.link.forwarders[k]? = some f → ∃ f', m'.link.forwarders[k]? = some f' ∧
    f'.receiver = f.receiver ∧ f'.cancelled = f.cancelled ∧
      RegistrySystem.Apart m.shared.registry m'.shared.registry f.receiver

theorem Beside.refl (k : ℕ) (m : System) : Beside sha256 k m m :=
  ⟨.refl m, rfl, rfl, rfl, rfl, fun _ _ ↦ rfl, fun f hk ↦ ⟨f, hk, rfl, rfl, .refl _ _⟩⟩

theorem Beside.trans (h : Beside sha256 k m m') (h' : Beside sha256 k m' m'') :
    Beside sha256 k m m'' where
  leads := h.leads.trans h'.leads
  phase := h'.phase.trans h.phase
  excluded := h'.excluded.trans h.excluded
  revoking := h'.revoking.trans h.revoking
  length := h'.length.trans h.length
  others j hj := (h'.others j hj).trans (h.others j hj)
  forwarder f hk := by
    obtain ⟨f₁, hk₁, hreceiver₁, hcancelled₁, hapart₁⟩ := h.forwarder f hk
    obtain ⟨f₂, hk₂, hreceiver₂, hcancelled₂, hapart₂⟩ := h'.forwarder f₁ hk₁
    exact ⟨f₂, hk₂, hreceiver₂.trans hreceiver₁, hcancelled₂.trans hcancelled₁,
      hapart₁.trans (hreceiver₁ ▸ hapart₂)⟩

theorem Calm.beside (h : m.Calm sha256) (hbeside : Beside sha256 k m m')
    (hk : m.link.forwarders[k]? = some f) : m'.Calm sha256 := by
  obtain ⟨f', -, -, -, hapart⟩ := hbeside.forwarder f hk
  exact h.leads hbeside.leads (hbeside.phase.trans_ne h.opened)
    ⟨hapart.holder.trans h.free.1, hbeside.revoking.trans h.free.2⟩ hbeside.excluded

/-- A forwarder goes on, and something is done with its receiver. -/
theorem beside_of_run (h : m.Calm sha256) (hk : m.link.forwarders[k]? = some f)
    {actions : List RegistryAction}
    (habout : ∀ action ∈ actions, action.receiver? = some f.receiver)
    {registry : RegistrySystem}
    (hrun : Transition.run RegistrySystem.step m.shared.registry actions = some registry)
    {link : Link}
    (hphase : link.phase = m.link.phase) {f' : Forwarder}
    (hforwarders : link.forwarders = m.link.forwarders.set k f')
    (hreceiver : f'.receiver = f.receiver)
    (hcancelled : f'.cancelled = f.cancelled)
    (hleads : m.Leads sha256 { m with link, shared := { m.shared with registry } }) :
    Beside sha256 k m { m with link, shared := { m.shared with registry } } where
  leads := hleads
  phase := hphase
  excluded := rfl
  revoking := rfl
  length := by rw [hforwarders, List.length_set]
  others j hj := by rw [hforwarders, List.getElem?_set_ne (Ne.symm hj)]
  forwarder g hg := by
    obtain rfl := Option.some_inj.mp (hk.symm.trans hg)
    obtain ⟨hw, l, hrecorded⟩ := h.steady.kept.reached.recorded
    refine ⟨f', ?_, hreceiver, hcancelled, RegistrySystem.apart_run hw hrecorded habout hrun⟩
    rw [hforwarders, List.getElem?_set_self (List.getElem?_eq_some_iff.mp hk).1]

/-- What is done with the receiver only. -/
theorem beside_registry (h : m.Calm sha256) (hk : m.link.forwarders[k]? = some f)
    {actions : List RegistryAction}
    (habout : ∀ action ∈ actions, action.receiver? = some f.receiver)
    {registry : RegistrySystem}
    (hrun : Transition.run RegistrySystem.step m.shared.registry actions = some registry)
    (hleads : m.Leads sha256 { m with shared := { m.shared with registry } }) :
    Beside sha256 k m { m with shared := { m.shared with registry } } := by
  have hsame : m.link.forwarders = m.link.forwarders.set k f := by
    obtain ⟨hlt, hget⟩ := List.getElem?_eq_some_iff.mp hk
    rw [← hget, List.set_getElem_self]
  exact beside_of_run h hk habout hrun rfl hsame rfl rfl hleads

/-- What is done with a receiver is done for its forwarder. -/
theorem step_user (hk : m.link.forwarders[k]? = some f) {action : ℕ → RegistryAction}
    (huser : (action f.receiver).byUser = true) {registry : RegistrySystem}
    (hstep : m.shared.registry.step (action f.receiver) = some registry) :
    m.user sha256 k action = some { m with shared := { m.shared with registry } } := by
  refine user_eq_some_iff.mpr ⟨f, { m.shared with registry }, hk, ?_, rfl⟩
  rw [SharedStore.step, if_pos huser, hstep, Option.map_some]

/-- What has been begun with a receiver goes on. -/
theorem leads_proceed (hopen : m.link.phase ≠ .ended) (hk : m.link.forwarders[k]? = some f) {n : ℕ}
    {registry : RegistrySystem} (hrun : Transition.run RegistrySystem.step m.shared.registry
      (List.replicate n (.proceed f.receiver)) = some registry) :
    m.Leads sha256 { m with shared := { m.shared with registry } } := by
  induction n generalizing m with
  | zero =>
    obtain rfl := Option.some_inj.mp hrun
    exact .refl m
  | succ n ih =>
    obtain ⟨registry₁, hstep, hrun⟩ := Transition.run_cons_eq_some_iff.mp hrun
    refine (leads_of_step (show (Action.proceed k).own = true from rfl) ?_).trans
      (ih (m := { m with shared := { m.shared with registry := registry₁ } }) hopen hk hrun)
    rw [System.step, if_neg hopen]
    exact step_user hk rfl hstep

/-- **What has been begun with a receiver is finished.** -/
theorem exists_rested (h : m.Calm sha256) (hk : m.link.forwarders[k]? = some f) :
    ∃ m' receiver, Beside sha256 k m m' ∧ m'.Calm sha256 ∧ m'.link = m.link ∧
      m'.shared.registry.receivers[f.receiver]? = some receiver ∧
        (receiver.phase = .idle ∨ receiver.phase = .waiting ∨ receiver.phase = .dropped) := by
  obtain ⟨receiver, htracked⟩ := h.steady.kept.tracked f (List.mem_of_getElem? hk)
  obtain ⟨n, registry, receiver', hrun, hi, hphase⟩ :=
    RegistrySystem.exists_settled h.steady.kept.reached.recorded.1 htracked.received
  have habout : ∀ action ∈ List.replicate n (RegistryAction.proceed f.receiver),
      action.receiver? = some f.receiver := by
    intro action hmem
    rw [List.eq_of_mem_replicate hmem]
    rfl
  have hbeside := beside_registry h hk habout hrun (leads_proceed h.opened hk hrun)
  exact ⟨_, receiver', hbeside, h.beside hbeside hk, rfl, hi, hphase⟩

/-! ### What it does next -/

theorem rests_of {p : Forwarder → Receiver → Bool} (hk : m.link.forwarders[k]? = some f)
    (hi : m.shared.registry.receivers[f.receiver]? = some receiver) (hidle : receiver.phase = .idle)
    (hp : p f receiver = true) : m.rests k p = true := by
  rw [rests, hk, receiver?_eq_some_iff.mpr ⟨f, hk, hi⟩]
  dsimp only
  rw [hidle]
  exact hp

variable (sha256) in
/-- A forwarder cancels its subscription, by `drop` or not. -/
theorem exists_closing (hk : m.link.forwarders[k]? = some f)
    (hi : m.shared.registry.receivers[f.receiver]? = some receiver) (hidle : receiver.phase = .idle)
    (action : ℕ → RegistryAction) (dropping : Bool)
    (haction : action f.receiver = if dropping then .drop f.receiver else .cancel f.receiver) :
    ∃ registry, (action f.receiver).receiver? = some f.receiver ∧
      m.shared.registry.step (action f.receiver) = some registry ∧
      m.user sha256 k action = some { m with shared := { m.shared with registry } } := by
  have hstep := RegistrySystem.step_cancel_of_idle hi hidle dropping
  rw [← haction] at hstep
  have habout : (action f.receiver).receiver? = some f.receiver := by
    rw [haction]
    cases dropping <;> rfl
  have huser : (action f.receiver).byUser = true := by
    rw [haction]
    cases dropping <;> rfl
  exact ⟨_, habout, hstep, step_user hk huser hstep⟩

variable (sha256) in
/-- What a forwarder begins with its receiver at a new stage. -/
theorem exists_follow (hk : m.link.forwarders[k]? = some f)
    (hi : m.shared.registry.receivers[f.receiver]? = some receiver)
    (h : f.stage = .polling ∨ receiver.phase = .idle) :
    ∃ (actions : List RegistryAction) (registry : RegistrySystem),
      (∀ action ∈ actions, action.receiver? = some f.receiver) ∧
      Transition.run RegistrySystem.step m.shared.registry actions = some registry ∧
      m.follow sha256 k = some { m with shared := { m.shared with registry } } ∧
      (f.stage = .polling → registry = m.shared.registry) := by
  have hstage : m.link.forwarders[k]?.map Forwarder.stage = some f.stage := by
    rw [hk, Option.map_some]
  cases hat : f.stage with
  | polling => exact ⟨[], _, by simp, rfl, (follow_eq hstage).2.2 hat, fun _ ↦ rfl⟩
  | overflowing | cancelling =>
    have hidle := h.resolve_left (by simp [hat])
    obtain ⟨registry, habout, hstep, huser⟩ := exists_closing sha256 hk hi hidle .cancel false rfl
    exact ⟨[.cancel f.receiver], registry, by simpa using habout,
      Transition.run_cons_eq_some_iff.mpr ⟨_, hstep, rfl⟩,
      ((follow_eq hstage).1 (by simp [hat])).trans huser, fun heq ↦ absurd heq (by simp)⟩
  | returning =>
    have hidle := h.resolve_left (by simp [hat])
    obtain ⟨registry, habout, hstep, huser⟩ := exists_closing sha256 hk hi hidle .drop true rfl
    exact ⟨[.drop f.receiver], registry, by simpa using habout,
      Transition.run_cons_eq_some_iff.mpr ⟨_, hstep, rfl⟩, ((follow_eq hstage).2.1 hat).trans huser,
      fun heq ↦ absurd heq (by simp)⟩
  | returned =>
    refine ⟨[], _, by simp, rfl, ?_, fun heq ↦ absurd heq (by simp)⟩
    rw [follow, hstage, hat]

/-- **A forwarder goes on.** -/
theorem exists_forwarded (h : m.Calm sha256) (hk : m.link.forwarders[k]? = some f)
    (hi : m.shared.registry.receivers[f.receiver]? = some receiver) {action : LinkAction}
    {link : Link} (hstep : m.link.step action = some link) (hsees : m.sees action = true)
    (hown : action.own = true) (hforwarder : action.forwarder? = some k)
    (hphase : link.phase = m.link.phase) {f' : Forwarder}
    (hforwarders : link.forwarders = m.link.forwarders.set k f')
    (hreceiver : f'.receiver = f.receiver)
    (hcancelled : f'.cancelled = f.cancelled)
    (hidle : f'.stage = .polling ∨ receiver.phase = .idle) :
    ∃ m', Beside sha256 k m m' ∧ m'.link = link ∧ m'.link.forwarders[k]? = some f' ∧
      (f'.stage = .polling → m'.shared = m.shared) := by
  have hk' : link.forwarders[k]? = some f' := by
    rw [hforwarders, List.getElem?_set_self (List.getElem?_eq_some_iff.mp hk).1]
  obtain ⟨actions, registry, habout, hrun, hfollow, hsame⟩ :=
    exists_follow sha256 (m := { m with link }) hk' (hreceiver ▸ hi) hidle
  refine ⟨_, beside_of_run h hk (hreceiver ▸ habout) hrun hphase hforwarders hreceiver hcancelled
    (leads_of_step (show (Action.link action).own = true from hown) ?_), rfl, hk',
    fun hpolling ↦ ?_⟩
  · rw [System.step, connection, if_pos hsees, hstep, Option.bind_some, hforwarder]
    exact hfollow
  · exact congrArg (fun registry ↦ { m.shared with registry }) (hsame hpolling)

/-- The forwarder has returned. -/
def HasReturned (m : System) (k : ℕ) : Prop :=
  ∃ f, m.link.forwarders[k]? = some f ∧ f.stage = .returned

/-- It has dropped its receiver, and returns. -/
theorem exists_finished (h : m.Calm sha256) (hk : m.link.forwarders[k]? = some f)
    (hstage : f.stage = .returning) :
    ∃ m', Beside sha256 k m m' ∧ m'.HasReturned k := by
  obtain ⟨m₁, receiver, hbeside, hcalm, hlink, hi, hphase⟩ := exists_rested h hk
  have hk₁ : m₁.link.forwarders[k]? = some f := hlink ▸ hk
  have hdropped : receiver.phase = .dropped := by
    cases hcalm.agrees hk₁ hi with
    | polling stage polls opened returned => exact absurd (hstage.symm.trans stage) (by simp)
    | observed stage idle opened poll returned => exact absurd (hstage.symm.trans stage) (by simp)
    | ending stage ends => exact absurd stage (by simp [hstage])
    | ended closed ended drops =>
      refine drops.resolve_left ?_
      rintro ⟨program, hcancelling⟩
      exact absurd hphase (by simp [hcancelling])
  let link := m₁.link.setForwarder k { f with stage := .returned }
  have hlt := (List.getElem?_eq_some_iff.mp hk₁).1
  refine ⟨{ m₁ with link }, hbeside.trans ?_, { f with stage := .returned },
    List.getElem?_set_self hlt, rfl⟩
  have habout : ∀ action ∈ ([] : List RegistryAction), action.receiver? = some f.receiver := by simp
  have hforwarders : link.forwarders = m₁.link.forwarders.set k { f with stage := .returned } := rfl
  refine beside_of_run hcalm hk₁ habout rfl rfl hforwarders rfl rfl
    (leads_of_step (show (Action.link (.finish k)).own = true from rfl) ?_)
  have hsees : m₁.sees (.finish k) = true := by
    rw [sees, receiver?_eq_some_iff.mpr ⟨f, hk₁, hi⟩, Option.any_some, hdropped]
  have hstep : m₁.link.step (.finish k) = some link :=
    Link.task_eq_some_iff.mpr ⟨hcalm.opened, f, hk₁, hstage, rfl⟩
  rw [System.step, connection, if_pos hsees, hstep, Option.bind_some]
  rfl

/-- It goes on to drop its receiver, and returns. -/
theorem exists_ended (h : m.Calm sha256) (hk : m.link.forwarders[k]? = some f)
    (hi : m.shared.registry.receivers[f.receiver]? = some receiver) (hidle : receiver.phase = .idle)
    {action : LinkAction} {link : Link} (hstep : m.link.step action = some link)
    (hsees : m.sees action = true) (hown : action.own = true)
    (hforwarder : action.forwarder? = some k)
    (hphase : link.phase = m.link.phase) {f' : Forwarder}
    (hforwarders : link.forwarders = m.link.forwarders.set k f')
    (hreceiver : f'.receiver = f.receiver)
    (hcancelled : f'.cancelled = f.cancelled) (hreturning : f'.stage = .returning) :
    ∃ m', Beside sha256 k m m' ∧ m'.HasReturned k := by
  obtain ⟨m₁, hbeside, -, hk₁, -⟩ := exists_forwarded h hk hi hstep hsees hown hforwarder hphase
    hforwarders hreceiver hcancelled (.inr hidle)
  obtain ⟨m', hbeside', hreturned⟩ := exists_finished (h.beside hbeside hk) hk₁ hreturning
  exact ⟨m', hbeside.trans hbeside', hreturned⟩

/-- A forwarder that cancels its subscription gets to where it has done so. -/
theorem exists_cancelled (h : m.Calm sha256) (hk : m.link.forwarders[k]? = some f)
    (hstage : f.stage = .overflowing ∨ f.stage = .cancelling) :
    ∃ m' receiver, Beside sha256 k m m' ∧ m'.Calm sha256 ∧ m'.link = m.link ∧
      m'.shared.registry.receivers[f.receiver]? = some receiver ∧ receiver.phase = .idle := by
  obtain ⟨m₁, receiver, hbeside, hcalm, hlink, hi, hphase⟩ := exists_rested h hk
  have hk₁ : m₁.link.forwarders[k]? = some f := hlink ▸ hk
  refine ⟨m₁, receiver, hbeside, hcalm, hlink, hi, ?_⟩
  cases hcalm.agrees hk₁ hi with
  | polling stage polls opened returned => exact absurd hstage (by simp [stage])
  | observed stage idle opened poll returned => exact absurd hstage (by simp [stage])
  | ending stage ends =>
    rcases ends with ⟨program, hcancelling⟩ | ⟨hidle, -⟩
    · exact absurd hphase (by simp [hcancelling])
    · exact hidle
  | ended closed ended drops =>
    rcases hstage with hstage | hstage <;> exact absurd closed (by simp [Forwarder.closed, hstage])

/-- A forwarder that has noticed its cancellation returns. -/
theorem exists_dropped (h : m.Calm sha256) (hk : m.link.forwarders[k]? = some f)
    (hstage : f.stage = .cancelling) :
    ∃ m', Beside sha256 k m m' ∧ m'.HasReturned k := by
  obtain ⟨m₁, receiver, hbeside, hcalm, hlink, hi, hidle⟩ := exists_cancelled h hk (.inr hstage)
  have hk₁ : m₁.link.forwarders[k]? = some f := hlink ▸ hk
  have hstep : m₁.link.step (.drop k) = some
      (m₁.link.setForwarder k { f with stage := .returning }) :=
    Link.task_eq_some_iff.mpr ⟨hcalm.opened, f, hk₁, hstage, rfl⟩
  obtain ⟨m', hbeside', hreturned⟩ := exists_ended hcalm hk₁ hi hidle hstep
    (rests_of hk₁ hi hidle rfl) rfl rfl rfl rfl rfl rfl rfl
  exact ⟨m', hbeside.trans hbeside', hreturned⟩

/-- A forwarder whose overflow waits for room returns: it sends it, or has been cancelled. -/
theorem exists_overflowed (h : m.Calm sha256) (hk : m.link.forwarders[k]? = some f)
    (hstage : f.stage = .overflowing)
    (hroom : f.cancelled = true ∨ m.link.events.length < connectionEventQueueCapacity) :
    ∃ m', Beside sha256 k m m' ∧ m'.HasReturned k := by
  obtain ⟨m₁, receiver, hbeside, hcalm, hlink, hi, hidle⟩ := exists_cancelled h hk (.inl hstage)
  have hk₁ : m₁.link.forwarders[k]? = some f := hlink ▸ hk
  by_cases hcancelled : f.cancelled = true
  · have hstep : m₁.link.step (.abandonOverflow k) =
        some (m₁.link.setForwarder k { f with stage := .returning }) :=
      Link.task_eq_some_iff.mpr ⟨hcalm.opened, f, hk₁, hstage, if_pos hcancelled⟩
    obtain ⟨m', hbeside', hreturned⟩ := exists_ended hcalm hk₁ hi hidle hstep
      (rests_of hk₁ hi hidle rfl) rfl rfl rfl rfl rfl rfl rfl
    exact ⟨m', hbeside.trans hbeside', hreturned⟩
  · have hroom : m₁.link.events.length < connectionEventQueueCapacity :=
      hlink ▸ hroom.resolve_left hcancelled
    have hstep : m₁.link.step (.sendOverflow k) =
        some ({ m₁.link with events := m₁.link.events ++ [(k, Message.overflow)] }.setForwarder k
          { f with stage := .returning, sent := some .overflow }) :=
      Link.task_eq_some_iff.mpr ⟨hcalm.opened, f, hk₁, hstage, if_pos hroom⟩
    obtain ⟨m', hbeside', hreturned⟩ := exists_ended hcalm hk₁ hi hidle hstep
      (rests_of hk₁ hi hidle rfl) rfl rfl rfl rfl rfl rfl rfl
    exact ⟨m', hbeside.trans hbeside', hreturned⟩

/-! ### What it has observed -/

/-- The queue has no room for the message of a forwarder that has been cancelled. -/
theorem exists_refused (h : m.Calm sha256) (hk : m.link.forwarders[k]? = some f)
    (hi : m.shared.registry.receivers[f.receiver]? = some receiver) (hidle : receiver.phase = .idle)
    (hpolling : f.stage = .polling) {poll : UpdateSubscriptionPoll} {message : Message}
    (hreturned : receiver.returned = f.seen ++ [poll]) (hmessage : message? poll = some message)
    (hcancelled : f.cancelled = true)
    (hfull : connectionEventQueueCapacity ≤ m.link.events.length) :
    ∃ m', Beside sha256 k m m' ∧ m'.HasReturned k := by
  have hsend : m.link.trySend k f poll message true =
      some (m.link.setForwarder k { f with stage := .overflowing, refused := true }) := by
    rw [Link.trySend, if_pos rfl, if_neg (by omega)]
  have hstep : m.link.step (.handle k poll true) =
      some (m.link.setForwarder k { f with stage := .overflowing, refused := true }) := by
    refine Link.task_eq_some_iff.mpr ⟨h.opened, f, hk, hpolling, ?_⟩
    cases poll with
    | pending => exact absurd hmessage (by simp [message?])
    | notification u =>
      obtain rfl := Option.some_inj.mp hmessage
      exact hsend
    | invalidated ended =>
      have hterminal : terminalMessage ended = some message := hmessage
      simp only [Link.handle, message?, hterminal]
      exact hsend
  obtain ⟨m₁, hbeside, -, hk₁, -⟩ := exists_forwarded h hk hi hstep
    (rests_of hk hi hidle (decide_eq_true hreturned)) rfl rfl rfl rfl rfl rfl (.inr hidle)
  obtain ⟨m', hbeside', hreturned⟩ :=
    exists_overflowed (h.beside hbeside hk) hk₁ rfl (.inl hcancelled)
  exact ⟨m', hbeside.trans hbeside', hreturned⟩

/-- **A forwarder deals with what it has observed**: it has notified of an update, or returns. -/
theorem exists_handled (h : m.Calm sha256) (hk : m.link.forwarders[k]? = some f)
    (hi : m.shared.registry.receivers[f.receiver]? = some receiver) (hpolling : f.stage = .polling)
    {poll : UpdateSubscriptionPoll} (hreturned : receiver.returned = f.seen ++ [poll])
    (hroom : f.cancelled = true ∨ m.link.events.length < connectionEventQueueCapacity) :
    ∃ m', Beside sha256 k m m' ∧ (m'.HasReturned k ∨ ∃ u, poll = .notification u ∧
      m'.link.forwarders[k]? = some { f with seen := f.seen ++ [poll] } ∧
      m'.shared = m.shared) := by
  obtain ⟨hw, l, hrecorded⟩ := h.steady.kept.reached.recorded
  have hidle : receiver.phase = .idle := by
    cases h.agrees hk hi with
    | polling stage polls opened returned =>
      exact absurd (returned.symm.trans hreturned) (by simp)
    | observed stage idle opened poll returned => exact idle
    | ending stage ends => exact absurd stage (by simp [hpolling])
    | ended closed ended drops => exact absurd closed (by simp [Forwarder.closed, hpolling])
  have hsees (full : Bool) : m.sees (.handle k poll full) = true :=
    rests_of hk hi hidle (decide_eq_true hreturned)
  cases poll with
  | pending =>
    have hmem : UpdateSubscriptionPoll.pending ∈ receiver.returned :=
      hreturned ▸ List.mem_append_right _ (List.mem_singleton_self _)
    exact absurd hmem (hrecorded.booked.receivers receiver (List.mem_of_getElem? hi)).observed
  | notification u =>
    by_cases hfull : connectionEventQueueCapacity ≤ m.link.events.length
    · obtain ⟨m', hbeside, hdone⟩ := exists_refused h hk hi hidle hpolling hreturned rfl
        (hroom.resolve_right (Nat.not_lt.mpr hfull)) hfull
      exact ⟨m', hbeside, .inl hdone⟩
    have hstep : m.link.step (.handle k (.notification u) false) =
        some ({ m.link with events := m.link.events ++
          [(k, Message.notification u)] }.setForwarder k { f with seen :=
            f.seen ++ [UpdateSubscriptionPoll.notification u] }) := by
      refine Link.task_eq_some_iff.mpr ⟨h.opened, f, hk, hpolling, ?_⟩
      change m.link.trySend k f (.notification u) (.notification u) false = _
      rw [Link.trySend, if_neg Bool.false_ne_true, if_neg hfull]
      exact if_neg (by simp [Message.terminal])
    obtain ⟨m', hbeside, -, hk', hshared⟩ := exists_forwarded h hk hi hstep (hsees false) rfl rfl
      rfl rfl rfl rfl (.inl hpolling)
    exact ⟨m', hbeside, .inr ⟨u, rfl, hk', hshared hpolling⟩⟩
  | invalidated ended =>
    cases hterminal : terminalMessage ended with
    | none =>
      have hstep : m.link.step (.handle k (.invalidated ended) false) = some (m.link.setForwarder k
          { f with
            stage := .returning
            seen := f.seen ++ [UpdateSubscriptionPoll.invalidated ended] }) := by
        refine Link.task_eq_some_iff.mpr ⟨h.opened, f, hk, hpolling, ?_⟩
        simp only [Link.handle, message?, hterminal]
      obtain ⟨m', hbeside, hdone⟩ :=
        exists_ended h hk hi hidle hstep (hsees false) rfl rfl rfl rfl rfl rfl rfl
      exact ⟨m', hbeside, .inl hdone⟩
    | some message =>
      by_cases hfull : connectionEventQueueCapacity ≤ m.link.events.length
      · obtain ⟨m', hbeside, hdone⟩ := exists_refused h hk hi hidle hpolling hreturned hterminal
          (hroom.resolve_right (Nat.not_lt.mpr hfull)) hfull
        exact ⟨m', hbeside, .inl hdone⟩
      have hstep : m.link.step (.handle k (.invalidated ended) false) =
          some ({ m.link with events := m.link.events ++ [(k, message)] }.setForwarder k
            { f with
              stage := .returning
              seen := f.seen ++ [UpdateSubscriptionPoll.invalidated ended]
              sent := some message }) := by
        refine Link.task_eq_some_iff.mpr ⟨h.opened, f, hk, hpolling, ?_⟩
        simp only [Link.handle, message?, hterminal]
        rw [Link.trySend, if_neg Bool.false_ne_true, if_neg hfull]
        exact if_pos (terminal_of_terminalMessage hterminal)
      obtain ⟨m', hbeside, hdone⟩ :=
        exists_ended h hk hi hidle hstep (hsees false) rfl rfl rfl rfl rfl rfl rfl
      exact ⟨m', hbeside, .inl hdone⟩

/-- A forwarder that has been cancelled notices it when there is nothing to deal with. -/
theorem exists_noticed (h : m.Calm sha256) (hk : m.link.forwarders[k]? = some f)
    (hi : m.shared.registry.receivers[f.receiver]? = some receiver) (hidle : receiver.phase = .idle)
    (hpolling : f.stage = .polling) (hreturned : receiver.returned = f.seen)
    (hcancelled : f.cancelled = true) :
    ∃ m', Beside sha256 k m m' ∧ m'.HasReturned k := by
  have hstep : m.link.step (.observeCancel k) =
      some (m.link.setForwarder k { f with stage := .cancelling }) :=
    Link.task_eq_some_iff.mpr ⟨h.opened, f, hk, hpolling, if_pos hcancelled⟩
  obtain ⟨m₁, hbeside, -, hk₁, -⟩ := exists_forwarded h hk hi hstep
    (rests_of hk hi hidle (decide_eq_true hreturned)) rfl rfl rfl rfl rfl rfl (.inr hidle)
  obtain ⟨m', hbeside', hdone⟩ := exists_dropped (h.beside hbeside hk) hk₁ rfl
  exact ⟨m', hbeside.trans hbeside', hdone⟩

/-- A `next` that waits is given up. -/
theorem exists_forgotten (h : m.Calm sha256) (hk : m.link.forwarders[k]? = some f)
    (hi : m.shared.registry.receivers[f.receiver]? = some receiver)
    (hwaiting : receiver.phase = .waiting) (hpolling : f.stage = .polling)
    (hcancelled : f.cancelled = true) :
    ∃ m', Beside sha256 k m m' ∧ m'.link = m.link ∧
      m'.shared.registry.receivers[f.receiver]? = some { receiver with phase := .idle } := by
  have hregistry : m.shared.registry.step (.forget f.receiver) =
      some (m.shared.registry.setReceiver f.receiver { receiver with phase := .idle }) := by
    change RegistrySystem.begin _ _ _ = _
    rw [RegistrySystem.begin, hi, Option.bind_some, hwaiting]
    rfl
  have hrun : Transition.run RegistrySystem.step m.shared.registry [.forget f.receiver] =
      some (m.shared.registry.setReceiver f.receiver { receiver with phase := .idle }) :=
    Transition.run_cons_eq_some_iff.mpr ⟨_, hregistry, rfl⟩
  refine ⟨_, beside_registry h hk (fun action hmem ↦ ?_) hrun
    (leads_of_step (show (Action.forget k).own = true from rfl) ?_), rfl,
    List.getElem?_set_self (List.getElem?_eq_some_iff.mp hi).1⟩
  · exact List.mem_singleton.mp hmem ▸ rfl
  · rw [System.step, forget, hk]
    dsimp only
    rw [if_pos ⟨h.opened, hpolling, hcancelled⟩]
    exact step_user hk rfl hregistry

/-- **A forwarder that has been cancelled returns.** -/
theorem exists_quit (h : m.Calm sha256) (hk : m.link.forwarders[k]? = some f)
    (hcancelled : f.cancelled = true) : ∃ m', Beside sha256 k m m' ∧ m'.HasReturned k := by
  cases hstage : f.stage with
  | returned => exact ⟨m, .refl k m, f, hk, hstage⟩
  | returning => exact exists_finished h hk hstage
  | cancelling => exact exists_dropped h hk hstage
  | overflowing => exact exists_overflowed h hk hstage (.inl hcancelled)
  | polling =>
    obtain ⟨m₁, receiver, hbeside, hcalm, hlink, hi, hphase⟩ := exists_rested h hk
    have hk₁ : m₁.link.forwarders[k]? = some f := hlink ▸ hk
    cases hcalm.agrees hk₁ hi with
    | ending stage ends => exact absurd stage (by simp [hstage])
    | ended closed ended drops => exact absurd closed (by simp [Forwarder.closed, hstage])
    | polling stage polls opened returned =>
      rcases hphase with hidle | hwaiting | hdropped
      · obtain ⟨m', hbeside', hdone⟩ := exists_noticed hcalm hk₁ hi hidle hstage returned hcancelled
        exact ⟨m', hbeside.trans hbeside', hdone⟩
      · obtain ⟨m₂, hbeside₂, hlink₂, hi₂⟩ :=
          exists_forgotten hcalm hk₁ hi hwaiting hstage hcancelled
        obtain ⟨m', hbeside', hdone⟩ :=
          exists_noticed (hcalm.beside hbeside₂ hk₁) (hlink₂ ▸ hk₁) hi₂
          rfl hstage returned hcancelled
        exact ⟨m', (hbeside.trans hbeside₂).trans hbeside', hdone⟩
      · exact absurd polls (by simp [hdropped, ReceiverPhase.polls])
    | observed stage idle opened poll returned =>
      obtain ⟨m₂, hbeside₂, hdone | ⟨u, -, hk₂, hshared⟩⟩ :=
        exists_handled hcalm hk₁ hi hstage returned (.inl hcancelled)
      · exact ⟨m₂, hbeside.trans hbeside₂, hdone⟩
      · have hi₂ : m₂.shared.registry.receivers[f.receiver]? = some receiver := hshared ▸ hi
        obtain ⟨m', hbeside', hdone⟩ :=
          exists_noticed (hcalm.beside hbeside₂ hk₁) hk₂ hi₂ idle hstage returned hcancelled
        exact ⟨m', (hbeside.trans hbeside₂).trans hbeside', hdone⟩

/-! ### Everything that is due -/

/-- The forwarder waits for an update of an active subscription, and has dealt with everything that
is due. -/
def Waits (m : System) (k : ℕ) : Prop := ∃ f receiver, m.link.forwarders[k]? = some f ∧
  m.shared.registry.receivers[f.receiver]? = some receiver ∧ f.stage = .polling ∧
  receiver.phase = .waiting ∧ receiver.returned = f.seen ∧
  m.shared.registry.isActive receiver = true ∧
  notified f.seen = due m.shared.registry.answered receiver.entry

/-- The forwarder has returned, or waits with nothing more to do. -/
def Still (m : System) (k : ℕ) : Prop := m.HasReturned k ∨ m.Waits k

/-- A forwarder that polls gets something, or waits. -/
theorem exists_polled (h : m.Calm sha256) (hk : m.link.forwarders[k]? = some f)
    (hi : m.shared.registry.receivers[f.receiver]? = some receiver) (hpolling : f.stage = .polling)
    (hcancelled : f.cancelled = false) (hreturned : receiver.returned = f.seen)
    (hphase : receiver.phase = .idle ∨ receiver.phase = .waiting) :
    ∃ m', Beside sha256 k m m' ∧ m'.link = m.link ∧ (m'.Waits k ∨ ∃ receiver' poll,
      m'.shared.registry.receivers[f.receiver]? = some receiver' ∧
        receiver'.returned = f.seen ++ [poll]) := by
  obtain ⟨broker, actions, hrun⟩ := h.steady.kept.reached.registry
  have hgenuine := fun call hcall ↦ (h.steady.kept.reached.called call hcall).1
  -- `next` is called, or polled
  obtain ⟨action, registry, haction, hstep, hpoll⟩ :
      ∃ (action : RegistryAction) (registry : RegistrySystem),
      (action = .next f.receiver ∨ action = .poll f.receiver) ∧
      m.shared.registry.step action = some registry ∧
      m.step sha256 (.poll k) = some { m with shared := { m.shared with registry } } := by
    rcases hphase with hidle | hwaiting
    · have hstep : m.shared.registry.step (.next f.receiver) = some (m.shared.registry.setReceiver
          f.receiver (RegistrySystem.advanceNext receiver (nextProgram receiver.entry))) := by
        change RegistrySystem.begin _ _ _ = _
        rw [RegistrySystem.begin, hi, Option.bind_some, hidle]
        rfl
      refine ⟨_, _, .inl rfl, hstep, ?_⟩
      rw [System.step, poll, hk, receiver?_eq_some_iff.mpr ⟨f, hk, hi⟩]
      dsimp only
      rw [if_pos ⟨h.opened, hpolling, hcancelled⟩, hidle]
      dsimp only
      rw [if_pos hreturned]
      exact step_user hk rfl hstep
    · have hstep : m.shared.registry.step (.poll f.receiver) = some (m.shared.registry.setReceiver
          f.receiver (RegistrySystem.advanceNext receiver (selectProgram receiver.entry))) := by
        change RegistrySystem.begin _ _ _ = _
        rw [RegistrySystem.begin, hi, Option.bind_some, hwaiting]
        rfl
      refine ⟨_, _, .inr rfl, hstep, ?_⟩
      rw [System.step, poll, hk, receiver?_eq_some_iff.mpr ⟨f, hk, hi⟩]
      dsimp only
      rw [if_pos ⟨h.opened, hpolling, hcancelled⟩, hwaiting]
      exact step_user hk rfl hstep
  obtain ⟨n, registry', receiver', hproceed, hi', hcases⟩ :=
    RegistrySystem.exists_returned hrun hgenuine h.free.1 hi haction hstep
  have hrun' : Transition.run RegistrySystem.step m.shared.registry
      (action :: List.replicate n (.proceed f.receiver)) = some registry' :=
    Transition.run_cons_eq_some_iff.mpr ⟨registry, hstep, hproceed⟩
  have habout : ∀ action' ∈ action :: List.replicate n (.proceed f.receiver),
      action'.receiver? = some f.receiver := by
    intro action' hmem
    rcases List.mem_cons.mp hmem with rfl | hmem
    · rcases haction with rfl | rfl <;> rfl
    · exact List.eq_of_mem_replicate hmem ▸ rfl
  have hbeside := beside_registry h hk habout hrun'
    ((leads_of_step (show (Action.poll k).own = true from rfl) hpoll).trans
      (leads_proceed (m := { m with shared := { m.shared with registry } }) h.opened hk hproceed))
  refine ⟨_, hbeside, rfl, ?_⟩
  rcases hcases with ⟨u, hnew, -⟩ | ⟨reason, hnew, -⟩ | ⟨hsame, hwaiting, hactive, hdue⟩
  · exact .inr ⟨receiver', _, hi', hreturned ▸ hnew⟩
  · exact .inr ⟨receiver', _, hi', hreturned ▸ hnew⟩
  · obtain ⟨hw, l, hrecorded⟩ := h.steady.kept.reached.recorded
    have hapart := RegistrySystem.apart_run hw hrecorded habout hrun'
    obtain ⟨receiver'', hi'', hentry⟩ := RegistrySystem.receiver_run hw hi hrun'
    obtain rfl := Option.some_inj.mp (hi'.symm.trans hi'')
    refine .inl ⟨f, receiver', hk, hi', hpolling, hwaiting, hsame.trans hreturned, hactive, ?_⟩
    change notified f.seen = due registry'.answered receiver'.entry
    rw [hapart.answered, hentry, ← hdue, hreturned]

/-- A forwarder gets further with what it has observed. -/
theorem exists_further (h : m.Calm sha256) (hk : m.link.forwarders[k]? = some f)
    (hi : m.shared.registry.receivers[f.receiver]? = some receiver) (hpolling : f.stage = .polling)
    {poll : UpdateSubscriptionPoll} (hreturned : receiver.returned = f.seen ++ [poll])
    (hroom : m.link.events.length < connectionEventQueueCapacity) :
    ∃ m', Beside sha256 k m m' ∧ (m'.Still k ∨ ∃ f', m'.link.forwarders[k]? = some f' ∧
      (notified f.seen).length < (notified f'.seen).length) := by
  obtain ⟨m', hbeside, hdone | ⟨u, rfl, hk', -⟩⟩ :=
    exists_handled h hk hi hpolling hreturned (.inr hroom)
  · exact ⟨m', hbeside, .inl (.inl hdone)⟩
  · refine ⟨m', hbeside, .inr ⟨_, hk', ?_⟩⟩
    rw [Forwarder.notified_concat, List.length_append]
    exact Nat.lt_succ_self _

/-- **How far a forwarder comes that is left alone while the queue has room**: it comes to rest, or
has notified of another update. -/
theorem exists_advanced (h : m.Calm sha256)
    (hroom : m.link.events.length < connectionEventQueueCapacity)
    (hk : m.link.forwarders[k]? = some f) :
    ∃ m', Beside sha256 k m m' ∧ (m'.Still k ∨ ∃ f', m'.link.forwarders[k]? = some f' ∧
      (notified f.seen).length < (notified f'.seen).length) := by
  by_cases hcancelled : f.cancelled = true
  · obtain ⟨m', hbeside, hdone⟩ := exists_quit h hk hcancelled
    exact ⟨m', hbeside, .inl (.inl hdone)⟩
  cases hstage : f.stage with
  | returned => exact ⟨m, .refl k m, .inl (.inl ⟨f, hk, hstage⟩)⟩
  | returning =>
    obtain ⟨m', hbeside, hdone⟩ := exists_finished h hk hstage
    exact ⟨m', hbeside, .inl (.inl hdone)⟩
  | cancelling =>
    obtain ⟨m', hbeside, hdone⟩ := exists_dropped h hk hstage
    exact ⟨m', hbeside, .inl (.inl hdone)⟩
  | overflowing =>
    obtain ⟨m', hbeside, hdone⟩ := exists_overflowed h hk hstage (.inr hroom)
    exact ⟨m', hbeside, .inl (.inl hdone)⟩
  | polling =>
    obtain ⟨m₁, receiver, hbeside, hcalm, hlink, hi, hphase⟩ := exists_rested h hk
    have hk₁ : m₁.link.forwarders[k]? = some f := hlink ▸ hk
    have hroom₁ : m₁.link.events.length < connectionEventQueueCapacity := hlink ▸ hroom
    cases hcalm.agrees hk₁ hi with
    | ending stage ends => exact absurd stage (by simp [hstage])
    | ended closed ended drops => exact absurd closed (by simp [Forwarder.closed, hstage])
    | observed stage idle opened poll returned =>
      obtain ⟨m', hbeside', hmore⟩ := exists_further hcalm hk₁ hi stage returned hroom₁
      exact ⟨m', hbeside.trans hbeside', hmore⟩
    | polling stage polls opened returned =>
      have hready : receiver.phase = .idle ∨ receiver.phase = .waiting := by
        rcases hphase with hidle | hwaiting | hdropped
        · exact .inl hidle
        · exact .inr hwaiting
        · exact absurd polls (by simp [hdropped, ReceiverPhase.polls])
      obtain ⟨m₂, hbeside₂, hlink₂, hwaits | ⟨receiver₂, poll, hi₂, hreturned₂⟩⟩ :=
        exists_polled hcalm hk₁ hi stage (Bool.eq_false_of_not_eq_true hcancelled) returned hready
      · exact ⟨m₂, hbeside.trans hbeside₂, .inl (.inr hwaits)⟩
      · obtain ⟨m', hbeside', hmore⟩ :=
          exists_further (hcalm.beside hbeside₂ hk₁) (hlink₂ ▸ hk₁) hi₂
          stage hreturned₂ (hlink₂ ▸ hroom₁)
        exact ⟨m', (hbeside.trans hbeside₂).trans hbeside', hmore⟩

end System

end Emission

end Renee
