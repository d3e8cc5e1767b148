import Renee.Subscription.Concurrent

/-!
# What the users of the registry may rely on

Everybody who reaches what the registry shares keeps to one discipline, `Follows`: a state word that
has left `ACTIVE` is never written again, a lost lease stays lost, and a receiver is closed only
when its state word has left `ACTIVE`.  Each operation is a program that keeps to it, whatever the
others do within it, and establishes what its name says:

* `obeys_prune`, `obeys_retaining`: an entry that is removed has ended, and what a `register` has
  kept was active and on a live channel when the mutex was taken.
* `obeys_register` and `obeys_program`: what an operation leaves to the next one.
* `obeys_next`, `obeys_select`: a notification is returned only from the state word `ACTIVE`.
-/

set_option autoImplicit false

namespace Renee

open ByteString Interference SharedProgram

/-! ## The discipline -/

/-- A receiver is closed only when its subscription has ended. -/
def Shared.Sane (s : Shared) : Prop := ∀ id, (s.cells id).closed = true →
    (s.cells id).state ≠ active

/-- What anybody may do to what is shared who leaves the leases of the given channels alone. -/
structure Follows (held : Set ℕ) (s s' : Shared) : Prop where
  ended : ∀ id, (s.cells id).state ≠ active → (s'.cells id).state = (s.cells id).state
  lost : ∀ channelId ∈ s.lost, channelId ∈ s'.lost
  sane : s.Sane → s'.Sane
  leased : ∀ channelId ∈ held, channelId ∈ s'.lost → channelId ∈ s.lost

variable {held relied kept : Set ℕ} {s s' s₀ : Shared}

theorem Follows.refl (held : Set ℕ) (s : Shared) : Follows held s s :=
  ⟨fun _ _ ↦ rfl, fun _ h ↦ h, fun h ↦ h, fun _ _ h ↦ h⟩

theorem Follows.trans {s₁ s₂ s₃ : Shared} (h : Follows held s₁ s₂) (h' : Follows held s₂ s₃) :
    Follows held s₁ s₃ where
  ended id hid := by
    have hmid := h.ended id hid
    exact (h'.ended id (hmid ▸ hid)).trans hmid
  lost channelId hlost := h'.lost channelId (h.lost channelId hlost)
  sane hsane := h'.sane (h.sane hsane)
  leased channelId hheld hlost := h.leased channelId hheld (h'.leased channelId hheld hlost)

theorem Follows.mono {held' : Set ℕ} (h : Follows held s s') (hle : held' ⊆ held) :
    Follows held' s s' :=
  ⟨h.ended, h.lost, h.sane, fun channelId hheld ↦ h.leased channelId (hle hheld)⟩

theorem Follows.weaken (h : Follows held s s') : Follows ∅ s s' := h.mono (Set.empty_subset held)

/-- A subscription that is active now has been active before. -/
theorem Follows.active_of_active (h : Follows held s s') {id : ℕ}
    (hactive : (s'.cells id).state = active) : (s.cells id).state = active := by
  by_contra hended
  exact hended ((h.ended id hended).symm.trans hactive)

theorem Follows.ended_of_ended (h : Follows held s s') {id : ℕ}
    (hended : (s.cells id).state ≠ active) : (s'.cells id).state ≠ active :=
  fun hactive ↦ hended (h.active_of_active hactive)

theorem follows_setCell {id : ℕ} {cell : SubscriptionCell}
    (hstate : (s.cells id).state ≠ active → cell.state = (s.cells id).state)
    (hclosed : cell.closed = true → cell.state ≠ active ∨ (s.cells id).closed = true) :
    Follows held s (s.setCell id cell) where
  ended id' hended := by
    rw [Shared.setCell]
    by_cases hid : id' = id
    · subst hid
      exact (congrArg _ (Function.update_self ..)).trans (hstate hended)
    · exact congrArg _ (Function.update_of_ne hid _ _)
  lost _ h := h
  sane hsane id' := by
    rw [Shared.setCell]
    by_cases hid : id' = id
    · subst hid
      simp only [Function.update_self]
      intro hcell
      rcases hclosed hcell with hended | hbefore
      · exact hended
      · exact fun hactive ↦ hsane id' hbefore (by
          by_contra hended
          exact hended ((hstate hended).symm.trans hactive))
    · simp only [Function.update_of_ne hid]
      exact hsane id'
  leased _ _ h := h

/-- The accesses that keep to the discipline in every state. -/
def SharedAccess.Harmless : SharedAccess → Prop
  | .dropLease _ | .close _ => False
  | _ => True

theorem follows_exec {access : SharedAccess} (h : access.Harmless) :
    Follows held s (s.exec access).2 := by
  cases access with
  | load id => exact .refl ..
  | invalidate id reason =>
    refine follows_setCell (fun hended ↦ ?_) fun hclosed ↦ .inr (by simpa using hclosed)
    rw [SubscriptionCell.invalidate_of_ended hended]
  | upgrade channelId => exact .refl ..
  | trySend id u =>
    simp only [Shared.exec]
    split
    · exact .refl ..
    split
    · exact .refl ..
    · exact follows_setCell (fun _ ↦ rfl) fun hclosed ↦ .inr hclosed
  | isClosed id => exact .refl ..
  | dropSender id => exact ⟨fun _ _ ↦ rfl, fun _ h ↦ h, fun h ↦ h, fun _ _ h ↦ h⟩
  | dropLease channelId => exact h.elim
  | changed channelId => exact .refl ..
  | recv id =>
    simp only [Shared.exec]
    split
    · exact follows_setCell (fun _ ↦ rfl) fun hclosed ↦ .inr hclosed
    · exact .refl ..
  | close id => exact h.elim

theorem follows_dropLease {channelId : ℕ} (h : channelId ∉ held) :
    Follows held s (s.exec (.dropLease channelId)).2 where
  ended _ _ := rfl
  lost _ hlost := List.mem_cons_of_mem _ hlost
  sane hsane := hsane
  leased _ hheld hlost := (List.mem_cons.mp hlost).resolve_left fun heq ↦ h (heq ▸ hheld)

theorem follows_close {id : ℕ} (h : (s.cells id).state ≠ active) :
    Follows held s (s.exec (.close id)).2 :=
  follows_setCell (fun _ ↦ rfl) fun _ ↦ .inl h

/-! ## Programs that keep to it -/

variable {α β : Type} {post post' : α → Shared → Prop}

/-- The program keeps to the discipline among others who do, and what it answers with satisfies a
postcondition.  It relies on some leases, and leaves others alone. -/
def Obeys (relied kept : Set ℕ) (post : α → Shared → Prop) (program : SharedProgram α)
    (s : Shared) : Prop :=
  Program.Meets (fun access s ↦ s.exec access) (Follows relied) (Follows kept) post program s

/-- What nobody can undo. -/
theorem stable_of_follows {F : Shared → Prop} (h : ∀ s s', F s → Follows ∅ s s' → F s') :
    Program.Stable (Follows relied) (Follows kept) F :=
  fun s s' hs hfollows ↦ h s s' hs (hfollows.elim Follows.weaken Follows.weaken)

theorem stable_follows : Program.Stable (Follows relied) (Follows kept) (Follows ∅ s₀) :=
  stable_of_follows fun _ _ hs h ↦ hs.trans h

theorem stable_ended (id : ℕ) :
    Program.Stable (Follows relied) (Follows kept) fun s ↦ (s.cells id).state ≠ active :=
  stable_of_follows fun _ _ hs h ↦ h.ended_of_ended hs

/-- A lease that the others and the program leave alone is not lost. -/
theorem stable_held {channelId : ℕ} (hrelied : channelId ∈ relied) (hkept : channelId ∈ kept) :
    Program.Stable (Follows relied) (Follows kept) fun s ↦ channelId ∉ s.lost := by
  rintro s s' hs (h | h) hlost
  · exact hs (h.leased _ hrelied hlost)
  · exact hs (h.leased _ hkept hlost)

theorem Obeys.mono_kept {kept' : Set ℕ} {program : SharedProgram α}
    (h : Obeys relied kept post program s) (hle : kept' ⊆ kept) :
    Obeys relied kept' post program s :=
  Program.Meets.mono_guarantee h fun _ _ hs ↦ hs.mono hle

theorem obeys_result {a : α} : Obeys relied kept post (.result a) s ↔ post a s := Iff.rfl

theorem obeys_bind {x : SharedProgram α} {f : α → SharedProgram β} {post : β → Shared → Prop} :
    Obeys relied kept post (x >>= f) s ↔
    Obeys relied kept (fun a s ↦ Obeys relied kept post (f a) s) x s :=
  Program.meets_bind

theorem Obeys.mono {program : SharedProgram α} (h : Obeys relied kept post program s)
    (hpost : ∀ a s, post a s → post' a s) : Obeys relied kept post' program s :=
  Program.Meets.mono h hpost

theorem Obeys.frame {program : SharedProgram α} {F : Shared → Prop}
    (h : Obeys relied kept post program s) (hF : Program.Stable (Follows relied) (Follows kept) F)
    (hs : F s) : Obeys relied kept (fun a s ↦ post a s ∧ F s) program s :=
  Program.Meets.frame h hF hs

/-- Nobody is disturbed while the access is harmless. -/
theorem obeys_perform {o : SharedAccess} (h : o.Harmless) {post : o.Answer → Shared → Prop} :
    Obeys relied kept post (Program.perform o) s ↔
      ∀ s', Follows relied s s' → post (s'.exec o).1 (s'.exec o).2 :=
  forall₂_congr fun _ _ ↦ and_iff_right (follows_exec h)

theorem obeys_load {id : ℕ} {post : UInt8 → Shared → Prop} :
    Obeys relied kept post (load id) s ↔ ∀ s', Follows relied s s' → post (s'.cells id).state s' :=
  obeys_perform (o := .load id) trivial

theorem obeys_upgrade {channelId : ℕ} {post : Bool → Shared → Prop} :
    Obeys relied kept post (upgrade channelId) s ↔
      ∀ s', Follows relied s s' → post (!s'.lost.contains channelId) s' :=
  obeys_perform (o := .upgrade channelId) trivial

theorem obeys_isClosed {id : ℕ} {post : Bool → Shared → Prop} :
    Obeys relied kept post (isClosed id) s ↔ ∀ s', Follows relied s s' →
    post (s'.cells id).closed s' :=
  obeys_perform (o := .isClosed id) trivial

theorem obeys_dropSender {id : ℕ} {post : Unit → Shared → Prop} :
    Obeys relied kept post (dropSender id) s ↔ ∀ s', Follows relied s s' →
      post () { s' with dropped := id :: s'.dropped } :=
  obeys_perform (o := .dropSender id) trivial

/-- After `invalidate` the subscription has ended, and stays so. -/
theorem obeys_invalidate (relied kept : Set ℕ) (id : ℕ) (reason : UpdateSubscriptionEnd)
    (s : Shared) : Obeys relied kept (fun _ s ↦ (s.cells id).state ≠ active)
    (invalidate id reason) s := by
  refine (obeys_perform (o := .invalidate id reason) trivial).mpr fun s' _ ↦ ?_
  simp only [Shared.exec, Shared.setCell, Function.update_self]
  exact SubscriptionCell.state_invalidate_ne _ reason

/-! ## Passes over the entries -/

/-- The subscription of an entry has ended. -/
def Ended (entry : SubscriptionEntry) (s : Shared) : Prop :=
  (s.cells entry.subscriptionId).state ≠ active

/-- The subscription of an entry is active, on a channel that is not lost. -/
def Taken (s : Shared) (entry : SubscriptionEntry) : Prop :=
  (s.cells entry.subscriptionId).state = active ∧ entry.channelId ∉ s.lost

theorem Taken.of_follows {entry : SubscriptionEntry} (h : Follows relied s s')
    (htaken : Taken s' entry) : Taken s entry :=
  ⟨h.active_of_active htaken.1, fun hlost ↦ htaken.2 (h.lost _ hlost)⟩

/-- A closure keeps only what satisfies `P`, and ends what it does not keep. -/
def Turn (relied kept : Set ℕ) (P : Prop) (entry : SubscriptionEntry) (program : SharedProgram Bool)
    (s : Shared) : Prop :=
  Obeys relied kept (fun keep s ↦ if keep then P else Ended entry s) program s

theorem turn_invalidate {P : Prop} {entry : SubscriptionEntry} {reason : UpdateSubscriptionEnd} :
    Turn relied kept P entry (do invalidate entry.subscriptionId reason; return false) s := by
  rw [Turn, obeys_bind]
  exact (obeys_invalidate relied kept entry.subscriptionId reason s).mono fun _ _ h ↦ h

theorem turn_keep {P : Prop} {entry : SubscriptionEntry} (h : P) :
    Turn relied kept P entry (pure true) s := h

/-- What `prune` keeps was active, on a live channel, when the mutex was taken: nothing comes
back. -/
theorem turn_pruneEntry {entry : SubscriptionEntry} (hsane : s₀.Sane) (h : Follows ∅ s₀ s) :
    Turn relied kept (Taken s₀ entry) entry (pruneEntry entry) s := by
  rw [Turn, pruneEntry, obeys_bind, obeys_load]
  intro s₁ h₁
  split
  · assumption
  rename_i hactive
  rw [not_not] at hactive
  rw [obeys_bind, obeys_upgrade]
  intro s₂ h₂
  split
  · exact turn_invalidate
  rename_i halive
  rw [obeys_bind, obeys_isClosed]
  intro s₃ h₃
  have hs₁ := h.trans h₁.weaken
  have hs₂ := hs₁.trans h₂.weaken
  cases hclosed : (s₃.cells entry.subscriptionId).closed with
  | true => exact (hs₂.trans h₃.weaken).sane hsane _ hclosed
  | false =>
    refine ⟨hs₁.active_of_active hactive, fun hlost ↦ halive ?_⟩
    simpa using hs₂.lost _ hlost

theorem turn_notifyEntry {d : DocumentId} {u : UpdateId} {entry : SubscriptionEntry} :
    Turn relied kept True entry (notifyEntry d u entry) s := by
  rw [Turn, notifyEntry, obeys_bind, obeys_load]
  intro s₁ h₁
  split
  · assumption
  rw [obeys_bind, obeys_upgrade]
  intro s₂ h₂
  split
  · exact turn_invalidate
  split
  · exact turn_keep trivial
  rw [obeys_bind]
  refine (obeys_perform (o := .trySend entry.subscriptionId u) trivial).mpr fun s₃ _ ↦ ?_
  split
  · exact turn_keep trivial
  · exact turn_invalidate
  · exact turn_invalidate

theorem turn_invalidateEntry {p : SubscriptionEntry → Bool} {reason : UpdateSubscriptionEnd}
    {entry : SubscriptionEntry} :
      Turn relied kept True entry (invalidateEntry p reason entry) s := by
  rw [invalidateEntry]
  split
  · exact turn_invalidate
  · exact turn_keep trivial

theorem turn_closeChannelEntry {channelId : ℕ} {entry : SubscriptionEntry} :
    Turn relied kept True entry (closeChannelEntry channelId entry) s := by
  rw [Turn, closeChannelEntry, obeys_bind, obeys_upgrade]
  intro s₁ h₁
  split
  · exact turn_invalidate
  · exact turn_keep trivial

/-- What a pass over the entries leaves: a part of them, all of which satisfy `P`; the subscriptions
of the others have ended. -/
structure Swept (P : SubscriptionEntry → Prop) (entries kept : List SubscriptionEntry)
    (s : Shared) : Prop where
  sublist : kept.Sublist entries
  forall_kept : ∀ entry ∈ kept, P entry
  ended : ∀ entry ∈ entries, entry ∈ kept ∨ Ended entry s

theorem Swept.of_follows {P : SubscriptionEntry → Prop} {entries entries' : List SubscriptionEntry}
    (hs : Swept P entries entries' s) (h : Follows ∅ s s') : Swept P entries entries' s' :=
  ⟨hs.sublist, hs.forall_kept, fun entry hentry ↦
    (hs.ended entry hentry).imp id h.ended_of_ended⟩

theorem stable_swept {P : SubscriptionEntry → Prop} {entries entries' : List SubscriptionEntry} :
    Program.Stable (Follows relied) (Follows kept) (Swept P entries entries') :=
  stable_of_follows fun _ _ hs h ↦ hs.of_follows h

/-- **A pass over the entries**, from what its closure does in one turn. -/
theorem obeys_retain {closure : SubscriptionEntry → SharedProgram Bool}
    {P : SubscriptionEntry → Prop} {entries : List SubscriptionEntry}
    (hturn : ∀ entry ∈ entries, ∀ s, Follows ∅ s₀ s →
      Turn relied kept (P entry) entry (closure entry) s) :
    Obeys relied kept (Swept P entries) (SharedProgram.retain closure entries) s₀ := by
  refine Obeys.mono (Program.meets_filter stable_follows
    (fun entry ↦ stable_ended entry.subscriptionId) (fun entry hentry s hs ↦ ?_) (.refl ∅ s₀))
    fun kept s h ↦ ⟨h.1, h.2.1, h.2.2⟩
  -- dropping the sending half does not matter to what the closure has established
  refine obeys_bind.mpr ((hturn entry hentry s hs).mono fun keep s hkeep ↦ ?_)
  cases keep with
  | true => exact hkeep
  | false =>
    refine obeys_bind.mpr (obeys_dropSender.mpr fun s' hs' ↦ ?_)
    exact hs'.ended_of_ended hkeep

/-- On a channel that somebody holds, every entry counts. -/
theorem obeys_countChannel {channelId : ℕ} {entries : List SubscriptionEntry}
    (hrelied : channelId ∈ relied) (h : channelId ∉ s.lost) :
    Obeys relied kept (fun count _ ↦ count = entries.countP fun entry ↦
      entry.channelId = channelId) (countChannel channelId entries) s := by
  induction entries generalizing s with
  | nil => exact rfl
  | cons entry entries ih =>
    rw [countChannel, obeys_bind, obeys_upgrade]
    intro s₁ h₁
    have hheld : channelId ∉ s₁.lost := fun hlost ↦ h (h₁.leased channelId hrelied hlost)
    rw [obeys_bind]
    refine (ih hheld).mono fun count s₂ hcount ↦ ?_
    subst hcount
    rw [List.countP_cons]
    by_cases hchannel : entry.channelId = channelId
    · simp [obeys_result, hchannel, hheld]
    · simp [obeys_result, hchannel]

/-! ## The operations of the registry -/

/-- The channels whose leases an operation relies on. -/
def RegistryCall.relies (fields : RegistryFields) : RegistryCall → Set ℕ
  | .register channel _ _ => {channelId | fields.recognizes channel ∧ channelId = channel.id}
  | _ => ∅

/-- A bound is taken up by the entries, or no number is left. -/
def RegistryFull (fields : RegistryFields) (channelId : ℕ) (d : DocumentId)
    (entries : List SubscriptionEntry) : Prop :=
  maxUpdateSubscriptions ≤ entries.length ∨
    maxUpdateSubscriptionsPerChannel ≤ (entries.countP fun entry ↦ entry.channelId = channelId) ∨
    maxUpdateSubscriptionsPerDocument ≤ (entries.countP fun entry ↦ entry.documentId = d) ∨
    2 ^ 64 ≤ fields.nextSubscriptionId + 1

/-- What an operation that found `fields` and `s₀` leaves, and what it returns. -/
inductive Leaves (call : RegistryCall) (fields : RegistryFields) (s₀ s : Shared) :
    RegistryOutcome → Prop
  | done {kept : List SubscriptionEntry}
    (swept : Swept (fun _ ↦ True) fields.subscriptions kept s) :
      Leaves call fields s₀ s ⟨{ fields with subscriptions := kept }, .done⟩
  | opened {nextChannelId : ℕ} (channel : Option BrokerChannel)
      (le : fields.nextChannelId ≤ nextChannelId) :
      Leaves call fields s₀ s ⟨{ fields with nextChannelId }, .channel channel⟩
  | invalidChannel : Leaves call fields s₀ s ⟨fields, .registered (.error .invalidChannel)⟩
  | backpressure {channel : BrokerChannel} {d : DocumentId} {c : CapabilityId}
      {kept : List SubscriptionEntry} (call_eq : call = .register channel d c)
      (swept : Swept (Taken s₀) fields.subscriptions kept s)
      (full : RegistryFull fields channel.id d kept) :
      Leaves call fields s₀ s
        ⟨{ fields with subscriptions := kept }, .registered (.error .backpressure)⟩
  | registered {channel : BrokerChannel} {d : DocumentId} {c : CapabilityId}
      {kept : List SubscriptionEntry} (call_eq : call = .register channel d c)
      (swept : Swept (Taken s₀) fields.subscriptions kept s)
      (room : ¬RegistryFull fields channel.id d kept) :
      Leaves call fields s₀ s
        ⟨{ fields with
            nextSubscriptionId := fields.nextSubscriptionId + 1
            subscriptions := kept ++ [⟨c, channel.id, d, fields.nextSubscriptionId⟩] },
          .registered (.ok ⟨c, channel.id, d, fields.nextSubscriptionId⟩)⟩

variable {call : RegistryCall} {fields : RegistryFields}

theorem obeys_retaining {closure : SubscriptionEntry → SharedProgram Bool}
    (hturn : ∀ entry s, Turn relied kept True entry (closure entry) s) :
    Obeys relied kept (fun outcome s ↦ Leaves call fields s₀ s outcome)
      (retaining fields closure) s :=
  obeys_bind.mpr ((obeys_retain fun entry _ s _ ↦ hturn entry s).mono fun _ _ h ↦ .done h)

theorem obeys_registerProgram {channel : BrokerChannel} {d : DocumentId} {c : CapabilityId}
    (hsane : s₀.Sane) (hpass : fields.recognizes channel = true → channel.id ∉ s₀.lost) :
    Obeys ((RegistryCall.register channel d c).relies fields) Set.univ
      (fun outcome s ↦ Leaves (.register channel d c) fields s₀ s outcome)
      (registerProgram fields channel d c) s₀ := by
  rw [registerProgram]
  cases hrecognized : fields.recognizes channel with
  | false => exact Leaves.invalidChannel
  | true =>
  rw [if_neg (by simp), obeys_bind]
  have hrelied : channel.id ∈ (RegistryCall.register channel d c).relies fields :=
    ⟨hrecognized, rfl⟩
  have hretain : Obeys ((RegistryCall.register channel d c).relies fields) Set.univ
      (Swept (Taken s₀) fields.subscriptions)
      (SharedProgram.retain pruneEntry fields.subscriptions) s₀ :=
    obeys_retain fun _ _ _ hs ↦ turn_pruneEntry hsane hs
  -- the lease is held all the time
  refine (hretain.frame (stable_held hrelied trivial) (hpass hrecognized)).mono
    fun kept s ⟨hswept, hheld⟩ ↦ ?_
  rw [obeys_bind]
  refine ((obeys_countChannel hrelied hheld).frame stable_swept hswept).mono
    fun count s ⟨hcount, hswept⟩ ↦ ?_
  subst hcount
  dsimp only
  split
  · rename_i hfull
    refine .backpressure rfl hswept ?_
    rcases hfull with h | h | h
    · exact .inl h
    · exact .inr (.inl h)
    · exact .inr (.inr (.inl h))
  rename_i hroom
  split
  · rename_i hnone
    exact .backpressure rfl hswept (.inr (.inr (.inr (checkedAdd_eq_none_iff.mp hnone))))
  · rename_i nextSubscriptionId hsome
    obtain ⟨hlt, rfl⟩ := checkedAdd_eq_some_iff.mp hsome
    refine .registered rfl hswept fun hfull ↦ ?_
    rcases hfull with h | h | h | h
    · exact hroom (.inl h)
    · exact hroom (.inr (.inl h))
    · exact hroom (.inr (.inr h))
    · exact absurd hlt (not_lt.mpr h)

theorem Leaves.of_follows {outcome : RegistryOutcome} (h : Leaves call fields s₀ s outcome)
    (hs : Follows ∅ s s') : Leaves call fields s₀ s' outcome := by
  cases h with
  | done swept => exact .done (swept.of_follows hs)
  | opened channel le => exact .opened channel le
  | invalidChannel => exact .invalidChannel
  | backpressure call_eq swept full =>
    exact .backpressure call_eq (swept.of_follows hs) full
  | registered call_eq swept room =>
    exact .registered call_eq (swept.of_follows hs) room

/-- **Every operation keeps to the discipline, and leaves what its name says.** -/
theorem obeys_program (hsane : s₀.Sane)
    (hpass : ∀ channelId ∈ call.relies fields, channelId ∉ s₀.lost) :
    Obeys (call.relies fields) ∅ (fun outcome s ↦ Leaves call fields s₀ s outcome)
      (call.program fields) s₀ := by
  cases call with
  | openChannel =>
    rw [RegistryCall.program]
    split
    · exact Leaves.opened none le_rfl
    · rename_i nextChannelId hsome
      refine Leaves.opened (some _) ?_
      rw [← (checkedAdd_eq_some_iff.mp hsome).2]
      exact Nat.le_succ _
  | register channel d c =>
    refine (obeys_registerProgram hsane fun hrecognized ↦ ?_).mono_kept (Set.empty_subset _)
    exact hpass channel.id ⟨hrecognized, rfl⟩
  | notify d u => exact obeys_retaining fun _ _ ↦ turn_notifyEntry
  | invalidateSubscriptions subscriptionIds reason =>
    exact obeys_retaining fun _ _ ↦ turn_invalidateEntry
  | invalidateDocument d reason => exact obeys_retaining fun _ _ ↦ turn_invalidateEntry
  | closeChannel channel =>
    rw [RegistryCall.program]
    split
    · refine Leaves.done ⟨.refl fields.subscriptions, fun _ _ ↦ trivial, fun _ h ↦ .inl h⟩
    rw [obeys_bind]
    have hretaining : Obeys ∅ ∅ (fun outcome s ↦ Leaves (.closeChannel channel) fields s₀ s outcome)
        (retaining fields (closeChannelEntry channel.id)) s₀ :=
      obeys_retaining fun _ _ ↦ turn_closeChannelEntry
    refine hretaining.mono fun outcome s hleaves s' hs' ↦ ?_
    have hdrop : Follows ∅ s' (s'.exec (.dropLease channel.id)).2 := follows_dropLease (by simp)
    exact ⟨hdrop, hleaves.of_follows (hs'.trans hdrop)⟩
  | shutdown => exact obeys_retaining fun _ _ ↦ turn_invalidateEntry

/-! ## The operations of a receiver -/

open UpdateSubscriptionRegistry (UpdateSubscriptionPoll)

variable {entry : SubscriptionEntry}

theorem obeys_ended : Obeys relied kept (fun reason s ↦
    reason = decodeEnd (s.cells entry.subscriptionId).state) (endedProgram entry) s := by
  rw [endedProgram, obeys_bind, obeys_upgrade]
  intro s₁ h₁
  split
  · rw [obeys_bind]
    refine (obeys_invalidate relied kept entry.subscriptionId .channelLost s₁).mono fun _ s₂ _ ↦ ?_
    rw [obeys_bind, obeys_load]
    exact fun s₃ _ ↦ rfl
  · rw [obeys_bind, obeys_load]
    exact fun s₂ _ ↦ rfl

/-- A notification leaves the state word as it must be to have been returned. -/
def Delivered (entry : SubscriptionEntry) (poll : UpdateSubscriptionPoll) (s : Shared) : Prop :=
  ∀ u, poll = .notification u → (s.cells entry.subscriptionId).state = active

theorem delivered_invalidated {reason : UpdateSubscriptionEnd} :
    Delivered entry (.invalidated reason) s := fun _ h ↦ absurd h (by simp)

theorem obeys_select : Obeys relied kept (Delivered entry) (selectProgram entry) s := by
  rw [selectProgram, obeys_bind]
  refine (obeys_perform (o := .changed entry.channelId) trivial).mpr fun s₁ _ ↦ ?_
  split
  · rw [obeys_bind]
    refine (obeys_invalidate relied kept entry.subscriptionId .channelLost _).mono fun _ s₂ _ ↦ ?_
    exact obeys_bind.mpr (obeys_ended.mono fun _ _ _ ↦ delivered_invalidated)
  rw [obeys_bind]
  refine (obeys_perform (o := .recv entry.subscriptionId) trivial).mpr fun s₂ _ ↦ ?_
  split
  · exact fun _ h ↦ absurd h (by simp)
  · exact obeys_bind.mpr (obeys_ended.mono fun _ _ _ ↦ delivered_invalidated)
  · refine obeys_bind.mpr (obeys_ended.mono fun reason s₃ hreason ↦ ?_)
    split
    · exact fun _ _ ↦ decodeEnd_eq_none_iff.mp hreason.symm
    · exact delivered_invalidated

theorem obeys_next : Obeys relied kept (Delivered entry) (nextProgram entry) s := by
  rw [nextProgram, obeys_bind]
  refine obeys_ended.mono fun reason s₁ _ ↦ ?_
  split
  · exact delivered_invalidated
  · exact obeys_select

/-- `cancel` closes the receiver only after the subscription has ended. -/
theorem obeys_cancel : Obeys relied kept (fun _ s ↦ Ended entry s) (cancelProgram entry) s := by
  rw [cancelProgram, obeys_bind]
  refine (obeys_invalidate relied kept entry.subscriptionId .cancelled s).mono fun _ s₁ hended ↦ ?_
  intro s₂ h₂
  have hended₂ := h₂.ended_of_ended hended
  have hclose : Follows kept s₂ (s₂.exec (.close entry.subscriptionId)).2 := follows_close hended₂
  exact ⟨hclose, hclose.ended_of_ended hended₂⟩

end Renee
