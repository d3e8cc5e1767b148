import Renee.Subscription.Interleaving

/-!
# What becomes of the notifications

`Ledger` is what the registry shares with its users, with what has been queued for each subscription
and what has been received from its queue.  Nothing reads the two records; they are kept to say what
an operation has done.

* `Keeps` is what everybody keeps to beyond `Follows`: a sending half is dropped only when the
  subscription has ended, and what has been queued is what has been received and what is still
  there.
* `HolderKeeps` and `ReceiverKeeps` say why a state word leaves `ACTIVE`, and who queues and
  receives.
* `concludes_program`: each operation of the registry has queued for every entry that has not ended
  what it queues for it, has ended what it picks out, and has dropped the sending halves of what it
  removes.
* `reports_next`: what `next` returns is what it has received, or the reason in the state word.
-/

set_option autoImplicit false

namespace Renee

open ByteString Interference SharedProgram
open UpdateSubscriptionRegistry (UpdateSubscriptionPoll)

/-! ## The ledger -/

/-- What is shared, with a record of what has been queued and received. -/
@[ext] structure Ledger where
  shared : Shared
  /-- What has been queued for a subscription, oldest first. -/
  queued : ℕ → List UpdateId
  /-- What has been received from its queue, oldest first. -/
  received : ℕ → List UpdateId

namespace Ledger

/-- What an access adds to the record. -/
def note (l : Ledger) : (access : SharedAccess) → access.Answer → Ledger
  | .trySend id u, .ok _ => { l with queued := Function.update l.queued id (l.queued id ++ [u]) }
  | .recv id, .update u =>
    { l with received := Function.update l.received id (l.received id ++ [u]) }
  | _, _ => l

/-- What an access answers and does. -/
def exec (access : SharedAccess) (l : Ledger) : access.Answer × Ledger :=
  let (answer, shared) := l.shared.exec access
  (answer, { l.note access answer with shared })

/-- The state word of a subscription. -/
def word (l : Ledger) (id : ℕ) : UInt8 := (l.shared.cells id).state

/-- What holds of every ledger. -/
structure Sound (l : Ledger) : Prop where
  sane : l.shared.Sane
  dropped : ∀ id ∈ l.shared.dropped, l.word id ≠ active
  queue : ∀ id, l.queued id = l.received id ++ (l.shared.cells id).queue

end Ledger

/-- What everybody keeps to. -/
structure Keeps (l l' : Ledger) : Prop where
  follows : Follows ∅ l.shared l'.shared
  closed : ∀ id, (l.shared.cells id).closed = true → (l'.shared.cells id).closed = true
  dropped : ∀ id ∈ l.shared.dropped, id ∈ l'.shared.dropped
  sound : l.Sound → l'.Sound

variable {l l' l₀ l₁ : Ledger} {α β : Type}

theorem Keeps.refl (l : Ledger) : Keeps l l :=
  ⟨.refl .., fun _ h ↦ h, fun _ h ↦ h, fun h ↦ h⟩

theorem Keeps.trans (h : Keeps l₀ l) (h' : Keeps l l') : Keeps l₀ l' :=
  ⟨h.follows.trans h'.follows, fun id hid ↦ h'.closed id (h.closed id hid),
    fun id hid ↦ h'.dropped id (h.dropped id hid), fun hs ↦ h'.sound (h.sound hs)⟩

theorem Keeps.ended (h : Keeps l l') {id : ℕ} (hid : l.word id ≠ active) : l'.word id ≠ active :=
  h.follows.ended_of_ended hid

/-- The accesses that only look. -/
def SharedAccess.Looks : SharedAccess → Prop
  | .load _ | .upgrade _ | .isClosed _ | .changed _ => True
  | _ => False

theorem Ledger.exec_of_looks {access : SharedAccess} (h : access.Looks) :
    (l.exec access).2 = l := by
  cases access with
  | load id | upgrade channelId | isClosed id | changed channelId => rfl
  | _ => exact h.elim

/-- An access ends nothing before its time. -/
def SharedAccess.Timely (l : Ledger) : SharedAccess → Prop
  | .dropSender id | .close id => l.word id ≠ active
  | _ => True

/-- What changes cells, and nothing else, keeps to it if it accounts for the queues. -/
theorem keeps_of_follows {s : Shared} {queued received : ℕ → List UpdateId}
    (hfollows : Follows ∅ l.shared s) (hdropped : s.dropped = l.shared.dropped)
    (hclosed : ∀ id, (l.shared.cells id).closed = true → (s.cells id).closed = true)
    (hqueue : ∀ id, l.queued id = l.received id ++ (l.shared.cells id).queue →
      queued id = received id ++ (s.cells id).queue) : Keeps l ⟨s, queued, received⟩ where
  follows := hfollows
  closed := hclosed
  dropped _ hid := hdropped ▸ hid
  sound hs := ⟨hfollows.sane hs.sane,
    fun id hid ↦ hfollows.ended_of_ended (hs.dropped id (hdropped ▸ hid)),
    fun id ↦ hqueue id (hs.queue id)⟩

theorem keeps_setCell {id : ℕ} {cell : SubscriptionCell} {queued received : ℕ → List UpdateId}
    (hfollows : Follows ∅ l.shared (l.shared.setCell id cell))
    (hclosed : (l.shared.cells id).closed = true → cell.closed = true)
    (hself : l.queued id = l.received id ++ (l.shared.cells id).queue →
      queued id = received id ++ cell.queue)
    (hother : ∀ id', id' ≠ id → queued id' = l.queued id' ∧ received id' = l.received id') :
    Keeps l ⟨l.shared.setCell id cell, queued, received⟩ := by
  refine keeps_of_follows hfollows rfl (fun id' h ↦ ?_) fun id' h ↦ ?_
  · by_cases hid : id' = id
    · subst hid
      simpa [Shared.setCell] using hclosed h
    · simpa [Shared.setCell, hid] using h
  · by_cases hid : id' = id
    · subst hid
      simpa [Shared.setCell] using hself h
    · rw [(hother id' hid).1, (hother id' hid).2, h]
      simp [Shared.setCell, hid]

/-- **Every access keeps to it, in its time.** -/
theorem keeps_exec {access : SharedAccess} (h : access.Timely l) : Keeps l (l.exec access).2 := by
  cases access with
  | load id | upgrade channelId | isClosed id | changed channelId => exact .refl l
  | invalidate id reason =>
    exact keeps_setCell (follows_exec (by trivial : (SharedAccess.invalidate id reason).Harmless))
      (by simp) (fun hqueue ↦ by rw [SubscriptionCell.queue_invalidate]; exact hqueue)
      fun _ _ ↦ ⟨rfl, rfl⟩
  | trySend id u =>
    have hfollows : Follows ∅ l.shared (l.shared.exec (.trySend id u)).2 := follows_exec trivial
    rw [Ledger.exec]
    simp only [Shared.exec] at hfollows ⊢
    split_ifs at hfollows ⊢ with hclosed hfull
    · exact .refl l
    · exact .refl l
    · refine keeps_setCell hfollows (fun h ↦ h) (fun hqueue ↦ ?_) fun id' hid ↦ ?_
      · simp only [Ledger.note, Function.update_self, hqueue, List.append_assoc]
      · exact ⟨Function.update_of_ne hid _ _, rfl⟩
  | dropSender id =>
    refine ⟨⟨fun _ _ ↦ rfl, fun _ h ↦ h, fun h ↦ h, fun _ _ h ↦ h⟩, fun _ h ↦ h,
      fun _ ↦ List.mem_cons_of_mem _, fun hs ↦ ⟨hs.sane, fun id' hid ↦ ?_, hs.queue⟩⟩
    rcases List.mem_cons.mp hid with rfl | hid
    · exact h
    · exact hs.dropped id' hid
  | dropLease channelId =>
    exact keeps_of_follows (follows_dropLease (by simp)) rfl (fun _ h ↦ h) fun _ h ↦ h
  | recv id =>
    have hfollows : Follows ∅ l.shared (l.shared.exec (.recv id)).2 := follows_exec trivial
    rw [Ledger.exec]
    simp only [Shared.exec] at hfollows ⊢
    split
    · rename_i u queue hcell
      rw [hcell] at hfollows
      refine keeps_setCell hfollows (fun h ↦ h) (fun hqueue ↦ ?_) fun id' hid ↦ ?_
      · simp only [Ledger.note, Function.update_self, hqueue, hcell, List.append_assoc,
          List.singleton_append]
      · exact ⟨rfl, Function.update_of_ne hid _ _⟩
    · split <;> exact .refl l
  | close id =>
    exact keeps_setCell (follows_close h) (fun _ ↦ rfl) (fun hqueue ↦ hqueue) fun _ _ ↦ ⟨rfl, rfl⟩

namespace Ledger

theorem trySend_cells (l : Ledger) (id : ℕ) (u : UpdateId) :
    (∀ id', (l.exec (.trySend id u)).2.word id' = l.word id') ∧
      ∀ id', ((l.exec (.trySend id u)).2.shared.cells id').closed =
        (l.shared.cells id').closed := by
  simp only [word, exec, Shared.exec]
  split_ifs
  · exact ⟨fun _ ↦ rfl, fun _ ↦ rfl⟩
  · exact ⟨fun _ ↦ rfl, fun _ ↦ rfl⟩
  · refine ⟨fun id' ↦ ?_, fun id' ↦ ?_⟩ <;>
    · by_cases hid : id' = id
      · subst hid
        simp [Shared.setCell]
      · simp [Shared.setCell, hid]

theorem received_trySend (l : Ledger) (id : ℕ) (u : UpdateId) :
    (l.exec (.trySend id u)).2.received = l.received := by
  have hnote : ∀ answer, (l.note (.trySend id u) answer).received = l.received := by
    intro answer
    cases answer <;> rfl
  exact hnote _

/-- What is taken is queued; what is not changes nothing. -/
theorem trySend_spec (l : Ledger) (id : ℕ) (u : UpdateId) :
    match (l.exec (.trySend id u)).1 with
    | .ok () => (l.exec (.trySend id u)).2.queued = Function.update l.queued id (l.queued id ++ [u])
    | .error .full => (l.exec (.trySend id u)).2 = l
    | .error .closed => (l.shared.cells id).closed = true ∧ (l.exec (.trySend id u)).2 = l := by
  simp only [exec, Shared.exec]
  split_ifs with hclosed
  · exact ⟨hclosed, rfl⟩
  · rfl
  · rfl

theorem recv_cells (l : Ledger) (id : ℕ) :
    (∀ id', (l.exec (.recv id)).2.word id' = l.word id') ∧
      ∀ id', ((l.exec (.recv id)).2.shared.cells id').closed = (l.shared.cells id').closed := by
  simp only [word, exec, Shared.exec]
  split
  · refine ⟨fun id' ↦ ?_, fun id' ↦ ?_⟩ <;>
    · by_cases hid : id' = id
      · subst hid
        simp [Shared.setCell]
      · simp [Shared.setCell, hid]
  · split <;> exact ⟨fun _ ↦ rfl, fun _ ↦ rfl⟩

theorem received_recv (l : Ledger) {id id' : ℕ} (h : id' ≠ id) :
    (l.exec (.recv id)).2.received id' = l.received id' := by
  have hnote : ∀ answer, (l.note (.recv id) answer).received id' = l.received id' := by
    intro answer
    cases answer with
    | update u => exact Function.update_of_ne h _ _
    | empty | disconnected => rfl
  exact hnote _

/-- What has been received stays recorded. -/
theorem prefix_recv (l : Ledger) (id : ℕ) :
    l.received id <+: (l.exec (.recv id)).2.received id := by
  have hnote : ∀ answer, l.received id <+: (l.note (.recv id) answer).received id := by
    intro answer
    cases answer with
    | update u =>
      simp only [note, Function.update_self]
      exact List.prefix_append _ _
    | empty | disconnected => exact List.prefix_refl _
  exact hnote _

theorem queued_recv (l : Ledger) (id : ℕ) : (l.exec (.recv id)).2.queued = l.queued := by
  have hnote : ∀ answer, (l.note (.recv id) answer).queued = l.queued := by
    intro answer
    cases answer <;> rfl
  exact hnote _

end Ledger

/-! ## What an operation of the registry does -/

namespace RegistryCall

/-- The reason that an operation may give an entry for its end. -/
def ends (entry : SubscriptionEntry) : RegistryCall → Option UpdateSubscriptionEnd
  | notify d _ => if entry.documentId = d then some .overflowed else none
  | invalidateSubscriptions subscriptionIds reason =>
    if subscriptionIds.contains entry.subscriptionId then some reason else none
  | invalidateDocument d reason => if entry.documentId = d then some reason else none
  | closeChannel channel => if entry.channelId = channel.id then some .channelLost else none
  | shutdown => some .brokerShutdown
  | openChannel | register _ _ _ => none

/-- An operation ends the entry in any case. -/
def picks (entry : SubscriptionEntry) : RegistryCall → Bool
  | invalidateSubscriptions subscriptionIds _ => subscriptionIds.contains entry.subscriptionId
  | invalidateDocument d _ => entry.documentId = d
  | shutdown => true
  | _ => false

/-- What an operation queues for an entry. -/
def queues (entry : SubscriptionEntry) : RegistryCall → List UpdateId
  | notify d u => if entry.documentId = d then [u] else []
  | _ => []

end RegistryCall

/-- Why an operation may write a state word: for the reason that is its own, or because it has found
the receiver closed or the channel lost. -/
inductive Warranted (entries : List SubscriptionEntry) (call : RegistryCall) (l : Ledger) (id : ℕ) :
    UInt8 → Prop
  | ends (entry : SubscriptionEntry) (mem : entry ∈ entries) (same : entry.subscriptionId = id)
      (reason : UpdateSubscriptionEnd) (ends : call.ends entry = some reason) :
      Warranted entries call l id (encodeEnd reason)
  | closed (closed : (l.shared.cells id).closed = true) :
      Warranted entries call l id (encodeEnd .cancelled)
  | lost (entry : SubscriptionEntry) (mem : entry ∈ entries) (same : entry.subscriptionId = id)
      (lost : entry.channelId ∈ l.shared.lost) :
      Warranted entries call l id (encodeEnd .channelLost)

/-- The users of a subscription have ended it: they have cancelled it, or its channel is lost. -/
def ByUsers (entry : SubscriptionEntry) (l : Ledger) : Prop :=
  l.word entry.subscriptionId = encodeEnd .cancelled ∨ entry.channelId ∈ l.shared.lost

/-- No operation of the registry has ended a subscription. -/
def Untouched (entry : SubscriptionEntry) (l : Ledger) : Prop :=
  l.word entry.subscriptionId = active ∨ ByUsers entry l

/-- What an operation may count on: nobody else queues anything, and the others end subscriptions
only as their users do. -/
structure HolderRelies (entries : List SubscriptionEntry) (l l' : Ledger) : Prop where
  keeps : Keeps l l'
  queued : l'.queued = l.queued
  users : ∀ entry ∈ entries, l.word entry.subscriptionId = active →
    l'.word entry.subscriptionId ≠ active → ByUsers entry l'

/-- What an operation keeps to: it receives nothing, closes no receiver, and writes state words only
when it is warranted. -/
structure HolderKeeps (entries : List SubscriptionEntry) (call : RegistryCall) (l l' : Ledger) :
    Prop where
  keeps : Keeps l l'
  received : l'.received = l.received
  closed : ∀ id, (l'.shared.cells id).closed = (l.shared.cells id).closed
  word : ∀ id, l.word id = active → l'.word id ≠ active →
    Warranted entries call l id (l'.word id)

variable {entries : List SubscriptionEntry} {entry : SubscriptionEntry} {call : RegistryCall}
  {post post' : α → Ledger → Prop}

theorem ByUsers.of_keeps (h : ByUsers entry l) (hkeeps : Keeps l l') : ByUsers entry l' := by
  refine h.imp (fun hcancelled ↦ ?_) (hkeeps.follows.lost _)
  exact (hkeeps.follows.ended _ (ne_of_eq_of_ne hcancelled (encodeEnd_ne_active _))).trans
    hcancelled

theorem HolderRelies.refl (entries : List SubscriptionEntry) (l : Ledger) :
    HolderRelies entries l l := ⟨.refl l, rfl, fun _ _ h h' ↦ absurd h h'⟩

theorem HolderRelies.trans (h : HolderRelies entries l₀ l) (h' : HolderRelies entries l l') :
    HolderRelies entries l₀ l' := by
  refine ⟨h.keeps.trans h'.keeps, h'.queued.trans h.queued, fun entry hmem hactive hended ↦ ?_⟩
  by_cases hmiddle : l.word entry.subscriptionId = active
  · exact h'.users entry hmem hmiddle hended
  · exact (h.users entry hmem hactive hmiddle).of_keeps h'.keeps

theorem Untouched.of_relies (h : Untouched entry l) (hmem : entry ∈ entries)
    (hl : HolderRelies entries l l') : Untouched entry l' := by
  rcases h with hactive | husers
  · by_cases hended : l'.word entry.subscriptionId = active
    · exact .inl hended
    · exact .inr (hl.users entry hmem hactive hended)
  · exact .inr (husers.of_keeps hl.keeps)

/-- A state word that has not been written leaves a subscription untouched. -/
theorem Untouched.of_word (h : Untouched entry l) (hkeeps : Keeps l l')
    (hword : l'.word entry.subscriptionId = l.word entry.subscriptionId) : Untouched entry l' :=
  h.imp hword.trans fun husers ↦ husers.of_keeps hkeeps

theorem HolderKeeps.refl (l : Ledger) : HolderKeeps entries call l l :=
  ⟨.refl l, rfl, fun _ ↦ rfl, fun _ h h' ↦ absurd h h'⟩

/-- Among others, the operation keeps to this, and what it answers with satisfies a
postcondition. -/
def HolderMeets (entries : List SubscriptionEntry) (call : RegistryCall) (post : α → Ledger → Prop)
    (program : SharedProgram α) (l : Ledger) : Prop :=
  Program.Meets Ledger.exec (HolderRelies entries) (HolderKeeps entries call) post program l

theorem holderMeets_bind {x : SharedProgram α} {f : α → SharedProgram β}
    {post : β → Ledger → Prop} : HolderMeets entries call post (x >>= f) l ↔
      HolderMeets entries call (fun a l ↦ HolderMeets entries call post (f a) l) x l :=
  Program.meets_bind

theorem HolderMeets.mono {program : SharedProgram α} (h : HolderMeets entries call post program l)
    (hpost : ∀ a l, post a l → post' a l) : HolderMeets entries call post' program l :=
  Program.Meets.mono h hpost

theorem HolderMeets.frame {program : SharedProgram α} {F : Ledger → Prop}
    (h : HolderMeets entries call post program l) (hF : ∀ l l', F l → Keeps l l' → F l')
    (hl : F l) :
    HolderMeets entries call (fun a l ↦ post a l ∧ F l) program l :=
  Program.Meets.frame h (fun l l' hl hkeeps ↦ hF l l' hl (hkeeps.elim (·.keeps) (·.keeps))) hl

theorem holderMeets_look {o : SharedAccess} (h : o.Looks) {post : o.Answer → Ledger → Prop} :
    HolderMeets entries call post (Program.perform o) l ↔
      ∀ l', HolderRelies entries l l' → post (l'.exec o).1 l' := by
  refine forall₂_congr fun l' _ ↦ ?_
  rw [Ledger.exec_of_looks h]
  exact and_iff_right (.refl l')

/-- What an access of an operation leaves as it has been: what has been queued, and all
subscriptions but one. -/
structure Spares (entries : List SubscriptionEntry) (id : ℕ) (l l' : Ledger) : Prop where
  queued : l'.queued = l.queued
  untouched : ∀ entry ∈ entries, entry.subscriptionId ≠ id → Untouched entry l → Untouched entry l'

theorem Spares.refl (id : ℕ) (l : Ledger) : Spares entries id l l := ⟨rfl, fun _ _ _ h ↦ h⟩

theorem HolderRelies.spares {id : ℕ} (h : HolderRelies entries l l') : Spares entries id l l' :=
  ⟨h.queued, fun _ hmem _ hold ↦ hold.of_relies hmem h⟩

theorem Spares.trans {id : ℕ} (h : Spares entries id l₀ l) (h' : Spares entries id l l') :
    Spares entries id l₀ l' :=
  ⟨h'.queued.trans h.queued, fun entry hmem hid hold ↦
    h'.untouched entry hmem hid (h.untouched entry hmem hid hold)⟩

/-- An operation writes a state word, when it is warranted. -/
theorem holderMeets_invalidate {reason : UpdateSubscriptionEnd}
    (hwarranted : ∀ l', HolderRelies entries l l' →
      Warranted entries call l' entry.subscriptionId (encodeEnd reason)) :
    HolderMeets entries call (fun _ l' ↦ l'.word entry.subscriptionId ≠ active ∧
      Spares entries entry.subscriptionId l l') (invalidate entry.subscriptionId reason) l := by
  intro l' hl'
  have hkeeps : Keeps l' (l'.exec (.invalidate entry.subscriptionId reason)).2 := keeps_exec trivial
  have hother : ∀ id, id ≠ entry.subscriptionId →
      (l'.exec (.invalidate entry.subscriptionId reason)).2.shared.cells id = l'.shared.cells id :=
    fun id hid ↦ Function.update_of_ne hid _ _
  refine ⟨⟨hkeeps, rfl, fun id ↦ ?_, fun id hactive hended ↦ ?_⟩, ?_, hl'.spares.trans ⟨rfl, ?_⟩⟩
  · by_cases hid : id = entry.subscriptionId
    · subst hid
      simp [Ledger.exec, Shared.exec, Shared.setCell]
    · rw [hother id hid]
  · by_cases hid : id = entry.subscriptionId
    · subst hid
      have hword : (l'.exec (.invalidate entry.subscriptionId reason)).2.word entry.subscriptionId =
          encodeEnd reason := by
        simp only [Ledger.word] at hactive
        simp [Ledger.word, Ledger.exec, Shared.exec, Shared.setCell, SubscriptionCell.invalidate,
          hactive]
      exact hword ▸ hwarranted l' hl'
    · rw [Ledger.word, hother id hid] at hended
      exact absurd hactive hended
  · simp only [Ledger.word, Ledger.exec, Shared.exec, Shared.setCell, Function.update_self]
    exact SubscriptionCell.state_invalidate_ne _ reason
  · exact fun other _ hid hold ↦ hold.of_word hkeeps (congrArg _ (hother _ hid))

/-- A sending half is dropped once the subscription has ended. -/
theorem holderMeets_dropSender {id : ℕ} (h : l.word id ≠ active) :
    HolderMeets entries call (fun _ l' ↦ l'.word id ≠ active ∧ id ∈ l'.shared.dropped ∧
      Spares entries id l l') (dropSender id) l := by
  intro l' hl'
  have hended := hl'.keeps.ended h
  have hkeeps : Keeps l' (l'.exec (.dropSender id)).2 := keeps_exec hended
  exact ⟨⟨hkeeps, rfl, fun _ ↦ rfl, fun _ h h' ↦ absurd h h'⟩, hended, List.mem_cons_self,
    hl'.spares.trans ⟨rfl, fun _ _ _ hold ↦ hold.of_word hkeeps rfl⟩⟩

/-! ### Turns -/

/-- What a turn does with its entry: what it does not keep has ended; what it keeps it has not
ended, and it has queued for it what the operation queues. -/
structure Turns (entries : List SubscriptionEntry) (call : RegistryCall) (entry : SubscriptionEntry)
    (l₀ : Ledger) (keep : Bool) (l : Ledger) : Prop where
  ended : keep = false → l.word entry.subscriptionId ≠ active ∧
    l.queued entry.subscriptionId = l₀.queued entry.subscriptionId
  picks : keep = true → call.picks entry = false
  queued : keep = true →
    l.queued entry.subscriptionId = l₀.queued entry.subscriptionId ++ call.queues entry
  kept : keep = true → Untouched entry l₀ → Untouched entry l
  others : ∀ id, id ≠ entry.subscriptionId → l.queued id = l₀.queued id
  untouched : ∀ other ∈ entries, other.subscriptionId ≠ entry.subscriptionId →
    Untouched other l₀ → Untouched other l

/-- A turn ends its entry and does not keep it. -/
theorem turns_invalidate {reason : UpdateSubscriptionEnd} (hl : HolderRelies entries l₀ l)
    (hwarranted : ∀ l', HolderRelies entries l l' →
      Warranted entries call l' entry.subscriptionId (encodeEnd reason)) :
    HolderMeets entries call (Turns entries call entry l₀)
      (do invalidate entry.subscriptionId reason; return false) l := by
  refine holderMeets_bind.mpr ((holderMeets_invalidate hwarranted).mono fun _ l' h ↦ ?_)
  obtain ⟨hended, h⟩ := h
  have hspares := hl.spares.trans h
  exact ⟨fun _ ↦ ⟨hended, by rw [hspares.queued]⟩, fun h ↦ absurd h (by simp),
    fun h ↦ absurd h (by simp), fun h ↦ absurd h (by simp), fun id _ ↦ by rw [hspares.queued],
    hspares.untouched⟩

/-- A turn keeps an entry for which nothing is queued. -/
theorem turns_keep (hmem : entry ∈ entries) (hl : HolderRelies entries l₀ l)
    (hpicks : call.picks entry = false) (hqueues : call.queues entry = []) :
    HolderMeets entries call (Turns entries call entry l₀) (pure true) l :=
  ⟨fun h ↦ absurd h (by simp), fun _ ↦ hpicks,
    fun _ ↦ by rw [hqueues, hl.queued, List.append_nil], fun _ h ↦ h.of_relies hmem hl,
    fun id _ ↦ by rw [hl.queued], hl.spares.untouched⟩

theorem turns_leave (hl : HolderRelies entries l₀ l)
    (hended : l.word entry.subscriptionId ≠ active) :
    HolderMeets entries call (Turns entries call entry l₀) (pure false) l :=
  ⟨fun _ ↦ ⟨hended, by rw [hl.queued]⟩, fun h ↦ absurd h (by simp), fun h ↦ absurd h (by simp),
    fun h ↦ absurd h (by simp), fun id _ ↦ by rw [hl.queued], hl.spares.untouched⟩

/-- A lost channel is found. -/
theorem turns_lost (hmem : entry ∈ entries) (hl : HolderRelies entries l₀ l)
    (hlost : entry.channelId ∈ l.shared.lost) :
    HolderMeets entries call (Turns entries call entry l₀)
      (do invalidate entry.subscriptionId .channelLost; return false) l :=
  turns_invalidate hl fun _ hl' ↦ .lost entry hmem rfl (hl'.keeps.follows.lost _ hlost)

/-- A turn that first asks whether the subscription has ended, and whether its channel is lost. -/
theorem turns_live {rest : SharedProgram Bool} (hmem : entry ∈ entries)
    (hrest : ∀ l', HolderRelies entries l l' →
      HolderMeets entries call (Turns entries call entry l) rest l') :
    HolderMeets entries call (Turns entries call entry l) (do
      if (← load entry.subscriptionId) ≠ active then
        return false
      if !(← upgrade entry.channelId) then
        invalidate entry.subscriptionId .channelLost
        return false
      rest) l := by
  rw [holderMeets_bind]
  refine (holderMeets_look (o := .load entry.subscriptionId) trivial).mpr fun l₁ h₁ ↦ ?_
  split
  · rename_i hended
    exact turns_leave h₁ hended
  rw [holderMeets_bind]
  refine (holderMeets_look (o := .upgrade entry.channelId) trivial).mpr fun l₂ h₂ ↦ ?_
  have h₀₂ := h₁.trans h₂
  split
  · rename_i hlost
    exact turns_lost hmem h₀₂ (by simpa [Ledger.exec, Shared.exec] using hlost)
  exact hrest l₂ h₀₂

theorem turns_pruneEntry (hmem : entry ∈ entries) (hsound : l.Sound)
    (hpicks : call.picks entry = false) (hqueues : call.queues entry = []) :
    HolderMeets entries call (Turns entries call entry l) (pruneEntry entry) l := by
  refine turns_live hmem fun l₂ h₀₂ ↦ ?_
  rw [holderMeets_bind]
  refine (holderMeets_look (o := .isClosed entry.subscriptionId) trivial).mpr fun l₃ h₃ ↦ ?_
  have h₀₃ := h₀₂.trans h₃
  cases hclosed : (l₃.shared.cells entry.subscriptionId).closed with
  | true =>
    simp only [Ledger.exec, Shared.exec, hclosed]
    exact turns_leave h₀₃ ((h₀₃.keeps.sound hsound).sane _ hclosed)
  | false =>
    simp only [Ledger.exec, Shared.exec, hclosed]
    exact turns_keep hmem h₀₃ hpicks hqueues

theorem turns_notifyEntry {d : DocumentId} {u : UpdateId} (hmem : entry ∈ entries) :
    HolderMeets entries (.notify d u) (Turns entries (.notify d u) entry l)
      (notifyEntry d u entry) l := by
  refine turns_live hmem fun l₂ h₀₂ ↦ ?_
  split
  · rename_i hother
    exact turns_keep hmem h₀₂ rfl (if_neg hother)
  rename_i hdocument
  rw [not_not] at hdocument
  rw [holderMeets_bind]
  intro l₃ h₃
  have h₀₃ := h₀₂.trans h₃
  have hkeeps : Keeps l₃ (l₃.exec (.trySend entry.subscriptionId u)).2 := keeps_exec trivial
  obtain ⟨hword, hclosed⟩ := l₃.trySend_cells entry.subscriptionId u
  have hanswered := l₃.trySend_spec entry.subscriptionId u
  refine ⟨⟨hkeeps, l₃.received_trySend .., hclosed, fun id hactive hended ↦
    absurd ((hword id).trans hactive) hended⟩, ?_⟩
  rcases hanswer : (l₃.exec (.trySend entry.subscriptionId u)).1 with (_ | _) | _
  · rw [hanswer] at hanswered
    rw [hanswered]
    exact turns_invalidate h₀₃ fun l' hl' ↦ .ends entry hmem rfl .overflowed (if_pos hdocument)
  · rw [hanswer] at hanswered
    rw [hanswered.2]
    exact turns_invalidate h₀₃ fun l' hl' ↦ .closed (hl'.keeps.closed _ hanswered.1)
  · rw [hanswer] at hanswered
    refine ⟨fun h ↦ absurd h (by simp), fun _ ↦ rfl, fun _ ↦ ?_, fun _ hold ↦ ?_, fun id hid ↦ ?_,
      fun other hother hid hold ↦ ?_⟩
    · rw [hanswered, Function.update_self, h₀₃.queued, RegistryCall.queues, if_pos hdocument]
    · exact (hold.of_relies hmem h₀₃).of_word hkeeps (hword _)
    · rw [hanswered, Function.update_of_ne hid, h₀₃.queued]
    · exact (hold.of_relies hother h₀₃).of_word hkeeps (hword _)

theorem turns_invalidateEntry {p : SubscriptionEntry → Bool} {reason : UpdateSubscriptionEnd}
    (hmem : entry ∈ entries) (hpicks : call.picks entry = p entry)
    (hqueues : call.queues entry = [])
    (hends : p entry = true → call.ends entry = some reason) :
    HolderMeets entries call (Turns entries call entry l) (invalidateEntry p reason entry) l := by
  rw [invalidateEntry]
  split
  · rename_i hp
    exact turns_invalidate (.refl ..) fun _ _ ↦ .ends entry hmem rfl reason (hends hp)
  · rename_i hp
    exact turns_keep hmem (.refl ..) (hpicks.trans (by simpa using hp)) hqueues

theorem turns_closeChannelEntry {channel : BrokerChannel} (hmem : entry ∈ entries) :
    HolderMeets entries (.closeChannel channel) (Turns entries (.closeChannel channel) entry l)
      (closeChannelEntry channel.id entry) l := by
  rw [closeChannelEntry, holderMeets_bind]
  refine (holderMeets_look (o := .upgrade entry.channelId) trivial).mpr fun l₁ h₁ ↦ ?_
  split
  · rename_i hchannel
    refine turns_invalidate h₁ fun _ _ ↦ .ends entry hmem rfl .channelLost (if_pos ?_)
    simp only [Bool.and_eq_true, decide_eq_true_eq] at hchannel
    exact hchannel.2
  · exact turns_keep hmem h₁ rfl rfl

/-! ### Operations -/

/-- The subscription has ended, and the registry has dropped its sending half. -/
def Gone (entry : SubscriptionEntry) (l : Ledger) : Prop :=
  l.word entry.subscriptionId ≠ active ∧ entry.subscriptionId ∈ l.shared.dropped

theorem Gone.of_keeps (l l' : Ledger) (h : Gone entry l) (hkeeps : Keeps l l') : Gone entry l' :=
  ⟨hkeeps.ended h.1, hkeeps.dropped _ h.2⟩

/-- What a pass over the entries does. -/
structure Sweeps (all : List SubscriptionEntry) (call : RegistryCall)
    (entries : List SubscriptionEntry) (l₀ : Ledger) (left : List SubscriptionEntry) (l : Ledger) :
    Prop where
  sublist : left.Sublist entries
  picks : ∀ entry ∈ left, call.picks entry = false
  queued : ∀ entry ∈ left,
    l.queued entry.subscriptionId = l₀.queued entry.subscriptionId ++ call.queues entry
  kept : ∀ entry ∈ left, Untouched entry l₀ → Untouched entry l
  removed : ∀ entry ∈ entries, entry ∈ left ∨ Gone entry l ∧
    l.queued entry.subscriptionId = l₀.queued entry.subscriptionId
  others : ∀ id, (∀ entry ∈ entries, entry.subscriptionId ≠ id) → l.queued id = l₀.queued id
  untouched : ∀ other ∈ all, (∀ entry ∈ entries, other.subscriptionId ≠ entry.subscriptionId) →
    Untouched other l₀ → Untouched other l

/-- **A pass over the entries**, from what its closure does in one turn. -/
theorem sweeps_retain {all : List SubscriptionEntry}
    {closure : SubscriptionEntry → SharedProgram Bool} (hall : entries ⊆ all)
    (hnodup : (entries.map SubscriptionEntry.subscriptionId).Nodup)
    (hturn : ∀ entry ∈ entries, ∀ l', Keeps l l' →
      HolderMeets all call (Turns all call entry l') (closure entry) l') :
    HolderMeets all call (Sweeps all call entries l) (SharedProgram.retain closure entries) l := by
  induction entries generalizing l with
  | nil => exact ⟨.slnil, by simp, by simp, by simp, by simp, fun _ _ ↦ rfl, fun _ _ _ h ↦ h⟩
  | cons entry entries ih =>
    obtain ⟨hfresh, hnodup⟩ := List.nodup_cons.mp hnodup
    obtain ⟨hentry, hall⟩ := List.cons_subset.mp hall
    have hother : ∀ other ∈ entries, other.subscriptionId ≠ entry.subscriptionId :=
      fun other hmem heq ↦ hfresh (heq ▸ List.mem_map_of_mem hmem)
    have hrest : ∀ l', Keeps l l' → HolderMeets all call (Sweeps all call entries l')
        (SharedProgram.retain closure entries) l' := fun l' hl' ↦
      ih hall hnodup fun other hmem l'' hl'' ↦
        hturn other (List.mem_cons_of_mem _ hmem) l'' (hl'.trans hl'')
    have hfirst := hturn entry List.mem_cons_self l (.refl l)
    rw [SharedProgram.retain, Program.filter, holderMeets_bind, holderMeets_bind]
    refine (hfirst.frame (F := Keeps l) (fun _ _ h h' ↦ h.trans h') (.refl l)).mono
      fun keep l₁ h ↦ ?_
    obtain ⟨hturns, hkeeps⟩ := h
    cases keep with
    | true =>
      refine holderMeets_bind.mpr ((hrest l₁ hkeeps).mono fun kept l₂ h ↦ ?_)
      refine ⟨h.sublist.cons_cons entry, List.forall_mem_cons.mpr ⟨hturns.picks rfl, h.picks⟩,
        List.forall_mem_cons.mpr ⟨?_, fun other hmem ↦ ?_⟩,
        List.forall_mem_cons.mpr ⟨fun hold ↦ ?_, fun other hmem hold ↦ ?_⟩,
        List.forall_mem_cons.mpr ⟨.inl List.mem_cons_self, fun other hmem ↦
          (h.removed other hmem).imp (List.mem_cons_of_mem _) fun hgone ↦ ⟨hgone.1, ?_⟩⟩,
        fun id hid ↦ ?_, fun other hmem hid hold ↦ ?_⟩
      · rw [h.others _ hother, hturns.queued rfl]
      · rw [h.queued other hmem, hturns.others _ (hother other (h.sublist.subset hmem))]
      · exact h.untouched entry hentry (fun other hmem ↦ (hother other hmem).symm)
          (hturns.kept rfl hold)
      · have hmem' := h.sublist.subset hmem
        exact h.kept other hmem (hturns.untouched other (hall hmem') (hother other hmem') hold)
      · rw [hgone.2, hturns.others _ (hother other hmem)]
      · obtain ⟨hid, hids⟩ := List.forall_mem_cons.mp hid
        rw [h.others id hids, hturns.others id (Ne.symm hid)]
      · obtain ⟨hid, hids⟩ := List.forall_mem_cons.mp hid
        exact h.untouched other hmem hids (hturns.untouched other hmem hid hold)
    | false =>
      refine holderMeets_bind.mpr
        (((holderMeets_dropSender (hturns.ended rfl).1).frame (F := Keeps l)
        (fun _ _ h h' ↦ h.trans h') hkeeps).mono
        fun _ l₂ h ↦ ?_)
      obtain ⟨⟨hended, hdropped, hspares⟩, hkeeps⟩ := h
      -- later turns do not undo what this one has done
      refine holderMeets_bind.mpr (((hrest l₂ hkeeps).frame (F := Gone entry) Gone.of_keeps
        ⟨hended, hdropped⟩).mono
        fun kept l₃ h ↦ ?_)
      obtain ⟨h, hgone⟩ := h
      refine ⟨h.sublist.cons entry, h.picks, fun other hmem ↦ ?_, fun other hmem hold ↦ ?_,
        List.forall_mem_cons.mpr ⟨.inr ⟨hgone, ?_⟩, fun other hmem ↦
          (h.removed other hmem).imp id fun hgone ↦ ⟨hgone.1, ?_⟩⟩,
        fun id hid ↦ ?_, fun other hmem hid hold ↦ ?_⟩
      · rw [h.queued other hmem, hspares.queued,
          hturns.others _ (hother other (h.sublist.subset hmem))]
      · have hmem' := h.sublist.subset hmem
        have hne := hother other hmem'
        exact h.kept other hmem (hspares.untouched other (hall hmem') hne
          (hturns.untouched other (hall hmem') hne hold))
      · rw [h.others _ hother, hspares.queued, (hturns.ended rfl).2]
      · rw [hgone.2, hspares.queued, hturns.others _ (hother other hmem)]
      · obtain ⟨hid, hids⟩ := List.forall_mem_cons.mp hid
        rw [h.others id hids, hspares.queued, hturns.others id (Ne.symm hid)]
      · obtain ⟨hid, hids⟩ := List.forall_mem_cons.mp hid
        exact h.untouched other hmem hids (hspares.untouched other hmem hid
          (hturns.untouched other hmem hid hold))

/-- What an operation that found `fields` and `l₀` has done when it returns. -/
structure Concludes (call : RegistryCall) (fields : RegistryFields) (l₀ : Ledger)
    (outcome : RegistryOutcome) (l : Ledger) : Prop where
  /-- Either the sending half is still there, or it has been dropped and nothing has been queued. -/
  removed : ∀ entry ∈ fields.subscriptions, entry ∈ outcome.fields.subscriptions ∨ Gone entry l ∧
    l.queued entry.subscriptionId = l₀.queued entry.subscriptionId
  picked : ∀ entry ∈ fields.subscriptions, call.picks entry = true →
    l.word entry.subscriptionId ≠ active
  queued : ∀ entry ∈ fields.subscriptions, entry ∈ outcome.fields.subscriptions →
    l.queued entry.subscriptionId = l₀.queued entry.subscriptionId ++ call.queues entry
  others : ∀ id, (∀ entry ∈ fields.subscriptions, entry.subscriptionId ≠ id) →
    l.queued id = l₀.queued id
  /-- What is still there it has not ended. -/
  kept : ∀ entry ∈ fields.subscriptions, entry ∈ outcome.fields.subscriptions →
    Untouched entry l₀ → Untouched entry l

variable {fields fields' : RegistryFields} {kept : List SubscriptionEntry}

theorem Sweeps.concludes (h : Sweeps fields.subscriptions call fields.subscriptions l₀ kept l)
    (hkept : ∀ entry ∈ fields.subscriptions, entry ∈ fields'.subscriptions ↔ entry ∈ kept)
    (reply : RegistryReply) : Concludes call fields l₀ ⟨fields', reply⟩ l where
  removed entry hmem := (h.removed entry hmem).imp (hkept entry hmem).mpr id
  picked entry hmem hpicks := by
    rcases h.removed entry hmem with hstays | hgone
    · exact absurd ((h.picks entry hstays).symm.trans hpicks) (by simp)
    · exact hgone.1.1
  queued entry hmem hstays := h.queued entry ((hkept entry hmem).mp hstays)
  others := h.others
  kept entry hmem hstays := h.kept entry ((hkept entry hmem).mp hstays)

/-- What has been done stays done while nothing is queued and no other operation ends anything. -/
theorem Concludes.of_keeps {outcome : RegistryOutcome} (h : Concludes call fields l₀ outcome l)
    (hl : Keeps l l') (hqueued : l'.queued = l.queued)
    (huntouched : ∀ entry ∈ fields.subscriptions, Untouched entry l → Untouched entry l') :
    Concludes call fields l₀ outcome l' where
  removed entry hmem := (h.removed entry hmem).imp id fun hgone ↦
    ⟨hgone.1.of_keeps l l' hl, by rw [hqueued, hgone.2]⟩
  picked entry hmem hpicks := hl.ended (h.picked entry hmem hpicks)
  queued entry hmem hstays := by
    rw [hqueued]
    exact h.queued entry hmem hstays
  others id hid := by rw [hqueued, h.others id hid]
  kept entry hmem hstays hold := huntouched entry hmem (h.kept entry hmem hstays hold)

theorem Concludes.of_relies {outcome : RegistryOutcome} (h : Concludes call fields l₀ outcome l)
    (hl : HolderRelies fields.subscriptions l l') : Concludes call fields l₀ outcome l' :=
  h.of_keeps hl.keeps hl.queued fun _ hmem hold ↦ hold.of_relies hmem hl

/-- An operation that does nothing to the entries. -/
theorem concludes_same (hsame : fields'.subscriptions = fields.subscriptions)
    (hpicks : ∀ entry, call.picks entry = false) (hqueues : ∀ entry, call.queues entry = [])
    (reply : RegistryReply) : Concludes call fields l ⟨fields', reply⟩ l where
  removed _ hmem := .inl (hsame ▸ hmem)
  picked entry _ h := absurd ((hpicks entry).symm.trans h) (by simp)
  queued entry _ _ := by rw [hqueues, List.append_nil]
  others _ _ := rfl
  kept _ _ _ h := h

theorem concludes_retaining {closure : SubscriptionEntry → SharedProgram Bool}
    (hnodup : (fields.subscriptions.map SubscriptionEntry.subscriptionId).Nodup)
    (hturn : ∀ entry ∈ fields.subscriptions, ∀ l', Keeps l l' →
      HolderMeets fields.subscriptions call (Turns fields.subscriptions call entry l')
        (closure entry) l') :
    HolderMeets fields.subscriptions call (Concludes call fields l) (retaining fields closure) l :=
  holderMeets_bind.mpr ((sweeps_retain (List.Subset.refl _) hnodup hturn).mono fun _ _ h ↦
    h.concludes (fun _ _ ↦ Iff.rfl) .done)

/-- Counting entries is looking. -/
theorem holderMeets_countChannel {channelId : ℕ} {counted : List SubscriptionEntry} :
    HolderMeets entries call (fun _ l' ↦ HolderRelies entries l l')
      (countChannel channelId counted) l := by
  induction counted generalizing l with
  | nil => exact .refl entries l
  | cons entry counted ih =>
    rw [countChannel, holderMeets_bind]
    refine (holderMeets_look (o := .upgrade entry.channelId) trivial).mpr fun l₁ h₁ ↦ ?_
    exact holderMeets_bind.mpr (ih.mono fun _ l₂ h₂ ↦ h₁.trans h₂)

theorem concludes_registerProgram {channel : BrokerChannel} {d : DocumentId} {c : CapabilityId}
    (hnodup : (fields.subscriptions.map SubscriptionEntry.subscriptionId).Nodup)
    (hfresh : ∀ entry ∈ fields.subscriptions, entry.subscriptionId < fields.nextSubscriptionId)
    (hsound : l.Sound) :
    HolderMeets fields.subscriptions (.register channel d c)
      (Concludes (.register channel d c) fields l) (registerProgram fields channel d c) l := by
  rw [registerProgram]
  split
  · exact concludes_same rfl (fun _ ↦ rfl) (fun _ ↦ rfl) _
  rw [holderMeets_bind]
  refine (sweeps_retain (List.Subset.refl _) hnodup fun entry hmem l' hl' ↦
    turns_pruneEntry hmem (hl'.sound hsound) rfl rfl).mono fun kept l₁ hsweeps ↦ ?_
  refine holderMeets_bind.mpr (holderMeets_countChannel.mono fun count l₂ h₂ ↦ ?_)
  dsimp only
  split
  · exact (hsweeps.concludes (fun _ _ ↦ Iff.rfl) _).of_relies h₂
  split
  · exact (hsweeps.concludes (fun _ _ ↦ Iff.rfl) _).of_relies h₂
  · refine (hsweeps.concludes (fun entry hmem ↦ ?_) _).of_relies h₂
    rw [List.mem_append, List.mem_singleton, or_iff_left_iff_imp]
    rintro rfl
    exact absurd (hfresh _ hmem) (lt_irrefl _)

/-- **What an operation has done when it returns**, whatever the others have done meanwhile. -/
theorem concludes_program
    (hnodup : (fields.subscriptions.map SubscriptionEntry.subscriptionId).Nodup)
    (hfresh : ∀ entry ∈ fields.subscriptions, entry.subscriptionId < fields.nextSubscriptionId)
    (hsound : l.Sound) :
    HolderMeets fields.subscriptions call (Concludes call fields l) (call.program fields) l := by
  cases call with
  | openChannel =>
    have hsame : ∀ {fields' : RegistryFields} (reply : RegistryReply),
        fields'.subscriptions = fields.subscriptions →
        Concludes .openChannel fields l ⟨fields', reply⟩ l :=
      fun reply hsame ↦ concludes_same hsame (fun _ ↦ rfl) (fun _ ↦ rfl) reply
    rw [RegistryCall.program]
    split <;> exact hsame _ rfl
  | register channel d c => exact concludes_registerProgram hnodup hfresh hsound
  | notify d u => exact concludes_retaining hnodup fun _ hmem _ _ ↦ turns_notifyEntry hmem
  | invalidateSubscriptions subscriptionIds reason =>
    exact concludes_retaining hnodup fun entry hmem _ _ ↦
      turns_invalidateEntry hmem rfl rfl fun h ↦ if_pos h
  | invalidateDocument d reason =>
    exact concludes_retaining hnodup fun entry hmem _ _ ↦
      turns_invalidateEntry hmem rfl rfl fun h ↦ if_pos (of_decide_eq_true h)
  | closeChannel channel =>
    rw [RegistryCall.program]
    split
    · exact concludes_same rfl (fun _ ↦ rfl) (fun _ ↦ rfl) _
    have hretaining : HolderMeets fields.subscriptions (.closeChannel channel)
        (Concludes (.closeChannel channel) fields l)
        (retaining fields (closeChannelEntry channel.id)) l :=
      concludes_retaining hnodup fun _ hmem _ _ ↦ turns_closeChannelEntry hmem
    refine holderMeets_bind.mpr (hretaining.mono fun outcome l₁ h l₂ h₂ ↦ ?_)
    have hkeeps : Keeps l₂ (l₂.exec (.dropLease channel.id)).2 := keeps_exec trivial
    exact ⟨⟨hkeeps, rfl, fun _ ↦ rfl, fun _ h h' ↦ absurd h h'⟩,
      (h.of_relies h₂).of_keeps hkeeps rfl fun _ _ hold ↦ hold.of_word hkeeps rfl⟩
  | shutdown =>
    exact concludes_retaining hnodup fun entry hmem _ _ ↦
      turns_invalidateEntry hmem rfl rfl fun _ ↦ rfl

/-! ## What the operations of a receiver do -/

/-- The updates that a poll hands over. -/
def UpdateSubscriptionRegistry.UpdateSubscriptionPoll.updates : UpdateSubscriptionPoll →
    List UpdateId
  | .notification u => [u]
  | _ => []

/-- What an operation of a receiver may count on: nobody else receives from its queue. -/
def ReceiverRelies (entry : SubscriptionEntry) (l l' : Ledger) : Prop :=
  Keeps l l' ∧ l'.received entry.subscriptionId = l.received entry.subscriptionId

/-- What an operation of a receiver keeps to: it queues nothing, receives from its own queue only,
and ends its own subscription only, for its channel is lost, or because it cancels it. -/
structure ReceiverKeeps (entry : SubscriptionEntry) (cancelling : Bool) (l l' : Ledger) : Prop where
  keeps : Keeps l l'
  queued : l'.queued = l.queued
  received : ∀ id, id ≠ entry.subscriptionId → l'.received id = l.received id
  grows : l.received entry.subscriptionId <+: l'.received entry.subscriptionId
  closed : ∀ id, (l'.shared.cells id).closed = true → (l.shared.cells id).closed = true ∨
    cancelling = true ∧ id = entry.subscriptionId
  word : ∀ id, l.word id = active → l'.word id ≠ active → id = entry.subscriptionId ∧
    (cancelling = true ∧ l'.word id = encodeEnd .cancelled ∨
      entry.channelId ∈ l.shared.lost ∧ l'.word id = encodeEnd .channelLost)

variable {cancelling : Bool}

theorem ReceiverRelies.refl (entry : SubscriptionEntry) (l : Ledger) : ReceiverRelies entry l l :=
  ⟨.refl l, rfl⟩

theorem ReceiverRelies.trans (h : ReceiverRelies entry l₀ l) (h' : ReceiverRelies entry l l') :
    ReceiverRelies entry l₀ l' := ⟨h.1.trans h'.1, h'.2.trans h.2⟩

theorem ReceiverKeeps.refl (l : Ledger) : ReceiverKeeps entry cancelling l l :=
  ⟨.refl l, rfl, fun _ _ ↦ rfl, List.prefix_refl _, fun _ h ↦ .inl h, fun _ h h' ↦ absurd h h'⟩

def ReceiverMeets (entry : SubscriptionEntry) (cancelling : Bool) (post : α → Ledger → Prop)
    (program : SharedProgram α) (l : Ledger) : Prop :=
  Program.Meets Ledger.exec (ReceiverRelies entry) (ReceiverKeeps entry cancelling) post program l

theorem receiverMeets_bind {x : SharedProgram α} {f : α → SharedProgram β}
    {post : β → Ledger → Prop} : ReceiverMeets entry cancelling post (x >>= f) l ↔
      ReceiverMeets entry cancelling (fun a l ↦ ReceiverMeets entry cancelling post (f a) l) x l :=
  Program.meets_bind

theorem ReceiverMeets.mono {program : SharedProgram α}
    (h : ReceiverMeets entry cancelling post program l) (hpost : ∀ a l, post a l → post' a l) :
    ReceiverMeets entry cancelling post' program l :=
  Program.Meets.mono h hpost

theorem ReceiverMeets.frame {program : SharedProgram α} {F : Ledger → Prop}
    (h : ReceiverMeets entry cancelling post program l) (hF : ∀ l l', F l → Keeps l l' → F l')
    (hl : F l) : ReceiverMeets entry cancelling (fun a l ↦ post a l ∧ F l) program l :=
  Program.Meets.frame h (fun l l' hl hkeeps ↦ hF l l' hl (hkeeps.elim (·.1) (·.keeps))) hl

theorem receiverMeets_look {o : SharedAccess} (h : o.Looks) {post : o.Answer → Ledger → Prop} :
    ReceiverMeets entry cancelling post (Program.perform o) l ↔
      ∀ l', ReceiverRelies entry l l' → post (l'.exec o).1 l' := by
  refine forall₂_congr fun l' _ ↦ ?_
  rw [Ledger.exec_of_looks h]
  exact and_iff_right (.refl l')

/-- A receiver ends its subscription, for the loss of its channel or to cancel it. -/
theorem receiverMeets_invalidate {reason : UpdateSubscriptionEnd}
    (hwhy : cancelling = true ∧ reason = .cancelled ∨
      entry.channelId ∈ l.shared.lost ∧ reason = .channelLost) :
    ReceiverMeets entry cancelling (fun _ l' ↦ l'.word entry.subscriptionId ≠ active ∧
      ReceiverRelies entry l l') (invalidate entry.subscriptionId reason) l := by
  intro l' hl'
  have hkeeps : Keeps l' (l'.exec (.invalidate entry.subscriptionId reason)).2 := keeps_exec trivial
  refine ⟨⟨hkeeps, rfl, fun _ _ ↦ rfl, List.prefix_refl _, fun id hclosed ↦ .inl ?_,
    fun id hactive hended ↦ ?_⟩, ?_, hl'.1.trans hkeeps, hl'.2⟩
  · by_cases hid : id = entry.subscriptionId
    · subst hid
      simpa [Ledger.exec, Shared.exec, Shared.setCell] using hclosed
    · simpa [Ledger.exec, Shared.exec, Shared.setCell, hid] using hclosed
  · by_cases hid : id = entry.subscriptionId
    · subst hid
      have hword : (l'.exec (.invalidate entry.subscriptionId reason)).2.word entry.subscriptionId =
          encodeEnd reason := by
        simp only [Ledger.word] at hactive
        simp [Ledger.word, Ledger.exec, Shared.exec, Shared.setCell, SubscriptionCell.invalidate,
          hactive]
      refine ⟨rfl, ?_⟩
      rcases hwhy with ⟨hcancelling, rfl⟩ | ⟨hlost, rfl⟩
      · exact .inl ⟨hcancelling, hword⟩
      · exact .inr ⟨hl'.1.follows.lost _ hlost, hword⟩
    · refine absurd ?_ hended
      rw [← hactive]
      simp [Ledger.word, Ledger.exec, Shared.exec, Shared.setCell, hid]
  · simp only [Ledger.word, Ledger.exec, Shared.exec, Shared.setCell, Function.update_self]
    exact SubscriptionCell.state_invalidate_ne _ reason

/-- `ended` returns the reason in the state word. -/
theorem receiverMeets_ended :
    ReceiverMeets entry cancelling (fun reason l' ↦
      reason = decodeEnd (l'.word entry.subscriptionId) ∧ ReceiverRelies entry l l')
      (endedProgram entry) l := by
  rw [endedProgram, receiverMeets_bind]
  refine (receiverMeets_look (o := .upgrade entry.channelId) trivial).mpr fun l₁ h₁ ↦ ?_
  split
  · rename_i hlost
    rw [receiverMeets_bind]
    have hlost : entry.channelId ∈ l₁.shared.lost := by
      simpa [Ledger.exec, Shared.exec] using hlost
    refine (receiverMeets_invalidate (.inr ⟨hlost, rfl⟩)).mono fun _ l₂ h ↦ ?_
    obtain ⟨_, h₂⟩ := h
    refine receiverMeets_bind.mpr ((receiverMeets_look (o := .load entry.subscriptionId)
      trivial).mpr fun l₃ h₃ ↦ ?_)
    exact ⟨rfl, (h₁.trans h₂).trans h₃⟩
  · refine receiverMeets_bind.mpr ((receiverMeets_look (o := .load entry.subscriptionId)
      trivial).mpr fun l₂ h₂ ↦ ?_)
    exact ⟨rfl, h₁.trans h₂⟩

/-- A poll returns what has been received after `before`, unless the subscription has ended, and the
reason in the state word if it returns a reason. -/
structure Reports (entry : SubscriptionEntry) (before : List UpdateId)
    (poll : UpdateSubscriptionPoll) (l : Ledger) : Prop where
  handed : before ++ poll.updates <+: l.received entry.subscriptionId
  reason : ∀ reason, poll = .invalidated reason →
    decodeEnd (l.word entry.subscriptionId) = some reason
  received : l.word entry.subscriptionId = active →
    l.received entry.subscriptionId = before ++ poll.updates

theorem reports_invalidated {before : List UpdateId} {reason : UpdateSubscriptionEnd}
    (hbefore : before <+: l.received entry.subscriptionId)
    (hsome : decodeEnd (l.word entry.subscriptionId) = some reason) :
    Reports entry before (.invalidated reason) l := by
  refine ⟨?_, fun reason' h ↦ ?_, fun hactive ↦ ?_⟩
  · exact (List.append_nil before).symm ▸ hbefore
  · rw [hsome, UpdateSubscriptionPoll.invalidated.inj h]
  · rw [hactive] at hsome
    exact absurd hsome (by simp)

/-- What has ended is reported with the reason in the state word. -/
theorem reports_ended {before : List UpdateId} {default : UpdateSubscriptionEnd}
    (hbefore : before <+: l.received entry.subscriptionId)
    (hended : l.word entry.subscriptionId ≠ active) :
    ReceiverMeets entry cancelling (Reports entry before)
      (do return .invalidated ((← endedProgram entry).getD default)) l := by
  refine receiverMeets_bind.mpr (receiverMeets_ended.mono fun reason l' h ↦ ?_)
  obtain ⟨hreason, hl'⟩ := h
  have hended' := hl'.1.ended hended
  obtain ⟨reason', hsome⟩ := Option.ne_none_iff_exists'.mp (mt decodeEnd_eq_none_iff.mp hended')
  subst hreason
  rw [hsome, Option.getD_some]
  exact reports_invalidated (hl'.2 ▸ hbefore) hsome

/-- A receiver receives from its own queue. -/
theorem receiverKeeps_recv :
    ReceiverKeeps entry cancelling l (l.exec (.recv entry.subscriptionId)).2 := by
  obtain ⟨hword, hclosed⟩ := l.recv_cells entry.subscriptionId
  exact ⟨keeps_exec trivial, l.queued_recv _, fun _ hid ↦ l.received_recv hid, l.prefix_recv _,
    fun id h ↦ .inl ((hclosed id).symm.trans h),
    fun id hactive hended ↦ absurd ((hword id).trans hactive) hended⟩

/-- What a receiver finds in its queue: an update that has been received then, or nothing; it finds
the other end gone only when the subscription has ended. -/
theorem recv_spec (hsound : l.Sound) (id : ℕ) :
    match (l.exec (.recv id)).1 with
    | .update u => (l.exec (.recv id)).2.received id = l.received id ++ [u]
    | .empty => (l.exec (.recv id)).2 = l ∧ (l.shared.cells id).closed = false ∧
        id ∉ l.shared.dropped
    | .disconnected => l.word id ≠ active ∧ (l.exec (.recv id)).2 = l := by
  simp only [Ledger.exec, Shared.exec]
  cases hqueue : (l.shared.cells id).queue with
  | cons u queue => simp [Ledger.note]
  | nil =>
    by_cases hgone : ((l.shared.cells id).closed || l.shared.dropped.contains id) = true
    · simp only [hgone, if_true]
      refine ⟨?_, rfl⟩
      simp only [Bool.or_eq_true, List.contains_eq_mem, decide_eq_true_eq] at hgone
      exact hgone.elim (hsound.sane id) (hsound.dropped id)
    · simp only [hgone]
      simp only [Bool.or_eq_true, List.contains_eq_mem, decide_eq_true_eq, not_or,
        Bool.not_eq_true] at hgone
      exact ⟨rfl, hgone⟩

/-- **What one poll of `next` returns.** -/
theorem reports_select {before : List UpdateId} (hsound : l.Sound)
    (hbefore : before <+: l.received entry.subscriptionId)
    (hreceived : l.word entry.subscriptionId = active →
      l.received entry.subscriptionId = before) :
    ReceiverMeets entry cancelling (Reports entry before) (selectProgram entry) l := by
  rw [selectProgram, receiverMeets_bind]
  refine (receiverMeets_look (o := .changed entry.channelId) trivial).mpr fun l₁ h₁ ↦ ?_
  split
  · rename_i hlost
    have hlost : entry.channelId ∈ l₁.shared.lost := by
      simpa [Ledger.exec, Shared.exec] using hlost
    rw [receiverMeets_bind]
    refine (receiverMeets_invalidate (.inr ⟨hlost, rfl⟩)).mono fun _ l₂ h₂ ↦ ?_
    exact reports_ended ((h₁.trans h₂.2).2 ▸ hbefore) h₂.1
  rw [receiverMeets_bind]
  intro l₂ h₂
  have h₀₂ := h₁.trans h₂
  refine ⟨receiverKeeps_recv, ?_⟩
  have hkeeps : Keeps l (l₂.exec (.recv entry.subscriptionId)).2 := h₀₂.1.trans (keeps_exec trivial)
  have hrecv := recv_spec (h₀₂.1.sound hsound) entry.subscriptionId
  have hbefore' :
      before <+: (l₂.exec (.recv entry.subscriptionId)).2.received entry.subscriptionId :=
    (h₀₂.2 ▸ hbefore).trans (l₂.prefix_recv _)
  cases hanswer : (l₂.exec (.recv entry.subscriptionId)).1 with
  | empty =>
    rw [hanswer] at hrecv
    refine ⟨(List.append_nil before).symm ▸ hbefore', fun _ h ↦ absurd h (by simp),
      fun hactive ↦ ?_⟩
    rw [hrecv.1] at hactive ⊢
    rw [h₀₂.2, hreceived (h₀₂.1.follows.active_of_active hactive)]
    exact (List.append_nil _).symm
  | disconnected =>
    rw [hanswer] at hrecv
    exact reports_ended hbefore' (hrecv.2.symm ▸ hrecv.1)
  | update u =>
    rw [hanswer] at hrecv
    refine receiverMeets_bind.mpr (receiverMeets_ended.mono fun reason l₃ h ↦ ?_)
    obtain ⟨hreason, h₃⟩ := h
    subst hreason
    split
    · rename_i hnone
      have hactive := decodeEnd_eq_none_iff.mp hnone
      have heq : l₃.received entry.subscriptionId = before ++ [u] := by
        rw [h₃.2, hrecv, h₀₂.2, hreceived ((hkeeps.trans h₃.1).follows.active_of_active hactive)]
      exact ⟨heq ▸ List.prefix_refl _, fun _ h ↦ absurd h (by simp), fun _ ↦ heq⟩
    · rename_i reason hsome
      exact reports_invalidated (h₃.2 ▸ hbefore') hsome

/-- **What `next` returns.** -/
theorem reports_next {before : List UpdateId} (hsound : l.Sound)
    (hbefore : before <+: l.received entry.subscriptionId)
    (hreceived : l.word entry.subscriptionId = active →
      l.received entry.subscriptionId = before) :
    ReceiverMeets entry cancelling (Reports entry before) (nextProgram entry) l := by
  rw [nextProgram, receiverMeets_bind]
  refine receiverMeets_ended.mono fun reason l₁ h ↦ ?_
  obtain ⟨hreason, h₁⟩ := h
  subst hreason
  split
  · rename_i reason hsome
    exact reports_invalidated (h₁.2 ▸ hbefore) hsome
  · refine reports_select (h₁.1.sound hsound) (h₁.2 ▸ hbefore) fun hactive ↦ ?_
    rw [h₁.2, hreceived (h₁.1.follows.active_of_active hactive)]

/-- The users of a subscription can see that it has ended. -/
def Apparent (entry : SubscriptionEntry) (l : Ledger) : Prop :=
  l.word entry.subscriptionId ≠ active ∧ ((l.shared.cells entry.subscriptionId).closed = true ∨
    entry.subscriptionId ∈ l.shared.dropped ∨ entry.channelId ∈ l.shared.lost)

theorem Apparent.of_keeps (l l' : Ledger) (h : Apparent entry l) (hkeeps : Keeps l l') :
    Apparent entry l' :=
  ⟨hkeeps.ended h.1, h.2.imp (hkeeps.closed _) (Or.imp (hkeeps.dropped _) (hkeeps.follows.lost _))⟩

/-- **What has ended, and apparently so, is reported at the next poll.** -/
theorem invalidated_select (hsound : l.Sound) (hended : Apparent entry l) :
    ReceiverMeets entry cancelling (fun poll _ ↦ ∃ reason, poll = .invalidated reason)
      (selectProgram entry) l := by
  rw [selectProgram, receiverMeets_bind]
  refine (receiverMeets_look (o := .changed entry.channelId) trivial).mpr fun l₁ h₁ ↦ ?_
  have hended₁ := hended.of_keeps _ _ h₁.1
  split
  · rename_i hlost
    have hlost : entry.channelId ∈ l₁.shared.lost := by
      simpa [Ledger.exec, Shared.exec] using hlost
    rw [receiverMeets_bind]
    refine (receiverMeets_invalidate (.inr ⟨hlost, rfl⟩)).mono fun _ l₂ _ ↦ ?_
    exact receiverMeets_bind.mpr (receiverMeets_ended.mono fun _ _ _ ↦ ⟨_, rfl⟩)
  rename_i hnot
  rw [receiverMeets_bind]
  intro l₂ h₂
  have hended₂ := hended₁.of_keeps _ _ h₂.1
  refine ⟨receiverKeeps_recv, ?_⟩
  have hkeeps : Keeps l₂ (l₂.exec (.recv entry.subscriptionId)).2 := keeps_exec trivial
  have hrecv := recv_spec ((h₁.trans h₂).1.sound hsound) entry.subscriptionId
  cases hanswer : (l₂.exec (.recv entry.subscriptionId)).1 with
  | empty =>
    rw [hanswer] at hrecv
    rcases hended₁.2 with hclosed | hdropped | hlost
    · exact absurd (h₂.1.closed _ hclosed) (by simp [hrecv.2.1])
    · exact absurd (h₂.1.dropped _ hdropped) hrecv.2.2
    · exact absurd (by simpa [Ledger.exec, Shared.exec] using hlost) hnot
  | disconnected => exact receiverMeets_bind.mpr (receiverMeets_ended.mono fun _ _ _ ↦ ⟨_, rfl⟩)
  | update u =>
    refine receiverMeets_bind.mpr (receiverMeets_ended.mono fun reason l₃ h ↦ ?_)
    obtain ⟨hreason, h₃⟩ := h
    subst hreason
    split
    · rename_i hnone
      exact absurd (decodeEnd_eq_none_iff.mp hnone)
        (h₃.1.ended (hkeeps.ended hended₂.1))
    · exact ⟨_, rfl⟩

/-- **`next` reports what has ended**, apparently so or not. -/
theorem invalidated_next (hended : l.word entry.subscriptionId ≠ active) :
    ReceiverMeets entry cancelling (fun poll _ ↦ ∃ reason, poll = .invalidated reason)
      (nextProgram entry) l := by
  rw [nextProgram, receiverMeets_bind]
  refine receiverMeets_ended.mono fun reason l₁ h ↦ ?_
  obtain ⟨hreason, h₁⟩ := h
  split
  · exact ⟨_, rfl⟩
  · exact absurd (decodeEnd_eq_none_iff.mp hreason.symm) (h₁.1.ended hended)

/-- `cancel` ends the subscription and closes its receiver. -/
theorem receiverMeets_cancel : ReceiverMeets entry true (fun _ l' ↦
    l'.word entry.subscriptionId ≠ active ∧
      (l'.shared.cells entry.subscriptionId).closed = true) (cancelProgram entry) l := by
  rw [cancelProgram, receiverMeets_bind]
  refine (receiverMeets_invalidate (.inl ⟨rfl, rfl⟩)).mono fun _ l₁ h l₂ h₂ ↦ ?_
  obtain ⟨hended, _⟩ := h
  have hended₂ := h₂.1.ended hended
  have hkeeps : Keeps l₂ (l₂.exec (.close entry.subscriptionId)).2 := keeps_exec hended₂
  refine ⟨⟨hkeeps, rfl, fun _ _ ↦ rfl, List.prefix_refl _, fun id hclosed ↦ ?_,
    fun id hactive hword ↦ ?_⟩, hkeeps.ended hended₂, ?_⟩
  · by_cases hid : id = entry.subscriptionId
    · exact .inr ⟨rfl, hid⟩
    · exact .inl (by simpa [Ledger.exec, Shared.exec, Shared.setCell, hid] using hclosed)
  · refine absurd ?_ hword
    by_cases hid : id = entry.subscriptionId
    · exact absurd (hid ▸ hactive) hended₂
    · rw [← hactive]
      simp [Ledger.word, Ledger.exec, Shared.exec, Shared.setCell, hid]
  · simp [Ledger.exec, Shared.exec, Shared.setCell]

end Renee
