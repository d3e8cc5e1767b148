import Renee.Subscription.Registry

/-!
# What happens to a subscription

A subscription is *live* while the registry has its entry and its state word is `ACTIVE`.

* `retain` looks at every entry once: the numbers of the entries are distinct
  (`UpdateSubscriptionRegistry.WellFormed`), so the closure meets each shared half as it was before
  the call (`mem_retain`, `cells_retain_of_mem`, `cells_retain_of_ne`).
* No operation makes a subscription live again.  For each there is a lemma that says which live
  subscriptions it leaves: `live_prune`, `live_notify_iff`, `live_invalidateWhere_iff`,
  `live_closeChannel_iff`, `live_next`, `live_cancel`, and `live_register` for the one that adds
  one.
-/

set_option autoImplicit false

namespace Renee

open ByteString

/-! ## One pass over the entries -/

section Retain

variable {closure : SubscriptionEntry → SubscriptionCell → Bool × SubscriptionCell}
  {entries : List SubscriptionEntry}

/-- A shared half that no entry has is left alone. -/
theorem retain_cells_of_ne (cells : ℕ → SubscriptionCell) {id : ℕ}
    (h : ∀ entry ∈ entries, entry.subscriptionId ≠ id) :
    (retain closure entries cells).2 id = cells id := by
  induction entries generalizing cells with
  | nil => rfl
  | cons entry entries ih =>
    simp only [retain]
    rw [ih _ fun other ho ↦ h other (List.mem_cons_of_mem _ ho)]
    exact Function.update_of_ne (h entry (List.mem_cons_self ..)).symm _ _

/-- With distinct numbers, the closure sees every shared half as it was. -/
theorem retain_spec (cells : ℕ → SubscriptionCell)
    (h : (entries.map SubscriptionEntry.subscriptionId).Nodup) :
    (retain closure entries cells).1 =
        entries.filter (fun entry ↦ (closure entry (cells entry.subscriptionId)).1) ∧
      ∀ entry ∈ entries, (retain closure entries cells).2 entry.subscriptionId =
        (closure entry (cells entry.subscriptionId)).2 := by
  induction entries generalizing cells with
  | nil => exact ⟨rfl, fun entry he ↦ absurd he (by simp)⟩
  | cons entry entries ih =>
    rw [List.map_cons, List.nodup_cons] at h
    have hne : ∀ other ∈ entries, other.subscriptionId ≠ entry.subscriptionId :=
      fun other ho heq ↦ h.1 (heq ▸ List.mem_map_of_mem ho)
    have hsame : ∀ other ∈ entries, ∀ cell,
        Function.update cells entry.subscriptionId cell other.subscriptionId =
          cells other.subscriptionId :=
      fun other ho cell ↦ Function.update_of_ne (hne other ho) _ _
    obtain ⟨hkept, hcells⟩ := ih (Function.update cells entry.subscriptionId
      (closure entry (cells entry.subscriptionId)).2) h.2
    simp only [retain]
    constructor
    · rw [hkept, List.filter_cons]
      refine if_congr Iff.rfl (congrArg _ ?_) ?_ <;>
        exact List.filter_congr fun other ho ↦ by rw [hsame other ho]
    · intro other ho
      rcases List.mem_cons.mp ho with rfl | ho
      · rw [retain_cells_of_ne _ hne]
        exact Function.update_self ..
      · rw [hcells other ho, hsame other ho]

end Retain

namespace UpdateSubscriptionRegistry

variable {registry : UpdateSubscriptionRegistry} {entry : SubscriptionEntry}
  {closure : SubscriptionEntry → SubscriptionCell → Bool × SubscriptionCell}

/-- The numbers of the entries are distinct and have been issued. -/
structure WellFormed (registry : UpdateSubscriptionRegistry) : Prop where
  nodup : (registry.subscriptions.map SubscriptionEntry.subscriptionId).Nodup
  issued : ∀ entry ∈ registry.subscriptions, entry.subscriptionId < registry.nextSubscriptionId

/-- The registry feeds the subscription of an entry. -/
structure Live (registry : UpdateSubscriptionRegistry) (entry : SubscriptionEntry) : Prop where
  mem : entry ∈ registry.subscriptions
  active : (registry.cells entry.subscriptionId).state = active

theorem wellFormed_new (broker : ℕ) : (new broker).WellFormed :=
  ⟨List.nodup_nil, fun _ h ↦ absurd h (by simp [new])⟩

@[simp] theorem broker_retain : (registry.retain closure).broker = registry.broker := rfl

@[simp] theorem openChannels_retain :
    (registry.retain closure).openChannels = registry.openChannels := rfl

@[simp] theorem nextSubscriptionId_retain :
    (registry.retain closure).nextSubscriptionId = registry.nextSubscriptionId := rfl

theorem mem_retain (hw : registry.WellFormed) :
    entry ∈ (registry.retain closure).subscriptions ↔ entry ∈ registry.subscriptions ∧
      (closure entry (registry.cells entry.subscriptionId)).1 = true := by
  rw [retain]
  simp only [(retain_spec registry.cells hw.nodup).1, List.mem_filter]

theorem cells_retain_of_mem (hw : registry.WellFormed) (he : entry ∈ registry.subscriptions) :
    (registry.retain closure).cells entry.subscriptionId =
      (closure entry (registry.cells entry.subscriptionId)).2 :=
  (retain_spec registry.cells hw.nodup).2 entry he

theorem cells_retain_of_ne {id : ℕ} (h : ∀ entry ∈ registry.subscriptions,
    entry.subscriptionId ≠ id) : (registry.retain closure).cells id = registry.cells id :=
  retain_cells_of_ne registry.cells h

/-- The entry of a number is unique. -/
theorem WellFormed.eq_of_subscriptionId (hw : registry.WellFormed) {other : SubscriptionEntry}
    (he : entry ∈ registry.subscriptions) (ho : other ∈ registry.subscriptions)
    (h : entry.subscriptionId = other.subscriptionId) : entry = other :=
  List.inj_on_of_nodup_map hw.nodup he ho h

theorem WellFormed.retain (hw : registry.WellFormed) : (registry.retain closure).WellFormed where
  nodup := by
    have hsub : ((Renee.retain closure registry.subscriptions registry.cells).1.map
        SubscriptionEntry.subscriptionId).Sublist
          (registry.subscriptions.map SubscriptionEntry.subscriptionId) := by
      rw [(retain_spec registry.cells hw.nodup).1]
      exact List.filter_sublist.map _
    exact hw.nodup.sublist hsub
  issued := fun entry he ↦ hw.issued entry ((mem_retain hw).mp he).1

/-- A closure that keeps an entry only with its state word leaves the live subscriptions it
keeps. -/
theorem live_retain_iff (hw : registry.WellFormed)
    (hstate : ∀ cell, (closure entry cell).1 = true → (closure entry cell).2.state = cell.state) :
    (registry.retain closure).Live entry ↔ registry.Live entry ∧
      (closure entry (registry.cells entry.subscriptionId)).1 = true := by
  constructor
  · rintro ⟨hmem, hactive⟩
    obtain ⟨hold, hkept⟩ := (mem_retain hw).mp hmem
    rw [cells_retain_of_mem hw hold, hstate _ hkept] at hactive
    exact ⟨⟨hold, hactive⟩, hkept⟩
  · rintro ⟨⟨hold, hactive⟩, hkept⟩
    refine ⟨(mem_retain hw).mpr ⟨hold, hkept⟩, ?_⟩
    rw [cells_retain_of_mem hw hold, hstate _ hkept]
    exact hactive

/-! ## The operations -/

theorem alive_iff {channelId : ℕ} : registry.alive channelId = true ↔
    channelId ∈ registry.openChannels := by
  rw [alive, List.contains_iff_mem]

theorem recognizes_iff {channel : BrokerChannel} :
    registry.recognizes channel = true ↔ registry.broker = channel.broker := by
  rw [recognizes, decide_eq_true_eq]

theorem pruneEntry_kept {cell : SubscriptionCell}
    (h : (registry.pruneEntry entry cell).1 = true) :
    cell.state = Renee.active ∧ registry.alive entry.channelId = true ∧ cell.closed = false ∧
      (registry.pruneEntry entry cell).2 = cell := by
  rw [pruneEntry] at h ⊢
  split at h
  · exact absurd h (by simp)
  rename_i hactive
  split at h
  · exact absurd h (by simp)
  rename_i halive
  rw [if_neg hactive, if_neg halive]
  rw [not_not] at hactive
  exact ⟨hactive, by simpa using halive, by simpa using h, rfl⟩

theorem live_prune (hw : registry.WellFormed) (h : registry.prune.Live entry) :
    registry.Live entry :=
  ((live_retain_iff hw fun _ hkept ↦ by rw [(pruneEntry_kept hkept).2.2.2]).mp h).1

/-- An entry that a notification keeps is of another document, or has taken it. -/
theorem notifyEntry_kept {d : DocumentId} {u : UpdateId} {cell : SubscriptionCell}
    (h : (registry.notifyEntry d u entry cell).1 = true) :
    cell.state = Renee.active ∧ registry.alive entry.channelId = true ∧
      ((entry.documentId ≠ d ∧ (registry.notifyEntry d u entry cell).2 = cell) ∨
        (entry.documentId = d ∧ cell.closed = false ∧
          cell.queue.length < updateNotificationQueueCapacity ∧
          (registry.notifyEntry d u entry cell).2 = { cell with queue := cell.queue ++ [u] })) := by
  rw [notifyEntry] at h ⊢
  split at h
  · exact absurd h (by simp)
  rename_i hactive
  rw [if_neg hactive]
  rw [not_not] at hactive
  split at h
  · exact absurd h (by simp)
  rename_i halive
  rw [if_neg halive]
  refine ⟨hactive, by simpa using halive, ?_⟩
  split at h
  · rename_i hother
    rw [if_pos hother]
    exact Or.inl ⟨hother, rfl⟩
  rename_i hdocument
  rw [if_neg hdocument]
  rw [not_not] at hdocument
  split at h
  · exact absurd h (by simp)
  rename_i hopen
  rw [if_neg hopen]
  split at h
  · exact absurd h (by simp)
  rename_i hroom
  rw [if_neg hroom]
  exact Or.inr ⟨hdocument, by simpa using hopen, by omega, rfl⟩

/-- What a notification leaves live was live. -/
theorem live_notify {d : DocumentId} {u : UpdateId} (hw : registry.WellFormed)
    (h : (registry.notify d u).Live entry) : registry.Live entry := by
  refine ((live_retain_iff hw fun cell hkept ↦ ?_).mp h).1
  rcases (notifyEntry_kept hkept).2.2 with ⟨-, heq⟩ | ⟨-, -, -, heq⟩ <;> rw [heq]

/-- **An invalidation ends the subscriptions it picks out and no other.** -/
theorem live_invalidateWhere_iff {p : SubscriptionEntry → Bool} {reason : UpdateSubscriptionEnd}
    (hw : registry.WellFormed) :
    (registry.invalidateWhere p reason).Live entry ↔ registry.Live entry ∧ p entry = false := by
  rw [invalidateWhere, live_retain_iff hw]
  · cases p entry <;> simp
  · intro cell hkept
    cases hp : p entry <;> simp_all

/-- The shared halves of the subscriptions that are not picked out stay as they are. -/
theorem cells_invalidateWhere (hw : registry.WellFormed) (p : SubscriptionEntry → Bool)
    (reason : UpdateSubscriptionEnd) (he : entry ∈ registry.subscriptions) :
    (registry.invalidateWhere p reason).cells entry.subscriptionId =
      if p entry then (registry.cells entry.subscriptionId).invalidate reason
      else registry.cells entry.subscriptionId := by
  rw [invalidateWhere, cells_retain_of_mem hw he]
  split <;> rfl

/-- Closing a channel ends the live subscriptions on it. -/
theorem live_closeChannel {channel : BrokerChannel} (hw : registry.WellFormed)
    (h : (registry.closeChannel channel).Live entry) : registry.Live entry ∧
      (registry.recognizes channel = true → registry.alive entry.channelId = true →
        entry.channelId ≠ channel.id) := by
  rw [closeChannel] at h
  split at h
  · rename_i hother
    rw [Bool.not_eq_true'] at hother
    exact ⟨h, fun hr ↦ absurd (hother.symm.trans hr) (by simp)⟩
  · have hbefore : (registry.invalidateWhere (fun entry ↦ registry.alive entry.channelId &&
        decide (entry.channelId = channel.id)) .channelLost).Live entry := ⟨h.mem, h.active⟩
    obtain ⟨hlive, hp⟩ := (live_invalidateWhere_iff hw).mp hbefore
    refine ⟨hlive, fun _ halive heq ↦ ?_⟩
    rw [halive, Bool.true_and, decide_eq_false_iff_not] at hp
    exact hp heq

/-- Looking at a shared half, or cancelling, makes nothing live. -/
theorem live_setCell {id : ℕ} {cell : SubscriptionCell}
    (hstate : cell.state = Renee.active → (registry.cells id).state = Renee.active)
    (h : (registry.setCell id cell).Live entry) : registry.Live entry := by
  refine ⟨h.mem, ?_⟩
  have hactive := h.active
  by_cases heq : entry.subscriptionId = id
  · rw [heq] at hactive ⊢
    rw [setCell] at hactive
    exact hstate (by simpa using hactive)
  · rw [setCell] at hactive
    simpa [Function.update_of_ne heq] using hactive

theorem state_ended {channelId : ℕ} {cell : SubscriptionCell}
    (h : (registry.ended channelId cell).2.state = Renee.active) : cell.state = Renee.active := by
  rw [ended] at h
  split at h
  · exact h
  · exact absurd h (cell.state_invalidate_ne _)

theorem live_next {channelId id : ℕ} (h : (registry.next channelId id).2.Live entry) :
    registry.Live entry := by
  rw [next] at h
  split at h
  · rename_i reason cell hended
    exact live_setCell (fun hs ↦ state_ended (by rw [hended]; exact hs)) h
  · rename_i cell hended
    have hstate : cell.state = Renee.active → (registry.cells id).state = Renee.active :=
      fun hs ↦ state_ended (by rw [hended]; exact hs)
    split at h
    · exact live_setCell (by exact hstate) h
    · split at h <;> exact live_setCell hstate h

theorem live_cancel {id : ℕ} (h : (registry.cancel id).Live entry) : registry.Live entry := by
  rw [cancel] at h
  refine live_setCell (fun hs ↦ ?_) h
  exact absurd hs ((registry.cells id).state_invalidate_ne .cancelled)

/-- **A registration adds one subscription and makes no other live.** -/
theorem live_register {channel : BrokerChannel} {d : DocumentId} {c : CapabilityId}
    (hw : registry.WellFormed) (h : (registry.register channel d c).2.Live entry) :
    registry.Live entry ∨ (registry.recognizes channel = true ∧
      entry.channelId = channel.id ∧ entry.documentId = d ∧ entry.capabilityId = c) := by
  rw [register] at h
  split at h
  · exact Or.inl h
  rename_i hr
  rw [Bool.not_eq_true', Bool.not_eq_false] at hr
  simp only at h
  split at h
  · exact Or.inl (live_prune hw h)
  split at h
  · exact Or.inl (live_prune hw h)
  rcases List.mem_append.mp h.mem with hold | hnew
  · refine Or.inl (live_prune hw ⟨hold, ?_⟩)
    have hpruned : registry.prune.WellFormed := hw.retain
    have hlt := hpruned.issued entry hold
    have hactive : (Function.update registry.prune.cells registry.prune.nextSubscriptionId .new
        entry.subscriptionId).state = Renee.active := h.active
    rwa [Function.update_of_ne (Nat.ne_of_lt hlt)] at hactive
  · rw [List.mem_singleton.mp hnew]
    exact Or.inr ⟨hr, rfl, rfl, rfl⟩

/-- A registration changes neither the broker nor the channels. -/
theorem broker_register (registry : UpdateSubscriptionRegistry) (channel : BrokerChannel)
    (d : DocumentId) (c : CapabilityId) :
    (registry.register channel d c).2.broker = registry.broker := by
  rw [register]
  split
  · rfl
  simp only
  split
  · rfl
  split <;> rfl

theorem openChannels_register (registry : UpdateSubscriptionRegistry) (channel : BrokerChannel)
    (d : DocumentId) (c : CapabilityId) :
    (registry.register channel d c).2.openChannels = registry.openChannels := by
  rw [register]
  split
  · rfl
  simp only
  split
  · rfl
  split <;> rfl

/-! ## The invariant -/

theorem WellFormed.register (hw : registry.WellFormed) (channel : BrokerChannel) (d : DocumentId)
    (c : CapabilityId) : (registry.register channel d c).2.WellFormed := by
  rw [UpdateSubscriptionRegistry.register]
  split
  · exact hw
  have hpruned : registry.prune.WellFormed := hw.retain
  simp only
  split
  · exact hpruned
  split
  · exact hpruned
  rename_i next hnext
  obtain rfl : registry.prune.nextSubscriptionId + 1 = next := by
    rw [checkedAdd] at hnext
    split at hnext
    · exact Option.some_inj.mp hnext
    · exact absurd hnext (by simp)
  constructor
  · rw [List.map_append, List.nodup_append']
    refine ⟨hpruned.nodup, List.nodup_singleton _, ?_⟩
    rw [List.map_singleton, List.disjoint_singleton]
    intro hmem
    obtain ⟨entry, he, heq⟩ := List.mem_map.mp hmem
    exact absurd (hpruned.issued entry he) (by rw [heq]; exact Nat.lt_irrefl _)
  · intro entry he
    rcases List.mem_append.mp he with hold | hnew
    · exact Nat.lt_succ_of_lt (hpruned.issued entry hold)
    · rw [List.mem_singleton.mp hnew]
      exact Nat.lt_succ_self _

end UpdateSubscriptionRegistry

end Renee
