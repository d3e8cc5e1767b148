import Renee.Store.PassSpec
import Renee.Subscription.RegistrySpec

/-!
# What a request ends

A pass and a live subscription are held by a channel under a capability of a document.  `spares`
says which of these a request leaves alone, and it is the same for all three kinds: a committed
revocation ends what is held under the subtree of its target, a published retirement what is held on
its document, the closing of a channel what it holds, and reopening the store everything.

* `enumerationPasses_step` and `vectorPasses_step`: a request that is not a pagination request of
  the list keeps exactly the passes it spares, as they are.
* `enumerate_step` and `vectorBackfill_step`: a pagination request is refused, or acts on the passes
  that have not expired as `EnumerationEffect` and `VectorEffect` say.
* `live_step`: a live subscription was live and has been spared, or is new and authorized.
-/

set_option autoImplicit false

namespace Renee

open ByteString Relational Ancestry TokenRegistry

namespace DurableUpdateStore

variable {sha256 : List UInt8 → Bytes verifierLength} {s : DurableUpdateStore}

/-! ## Sparing -/

/-- Whether a request leaves alone what a channel holds under a capability of a document. -/
def spares (sha256 : List UInt8 → Bytes verifierLength) (s : DurableUpdateStore)
    (request : Request) (channelId : ℕ) (d : DocumentId) (c : CapabilityId) : Bool :=
  match request with
  | .revoke r => decide ((s.revokeCapability sha256 r).1 ≠ .ok .inserted) ||
      decide (d ≠ r.documentId) || !isDescendantOrSelf s.tables r.documentId r.targetCapabilityId c
  | .publishRetirement d' => !(s.tables.document? d').any DocumentRow.retired || decide (d ≠ d')
  | .closeChannel channel => !s.subscriptions.recognizes channel || decide (channelId ≠ channel.id)
  | .reopen _ _ _ => false
  | _ => true

/-- A pass of the document lies in the subtree when its capability does. -/
theorem mem_revokedPassCapabilities {r : RevokeCommand} {c : CapabilityId}
    (h : (∃ pass ∈ s.enumerationPasses, pass.documentId = r.documentId ∧ pass.capabilityId = c) ∨
      ∃ pass ∈ s.vectorPasses, pass.documentId = r.documentId ∧ pass.capabilityId = c) :
    c ∈ s.revokedPassCapabilities r ↔
      isDescendantOrSelf s.tables r.documentId r.targetCapabilityId c = true := by
  rw [revokedPassCapabilities, List.mem_filter]
  refine and_iff_right (List.mem_append.mpr ?_)
  refine h.imp ?_ ?_ <;>
  · rintro ⟨pass, hpass, hd, rfl⟩
    exact List.mem_map_of_mem (List.mem_filter.mpr ⟨hpass, decide_eq_true hd⟩)

/-- What a revocation spares of the passes of a list, in the terms of the request. -/
theorem spares_revoke {r : RevokeCommand}
    (hcommit : (s.revokeCapability sha256 r).1 = .ok .inserted)
    (channelId : ℕ) {d : DocumentId} {c : CapabilityId}
    (h : d = r.documentId → (c ∈ s.revokedPassCapabilities r ↔
      isDescendantOrSelf s.tables r.documentId r.targetCapabilityId c = true)) :
    decide (d ≠ r.documentId ∨ c ∉ s.revokedPassCapabilities r) =
      s.spares sha256 (.revoke r) channelId d c := by
  simp only [spares, hcommit, ne_eq, not_true_eq_false, decide_false, Bool.false_or]
  by_cases hd : d = r.documentId
  · simp only [hd, not_true_eq_false, decide_false, Bool.false_or, false_or, h hd]
    simp
  · simp [hd]

/-- A revocation that does not commit spares everything. -/
theorem spares_revoke_of_ne {r : RevokeCommand}
    (hne : (s.revokeCapability sha256 r).1 ≠ .ok .inserted) (channelId : ℕ) (d : DocumentId)
    (c : CapabilityId) : s.spares sha256 (.revoke r) channelId d c = true := by
  simp only [spares, decide_eq_true hne, Bool.true_or]

/-- The result of a revocation is that of the tables. -/
theorem revokeCapability_fst (r : RevokeCommand) : (s.revokeCapability sha256 r).1 =
    (Renee.revokeCapability sha256 s.tables r).1 := by
  simp only [revokeCapability]
  split <;> rfl

theorem filter_spared {π : Type} (passes : List π) : passes = passes.filter fun _ ↦ true :=
  (List.filter_true passes).symm

/-- What a revocation does to the passes. -/
theorem passes_revoke (sha256 : List UInt8 → Bytes verifierLength) (s : DurableUpdateStore)
    (r : RevokeCommand) :
    (s.step sha256 (.revoke r)).enumerationPasses = s.enumerationPasses.filter (fun pass ↦
        s.spares sha256 (.revoke r) pass.channelId pass.documentId pass.capabilityId) ∧
      (s.step sha256 (.revoke r)).vectorPasses = s.vectorPasses.filter fun pass ↦
        s.spares sha256 (.revoke r) pass.channelId pass.documentId pass.capabilityId := by
  by_cases hcommit : (s.revokeCapability sha256 r).1 = .ok .inserted
  · have hresult := hcommit
    rw [revokeCapability_fst] at hresult
    simp only [step, execute, revokeCapability, hresult, if_true]
    constructor <;> refine List.filter_congr fun pass hpass ↦ spares_revoke hcommit _ fun hd ↦ ?_
    · exact mem_revokedPassCapabilities (Or.inl ⟨pass, hpass, hd, rfl⟩)
    · exact mem_revokedPassCapabilities (Or.inr ⟨pass, hpass, hd, rfl⟩)
  · simp only [spares_revoke_of_ne hcommit]
    rw [revokeCapability_fst] at hcommit
    simp only [step, execute, revokeCapability, if_neg hcommit]
    exact ⟨filter_spared _, filter_spared _⟩

/-- A request that is no pagination request keeps the passes it spares. -/
theorem passes_step {request : Request} (henumerate : ∀ r m, request ≠ .enumerate r m)
    (hbackfill : ∀ r m, request ≠ .vectorBackfill r m) :
    (s.step sha256 request).enumerationPasses = s.enumerationPasses.filter (fun pass ↦
        s.spares sha256 request pass.channelId pass.documentId pass.capabilityId) ∧
      (s.step sha256 request).vectorPasses = s.vectorPasses.filter fun pass ↦
        s.spares sha256 request pass.channelId pass.documentId pass.capabilityId := by
  cases request with
  | enumerate r m => exact absurd rfl (henumerate r m)
  | vectorBackfill r m => exact absurd rfl (hbackfill r m)
  | revoke r => exact passes_revoke sha256 s r
  | accept r =>
    simp only [step, execute, accept]
    split <;> exact ⟨filter_spared _, filter_spared _⟩
  | subscribe r =>
    simp only [step, execute, subscribeUpdates]
    split
    · exact ⟨filter_spared _, filter_spared _⟩
    split
    · exact ⟨filter_spared _, filter_spared _⟩
    split <;> exact ⟨filter_spared _, filter_spared _⟩
  | closeChannel channel =>
    simp only [step, execute, closeBrokerChannel, spares]
    cases s.subscriptions.recognizes channel
    · exact ⟨filter_spared _, filter_spared _⟩
    · exact ⟨rfl, rfl⟩
  | publishRetirement d =>
    simp only [step, execute, publishCommittedRetirement, spares]
    cases (s.tables.document? d).any DocumentRow.retired
    · exact ⟨filter_spared _, filter_spared _⟩
    · exact ⟨rfl, rfl⟩
  | reopen provision generation broker =>
    exact ⟨(List.filter_false _).symm, (List.filter_false _).symm⟩
  | _ => exact ⟨filter_spared _, filter_spared _⟩

/-! ## Pagination requests -/

/-- **An enumeration request is refused, or acts on the passes that have not expired.** -/
theorem enumerate_step (sha256 : List UInt8 → Bytes verifierLength) (s : DurableUpdateStore)
    (r : EnumerateRequest) (m : Moment enumerationContinuationLength) :
    (∃ result, (∀ response, result ≠ .ok (.authorized response)) ∧ result ≠ .ok .backpressure ∧
      s.execute sha256 (.enumerate r m) = (.enumerated result, s)) ∨
    (s.subscriptions.recognizes r.channel = true ∧
      authorizeDocument sha256 s.tables r.documentId r.capabilityId r.authenticator .read =
        .authorized ∧
      ∃ result passes, s.execute sha256 (.enumerate r m) =
          (.enumerated result, { s with enumerationPasses := passes }) ∧
        EnumerationEffect s.tables s.generation r m
          (s.enumerationPasses.filter fun pass ↦ m.now < pass.expiresAt) result passes) := by
  simp only [execute, enumerateAuthorized]
  split
  · exact Or.inl ⟨_, by simp, by simp, rfl⟩
  rename_i hr
  split
  · exact Or.inl ⟨_, by simp, by simp, rfl⟩
  · exact Or.inl ⟨_, by simp, by simp, rfl⟩
  · rename_i hauth
    exact Or.inr ⟨by simpa using hr, hauth, _, _, rfl, enumeratePasses_effect _ _ _ _ _⟩

/-- **A vector-backfill request is refused, or acts on the passes that have not expired.** -/
theorem vectorBackfill_step (sha256 : List UInt8 → Bytes verifierLength) (s : DurableUpdateStore)
    (r : VectorBackfillRequest) (m : Moment vectorContinuationLength) :
    (∃ result, (∀ response, result ≠ .ok (.authorized response)) ∧ result ≠ .ok .backpressure ∧
      s.execute sha256 (.vectorBackfill r m) = (.backfilled result, s)) ∨
    (s.subscriptions.recognizes r.channel = true ∧
      authorizeDocument sha256 s.tables r.documentId r.capabilityId r.authenticator .read =
        .authorized ∧
      ∃ result passes, s.execute sha256 (.vectorBackfill r m) =
          (.backfilled result, { s with vectorPasses := passes }) ∧
        VectorEffect s.tables r m
          (s.vectorPasses.filter fun pass ↦ m.now < pass.expiresAt) result passes) := by
  simp only [execute, vectorBackfillAuthorized]
  split
  · exact Or.inl ⟨_, by simp, by simp, rfl⟩
  rename_i hr
  split
  · exact Or.inl ⟨_, by simp, by simp, rfl⟩
  · exact Or.inl ⟨_, by simp, by simp, rfl⟩
  · rename_i hauth
    exact Or.inr ⟨by simpa using hr, hauth, _, _, rfl, vectorBackfillPasses_effect _ _ _ _⟩

theorem step_eq {request : Request} {reply : Reply} {s' : DurableUpdateStore}
    (h : s.execute sha256 request = (reply, s')) : s.step sha256 request = s' := by
  rw [step, h]

/-- **Enumeration passes are kept exactly when they are spared**, but by enumeration requests. -/
theorem enumerationPasses_step {request : Request} (h : ∀ r m, request ≠ .enumerate r m) :
    (s.step sha256 request).enumerationPasses = s.enumerationPasses.filter fun pass ↦
      s.spares sha256 request pass.channelId pass.documentId pass.capabilityId := by
  by_cases hbackfill : ∃ r m, request = .vectorBackfill r m
  · obtain ⟨r, m, rfl⟩ := hbackfill
    rcases vectorBackfill_step sha256 s r m with
      ⟨result, -, -, he⟩ | ⟨-, -, result, passes, he, -⟩ <;>
    · rw [step_eq he]
      exact filter_spared _
  · exact (passes_step h fun r m heq ↦ hbackfill ⟨r, m, heq⟩).1

/-- **Vector-backfill passes are kept exactly when they are spared**, but by vector-backfill
requests. -/
theorem vectorPasses_step {request : Request} (h : ∀ r m, request ≠ .vectorBackfill r m) :
    (s.step sha256 request).vectorPasses = s.vectorPasses.filter fun pass ↦
      s.spares sha256 request pass.channelId pass.documentId pass.capabilityId := by
  by_cases henumerate : ∃ r m, request = .enumerate r m
  · obtain ⟨r, m, rfl⟩ := henumerate
    rcases enumerate_step sha256 s r m with ⟨result, -, -, he⟩ | ⟨-, -, result, passes, he, -⟩ <;>
    · rw [step_eq he]
      exact filter_spared _
  · exact (passes_step (fun r m heq ↦ henumerate ⟨r, m, heq⟩) h).2

/-! ## Subscriptions -/

/-- The registry stays in order. -/
theorem registry_step (h : s.subscriptions.WellFormed) (request : Request) :
    (s.step sha256 request).subscriptions.WellFormed := by
  cases request with
  | revoke r =>
    simp only [step, execute, revokeCapability]
    split
    · exact h.retain
    · exact h
  | accept r =>
    simp only [step, execute, accept]
    split
    · exact h.retain
    · exact h
  | enumerate r m =>
    rcases enumerate_step sha256 s r m with ⟨_, -, -, he⟩ | ⟨-, -, _, _, he, -⟩ <;>
    · rw [step_eq he]
      exact h
  | vectorBackfill r m =>
    rcases vectorBackfill_step sha256 s r m with ⟨_, -, -, he⟩ | ⟨-, -, _, _, he, -⟩ <;>
    · rw [step_eq he]
      exact h
  | subscribe r =>
    have hregister := h.register r.channel r.documentId r.capabilityId
    simp only [step, execute, subscribeUpdates]
    split
    · exact h
    split
    · exact h
    split <;> (rename_i heq; rw [heq] at hregister; exact hregister)
  | openChannel =>
    simp only [step, execute, openBrokerChannel, UpdateSubscriptionRegistry.openChannel]
    split
    · exact h
    · exact ⟨h.nodup, h.issued⟩
  | closeChannel channel =>
    simp only [step, execute, closeBrokerChannel]
    split
    · exact h
    · rename_i hr
      simp only [UpdateSubscriptionRegistry.closeChannel, if_neg hr]
      exact ⟨h.retain.nodup, h.retain.issued⟩
  | next channelId id =>
    have hset : ∀ cell, (s.subscriptions.setCell id cell).WellFormed :=
      fun cell ↦ ⟨h.nodup, h.issued⟩
    simp only [step, execute, UpdateSubscriptionRegistry.next]
    split
    · exact hset _
    split
    · exact hset _
    split <;> exact hset _
  | cancel id => exact ⟨h.nodup, h.issued⟩
  | publishRetirement d =>
    simp only [step, execute, publishCommittedRetirement]
    split
    · exact h.retain
    · exact h
  | reopen provision generation broker => exact UpdateSubscriptionRegistry.wellFormed_new broker
  | _ => exact h

/-- The broker and the generation stay until the store is reopened. -/
theorem lifetime_step {request : Request} (h : ∀ p g b, request ≠ .reopen p g b) :
    (s.step sha256 request).subscriptions.broker = s.subscriptions.broker ∧
      (s.step sha256 request).generation = s.generation := by
  cases request with
  | reopen p g b => exact absurd rfl (h p g b)
  | revoke r =>
    simp only [step, execute, revokeCapability]
    split <;> exact ⟨rfl, rfl⟩
  | accept r =>
    simp only [step, execute, accept]
    split <;> exact ⟨rfl, rfl⟩
  | enumerate r m =>
    rcases enumerate_step sha256 s r m with ⟨_, -, -, he⟩ | ⟨-, -, _, _, he, -⟩ <;>
    · rw [step_eq he]
      exact ⟨rfl, rfl⟩
  | vectorBackfill r m =>
    rcases vectorBackfill_step sha256 s r m with ⟨_, -, -, he⟩ | ⟨-, -, _, _, he, -⟩ <;>
    · rw [step_eq he]
      exact ⟨rfl, rfl⟩
  | subscribe r =>
    simp only [step, execute, subscribeUpdates]
    split
    · exact ⟨rfl, rfl⟩
    split
    · exact ⟨rfl, rfl⟩
    have hbroker :=
      UpdateSubscriptionRegistry.broker_register s.subscriptions r.channel r.documentId
      r.capabilityId
    split <;> (rename_i heq; rw [heq] at hbroker; exact ⟨hbroker, rfl⟩)
  | openChannel =>
    simp only [step, execute, openBrokerChannel, UpdateSubscriptionRegistry.openChannel]
    split <;> exact ⟨rfl, trivial⟩
  | closeChannel channel =>
    simp only [step, execute, closeBrokerChannel]
    split
    · exact ⟨rfl, rfl⟩
    · rename_i hr
      simp only [UpdateSubscriptionRegistry.closeChannel, if_neg hr]
      exact ⟨rfl, trivial⟩
  | next channelId id =>
    simp only [step, execute, UpdateSubscriptionRegistry.next]
    split
    · exact ⟨rfl, trivial⟩
    split
    · exact ⟨rfl, trivial⟩
    split <;> exact ⟨rfl, trivial⟩
  | publishRetirement d =>
    simp only [step, execute, publishCommittedRetirement]
    split <;> exact ⟨rfl, rfl⟩
  | _ => exact ⟨rfl, rfl⟩

theorem broker_step {request : Request} (h : ∀ p g b, request ≠ .reopen p g b) :
    (s.step sha256 request).subscriptions.broker = s.subscriptions.broker := (lifetime_step h).1

theorem generation_step {request : Request} (h : ∀ p g b, request ≠ .reopen p g b) :
    (s.step sha256 request).generation = s.generation := (lifetime_step h).2

/-- A channel stays open while it is spared. -/
theorem alive_step {request : Request} {channelId : ℕ} {d : DocumentId} {c : CapabilityId}
    (halive : s.subscriptions.alive channelId = true)
    (hspares : s.spares sha256 request channelId d c = true) :
    (s.step sha256 request).subscriptions.alive channelId = true := by
  cases request with
  | reopen p g b => exact absurd hspares (by simp [spares])
  | revoke r =>
    simp only [step, execute, revokeCapability]
    split <;> exact halive
  | accept r =>
    simp only [step, execute, accept]
    split <;> exact halive
  | enumerate r m =>
    rcases enumerate_step sha256 s r m with ⟨_, -, -, he⟩ | ⟨-, -, _, _, he, -⟩ <;>
    · rw [step_eq he]
      exact halive
  | vectorBackfill r m =>
    rcases vectorBackfill_step sha256 s r m with ⟨_, -, -, he⟩ | ⟨-, -, _, _, he, -⟩ <;>
    · rw [step_eq he]
      exact halive
  | subscribe r =>
    simp only [step, execute, subscribeUpdates]
    split
    · exact halive
    split
    · exact halive
    have hopen := UpdateSubscriptionRegistry.openChannels_register s.subscriptions r.channel
      r.documentId r.capabilityId
    rw [UpdateSubscriptionRegistry.alive_iff] at halive ⊢
    split <;> (rename_i heq; rw [heq] at hopen; rw [hopen]; exact halive)
  | openChannel =>
    simp only [step, execute, openBrokerChannel, UpdateSubscriptionRegistry.openChannel]
    split
    · exact halive
    · rw [UpdateSubscriptionRegistry.alive_iff] at halive ⊢
      exact List.mem_cons_of_mem _ halive
  | closeChannel channel =>
    simp only [spares, Bool.or_eq_true, Bool.not_eq_true', decide_eq_true_eq] at hspares
    simp only [step, execute, closeBrokerChannel]
    split
    · exact halive
    · rename_i hr
      have hne := hspares.resolve_left (by simpa using hr)
      simp only [UpdateSubscriptionRegistry.closeChannel, if_neg hr]
      rw [UpdateSubscriptionRegistry.alive_iff] at halive ⊢
      exact List.mem_filter.mpr ⟨halive, decide_eq_true hne⟩
  | next channelId' id =>
    simp only [step, execute, UpdateSubscriptionRegistry.next]
    split
    · exact halive
    split
    · exact halive
    split <;> exact halive
  | publishRetirement d' =>
    simp only [step, execute, publishCommittedRetirement]
    split <;> exact halive
  | _ => exact halive

/-- The subscriptions a revocation ends are the live ones below its target. -/
theorem mem_revokedSubscriptionIds (h : s.subscriptions.WellFormed) {r : RevokeCommand}
    {entry : SubscriptionEntry} (hlive : s.subscriptions.Live entry)
    (halive : s.subscriptions.alive entry.channelId = true) :
    entry.subscriptionId ∈ s.revokedSubscriptionIds r ↔ entry.documentId = r.documentId ∧
      isDescendantOrSelf s.tables r.documentId r.targetCapabilityId entry.capabilityId = true := by
  simp only [revokedSubscriptionIds, UpdateSubscriptionRegistry.contexts, List.mem_map,
    List.mem_filter, decide_eq_true_eq]
  constructor
  · rintro ⟨other, ⟨⟨hmem, hd, -⟩, hdesc⟩, heq⟩
    obtain rfl := h.eq_of_subscriptionId hmem hlive.mem heq
    exact ⟨hd, hdesc⟩
  · rintro ⟨hd, hdesc⟩
    exact ⟨entry, ⟨⟨hlive.mem, hd, hlive.active, halive⟩, hdesc⟩, rfl⟩

/-- **A live subscription was live and has been spared, or is new and authorized.** -/
theorem live_step (h : s.subscriptions.WellFormed) {request : Request} {entry : SubscriptionEntry}
    (hlive : (s.step sha256 request).subscriptions.Live entry) :
    (s.subscriptions.Live entry ∧ (s.subscriptions.alive entry.channelId = true →
      s.spares sha256 request entry.channelId entry.documentId entry.capabilityId = true)) ∨
    ∃ r, request = .subscribe r ∧ s.subscriptions.recognizes r.channel = true ∧
      authorize sha256 s.tables r.documentId r.capabilityId r.authenticator .read = true ∧
      entry.channelId = r.channel.id ∧ entry.documentId = r.documentId ∧
      entry.capabilityId = r.capabilityId := by
  cases request with
  | revoke r =>
    by_cases hcommit : (s.revokeCapability sha256 r).1 = .ok .inserted
    · have hresult := hcommit
      rw [revokeCapability_fst] at hresult
      simp only [step, execute, revokeCapability, hresult, if_true] at hlive
      obtain ⟨hold, hp⟩ := (UpdateSubscriptionRegistry.live_invalidateWhere_iff h).mp hlive
      refine Or.inl ⟨hold, fun halive ↦ ?_⟩
      rw [Bool.eq_false_iff, Ne, List.contains_iff_mem, mem_revokedSubscriptionIds h hold halive]
        at hp
      simp only [spares, Bool.or_eq_true, decide_eq_true_eq, Bool.not_eq_true']
      by_cases hd : entry.documentId = r.documentId
      · exact Or.inr (Bool.eq_false_iff.mpr fun hdesc ↦ hp ⟨hd, hdesc⟩)
      · exact Or.inl (Or.inr hd)
    · have hspares := spares_revoke_of_ne hcommit entry.channelId entry.documentId
        entry.capabilityId
      rw [revokeCapability_fst] at hcommit
      simp only [step, execute, revokeCapability, if_neg hcommit] at hlive
      exact Or.inl ⟨hlive, fun _ ↦ hspares⟩
  | accept r =>
    simp only [step, execute, accept] at hlive
    split at hlive
    · exact Or.inl ⟨UpdateSubscriptionRegistry.live_notify h hlive, fun _ ↦ rfl⟩
    · exact Or.inl ⟨hlive, fun _ ↦ rfl⟩
  | enumerate r m =>
    rcases enumerate_step sha256 s r m with ⟨_, -, -, he⟩ | ⟨-, -, _, _, he, -⟩ <;>
    · rw [step_eq he] at hlive
      exact Or.inl ⟨hlive, fun _ ↦ rfl⟩
  | vectorBackfill r m =>
    rcases vectorBackfill_step sha256 s r m with ⟨_, -, -, he⟩ | ⟨-, -, _, _, he, -⟩ <;>
    · rw [step_eq he] at hlive
      exact Or.inl ⟨hlive, fun _ ↦ rfl⟩
  | subscribe r =>
    simp only [step, execute, subscribeUpdates] at hlive
    split at hlive
    · exact Or.inl ⟨hlive, fun _ ↦ rfl⟩
    split at hlive
    · exact Or.inl ⟨hlive, fun _ ↦ rfl⟩
    rename_i hauth
    have hcases : (s.subscriptions.register r.channel r.documentId r.capabilityId).2.Live
        entry := by
      split at hlive <;> (rename_i heq; rw [heq]; exact hlive)
    rcases UpdateSubscriptionRegistry.live_register h hcases with hold | ⟨hr, hentry⟩
    · exact Or.inl ⟨hold, fun _ ↦ rfl⟩
    · exact Or.inr ⟨r, rfl, hr, by simpa using hauth, hentry⟩
  | openChannel =>
    simp only [step, execute, openBrokerChannel, UpdateSubscriptionRegistry.openChannel] at hlive
    split at hlive
    · exact Or.inl ⟨hlive, fun _ ↦ rfl⟩
    · exact Or.inl ⟨⟨hlive.mem, hlive.active⟩, fun _ ↦ rfl⟩
  | closeChannel channel =>
    simp only [step, execute, closeBrokerChannel] at hlive
    split at hlive
    · rename_i hr
      exact Or.inl ⟨hlive, fun _ ↦ by simp only [spares, hr, Bool.true_or]⟩
    · obtain ⟨hold, hne⟩ := UpdateSubscriptionRegistry.live_closeChannel h hlive
      refine Or.inl ⟨hold, fun halive ↦ ?_⟩
      cases hr : s.subscriptions.recognizes channel
      · simp only [spares, hr, Bool.not_false, Bool.true_or]
      · simp only [spares, hr, Bool.not_true, Bool.false_or, decide_eq_true_eq]
        exact hne hr halive
  | next channelId id =>
    exact Or.inl ⟨UpdateSubscriptionRegistry.live_next hlive, fun _ ↦ rfl⟩
  | cancel id => exact Or.inl ⟨UpdateSubscriptionRegistry.live_cancel hlive, fun _ ↦ rfl⟩
  | publishRetirement d =>
    simp only [step, execute, publishCommittedRetirement] at hlive
    split at hlive
    · obtain ⟨hold, hp⟩ := (UpdateSubscriptionRegistry.live_invalidateWhere_iff h).mp hlive
      refine Or.inl ⟨hold, fun _ ↦ ?_⟩
      simp only [spares, Bool.or_eq_true, decide_eq_true_eq]
      exact Or.inr (of_decide_eq_false hp)
    · rename_i hretired
      exact Or.inl ⟨hlive, fun _ ↦ by simp only [spares, hretired, Bool.not_false, Bool.true_or]⟩
  | reopen provision generation broker =>
    exact absurd hlive.mem (List.not_mem_nil)
  | _ => exact Or.inl ⟨hlive, fun _ ↦ rfl⟩

end DurableUpdateStore

end Renee
