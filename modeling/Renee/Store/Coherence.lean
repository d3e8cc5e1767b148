import Renee.Store.Ending
import Renee.Store.Revocation

/-!
# Memory and tables agree

Passes and live subscriptions are kept in memory, and the authority they rest on is in the tables.

* `Holds` says that a channel holds something under a capability of a document: a pass of either
  kind or a live subscription.  `Standing` is what that takes: the capability is active and the
  channel is open.  A request gives no one anything without authority (`holds_step`), and what it
  spares keeps its standing (`Standing.step`).
* `published` lists the documents whose committed retirement has been published in the course of a
  run; nothing is held on them from then on.
* A channel is owned by whoever opened it, and given up by closing it, so that a request presents
  only a channel that is open: `RespectsChannels`.
* `authority_coherent` puts these together, and says of a revocation that commits that it ends
  exactly what is held below its target.
-/

set_option autoImplicit false

namespace Renee

open ByteString Relational Ancestry TokenRegistry

/-- The channel a request presents. -/
def Request.channel? : Request → Option BrokerChannel
  | .enumerate r _ => some r.channel
  | .vectorBackfill r _ => some r.channel
  | .subscribe r => some r.channel
  | .closeChannel channel => some channel
  | _ => none

namespace DurableUpdateStore

/-- A request presents no channel of the broker that has been closed. -/
def presentsOpen (s : DurableUpdateStore) (request : Request) : Bool :=
  request.channel?.all fun channel ↦
    !s.subscriptions.recognizes channel || s.subscriptions.alive channel.id

/-- The documents whose retirement a request publishes. -/
def publishes (s : DurableUpdateStore) : Request → List DocumentId
  | .publishRetirement d => if (s.tables.document? d).any DocumentRow.retired then [d] else []
  | _ => []

section Hash

variable (sha256 : List UInt8 → Bytes verifierLength)

/-- No request of a run presents a channel that has been closed. -/
def RespectsChannels : DurableUpdateStore → List Request → Prop
  | _, [] => True
  | s, request :: requests =>
    s.presentsOpen request = true ∧ RespectsChannels (s.step sha256 request) requests

/-- The documents whose retirement is published in a run. -/
def published : DurableUpdateStore → List Request → List DocumentId
  | _, [] => []
  | s, request :: requests => s.publishes request ++ published (s.step sha256 request) requests

instance decidableRespectsChannels (s : DurableUpdateStore) (requests : List Request) :
    Decidable (RespectsChannels sha256 s requests) := by
  induction requests generalizing s with
  | nil => exact isTrue trivial
  | cons request requests ih =>
    have := ih (s.step sha256 request)
    exact inferInstanceAs (Decidable (_ ∧ _))

end Hash

variable {sha256 : List UInt8 → Bytes verifierLength} {s : DurableUpdateStore}
  {channelId : ℕ} {d : DocumentId} {c : CapabilityId}

theorem respectsChannels_concat {requests : List Request} {request : Request} :
    RespectsChannels sha256 s (requests ++ [request]) ↔
      RespectsChannels sha256 s requests ∧ (s.run sha256 requests).presentsOpen request = true := by
  induction requests generalizing s with
  | nil => exact ⟨fun h ↦ ⟨trivial, h.1⟩, fun h ↦ ⟨h.2, trivial⟩⟩
  | cons first requests ih =>
    rw [List.cons_append, RespectsChannels, RespectsChannels, ih, and_assoc]
    exact Iff.rfl

theorem published_concat {requests : List Request} {request : Request} :
    published sha256 s (requests ++ [request]) =
      published sha256 s requests ++ (s.run sha256 requests).publishes request := by
  induction requests generalizing s with
  | nil => simp [published, run]
  | cons first requests ih =>
    rw [List.cons_append, published, published, ih, List.append_assoc]
    rfl

theorem mem_publishes_iff {request : Request} : d ∈ s.publishes request ↔
    request = .publishRetirement d ∧ (s.tables.document? d).any DocumentRow.retired = true := by
  cases request with
  | publishRetirement d' =>
    rw [publishes]
    split
    · rename_i h
      rw [List.mem_singleton]
      constructor
      · rintro rfl
        exact ⟨rfl, h⟩
      · rintro ⟨heq, -⟩
        simpa using heq.symm
    · rename_i h
      refine ⟨fun hmem ↦ absurd hmem List.not_mem_nil, fun ⟨heq, hretired⟩ ↦ ?_⟩
      obtain rfl : d' = d := by simpa using heq
      exact absurd hretired h
  | _ => exact ⟨fun h ↦ absurd h List.not_mem_nil, fun h ↦ absurd h.1 (by simp)⟩

/-- A retirement is for good. -/
theorem retired_step (hw : WellFormed s.tables)
    (h : (s.tables.document? d).any DocumentRow.retired = true) (request : Request) :
    ((s.step sha256 request).tables.document? d).any DocumentRow.retired = true := by
  rw [Option.any_eq_true] at h ⊢
  obtain ⟨document, hdocument, hretired⟩ := h
  obtain ⟨document', hdocument', -, hkeep⟩ := (persists_step hw request).document hdocument
  exact ⟨document', hdocument', hkeep hretired⟩

/-! ## Holding -/

/-- A channel holds a pass or a live subscription under a capability of a document. -/
def Holds (s : DurableUpdateStore) (channelId : ℕ) (d : DocumentId) (c : CapabilityId) : Prop :=
  (∃ pass ∈ s.enumerationPasses,
    pass.channelId = channelId ∧ pass.documentId = d ∧ pass.capabilityId = c) ∨
  (∃ pass ∈ s.vectorPasses,
    pass.channelId = channelId ∧ pass.documentId = d ∧ pass.capabilityId = c) ∨
  ∃ entry, s.subscriptions.Live entry ∧
    entry.channelId = channelId ∧ entry.documentId = d ∧ entry.capabilityId = c

/-- What it takes to hold something. -/
structure Standing (s : DurableUpdateStore) (channelId : ℕ) (d : DocumentId) (c : CapabilityId) :
    Prop where
  /-- The capability has not been revoked. -/
  capability : s.tables.Active d c
  /-- The channel is open. -/
  channel : s.subscriptions.alive channelId = true

/-- **What is held was held and has been spared, or is newly held with authority.** -/
theorem holds_step (hregistry : s.subscriptions.WellFormed) {request : Request}
    (h : (s.step sha256 request).Holds channelId d c) :
    (s.Holds channelId d c ∧ (s.subscriptions.alive channelId = true →
      s.spares sha256 request channelId d c = true)) ∨
    (s.spares sha256 request channelId d c = true ∧
      ∃ channel a, request.channel? = some channel ∧ s.subscriptions.recognizes channel = true ∧
        channel.id = channelId ∧
        authorizeDocument sha256 s.tables d c a .read = .authorized) := by
  rcases h with ⟨pass, hpass, rfl, rfl, rfl⟩ | ⟨pass, hpass, rfl, rfl, rfl⟩ |
    ⟨entry, hlive, rfl, rfl, rfl⟩
  · by_cases henumerate : ∃ r m, request = .enumerate r m
    · obtain ⟨r, m, rfl⟩ := henumerate
      rcases enumerate_step sha256 s r m with ⟨_, -, -, he⟩ | ⟨hr, hauth, _, passes, he, heffect⟩
      · rw [step_eq he] at hpass
        exact Or.inl ⟨Or.inl ⟨pass, hpass, rfl, rfl, rfl⟩, fun _ ↦ rfl⟩
      · rw [step_eq he] at hpass
        rcases heffect.mem_cases hpass with hold | ⟨hchannel, hdocument, hcapability⟩
        · exact Or.inl ⟨Or.inl ⟨pass, (List.mem_filter.mp hold).1, rfl, rfl, rfl⟩, fun _ ↦ rfl⟩
        · rw [← hdocument, ← hcapability] at hauth
          exact Or.inr ⟨rfl, r.channel, r.authenticator, rfl, hr, hchannel.symm, hauth⟩
    · rw [enumerationPasses_step fun r m heq ↦ henumerate ⟨r, m, heq⟩, List.mem_filter] at hpass
      exact Or.inl ⟨Or.inl ⟨pass, hpass.1, rfl, rfl, rfl⟩, fun _ ↦ hpass.2⟩
  · by_cases hbackfill : ∃ r m, request = .vectorBackfill r m
    · obtain ⟨r, m, rfl⟩ := hbackfill
      rcases vectorBackfill_step sha256 s r m with ⟨_, -, -, he⟩ | ⟨hr, hauth, _, _, he, heffect⟩
      · rw [step_eq he] at hpass
        exact Or.inl ⟨Or.inr (Or.inl ⟨pass, hpass, rfl, rfl, rfl⟩), fun _ ↦ rfl⟩
      · rw [step_eq he] at hpass
        rcases heffect.mem_cases hpass with hold | ⟨hchannel, hdocument, hcapability, -⟩
        · exact Or.inl ⟨Or.inr (Or.inl ⟨pass, (List.mem_filter.mp hold).1, rfl, rfl, rfl⟩),
            fun _ ↦ rfl⟩
        · rw [← hdocument, ← hcapability] at hauth
          exact Or.inr ⟨rfl, r.channel, r.authenticator, rfl, hr, hchannel.symm, hauth⟩
    · rw [vectorPasses_step fun r m heq ↦ hbackfill ⟨r, m, heq⟩, List.mem_filter] at hpass
      exact Or.inl ⟨Or.inr (Or.inl ⟨pass, hpass.1, rfl, rfl, rfl⟩), fun _ ↦ hpass.2⟩
  · rcases live_step hregistry hlive with ⟨hold, hspares⟩ | ⟨r, rfl, hr, hauth, hch, hdoc, hcap⟩
    · exact Or.inl ⟨Or.inr (Or.inr ⟨entry, hold, rfl, rfl, rfl⟩), hspares⟩
    · rw [authorize, decide_eq_true_eq, ← hdoc, ← hcap] at hauth
      exact Or.inr ⟨rfl, r.channel, r.authenticator, rfl, hr, hch.symm, hauth⟩

/-- **What a request spares keeps its standing.** -/
theorem Standing.step (h : s.Standing channelId d c) (hw : WellFormed s.tables) {request : Request}
    (hspares : s.spares sha256 request channelId d c = true) :
    (s.step sha256 request).Standing channelId d c := by
  refine ⟨?_, alive_step h.channel hspares⟩
  by_cases hsame : (s.step sha256 request).tables = s.tables
  · rw [hsame]
    exact h.capability
  obtain ⟨m, hm, heffect⟩ := (effect_step sha256 s request).resolve_left hsame
  refine heffect.active hw h.capability ?_
  rintro r rfl ⟨rfl, hbelow⟩
  obtain rfl : request = .revoke r := by
    cases request <;> simp_all [Request.mutation?]
  obtain ⟨row, hrow, -⟩ := h.capability
  rw [← (hw.control.forest _).isDescendantOrSelf_iff hrow] at hbelow
  simp only [spares, hbelow, Bool.not_true, Bool.or_false, ne_eq, not_true_eq_false, decide_false,
    decide_eq_true_eq] at hspares
  -- a revocation that does not commit changes nothing
  rcases revokeCapability_spec (Prod.eta (Renee.revokeCapability sha256 s.tables r)).symm with
    ⟨hcommit, -⟩ | ⟨-, heq⟩
  · exact hspares ((revokeCapability_fst r).trans hcommit)
  · exact hsame ((tables_step sha256 s _).trans heq)

/-! ## Runs -/

/-- The invariant: nothing is held without standing, or on a document whose retirement has been
published. -/
structure Coherent (s : DurableUpdateStore) (published : List DocumentId) : Prop where
  registry : s.subscriptions.WellFormed
  standing : ∀ {channelId d c}, s.Holds channelId d c → s.Standing channelId d c
  unpublished : ∀ {channelId d c}, s.Holds channelId d c → d ∉ published
  retired : ∀ d ∈ published, (s.tables.document? d).any DocumentRow.retired = true

theorem coherent_initial : Coherent initial [] where
  registry := UpdateSubscriptionRegistry.wellFormed_new 0
  standing := by
    rintro channelId d c (⟨pass, hpass, -⟩ | ⟨pass, hpass, -⟩ | ⟨entry, hlive, -⟩)
    · exact absurd hpass List.not_mem_nil
    · exact absurd hpass List.not_mem_nil
    · exact absurd hlive.mem List.not_mem_nil
  unpublished := fun _ ↦ List.not_mem_nil
  retired := fun _ h ↦ absurd h List.not_mem_nil

theorem not_retired_of_authorized {t : Tables} {a : Authenticator} {operation : Operation}
    (hw : ControlWellFormed t)
    (h : authorizeDocument sha256 t d c a operation = .authorized) :
    (t.document? d).any DocumentRow.retired = false := by
  obtain ⟨-, document, hdocument, hretired⟩ :=
    (hw.forest d).authorize_iff.mp (by rw [authorize, h]; rfl)
  rw [hdocument, Option.any_some, hretired]

theorem Coherent.step {published : List DocumentId} (h : s.Coherent published)
    (hw : WellFormed s.tables) {request : Request} (hopen : s.presentsOpen request = true) :
    (s.step sha256 request).Coherent (published ++ s.publishes request) where
  registry := registry_step h.registry request
  standing := by
    intro channelId d c hholds
    rcases holds_step h.registry hholds with
      ⟨hold, hspares⟩ | ⟨hspares, channel, a, hchannel, hr, rfl, hauth⟩
    · exact (h.standing hold).step hw (hspares (h.standing hold).channel)
    · refine Standing.step ⟨?_, ?_⟩ hw hspares
      · obtain ⟨row, hrow, hactive, -⟩ := Tables.bears_of_authorizeDocument
          (show authorizeDocument sha256 s.tables d c a .read ≠ .denied by rw [hauth]; simp)
        exact ⟨row, hrow, hactive⟩
      · rw [presentsOpen, hchannel, Option.all_some, hr, Bool.not_true, Bool.false_or] at hopen
        exact hopen
  unpublished := by
    intro channelId d c hholds hmem
    rcases holds_step h.registry hholds with
      ⟨hold, hspares⟩ | ⟨hspares, channel, a, hchannel, hr, rfl, hauth⟩
    · rcases List.mem_append.mp hmem with hbefore | hnow
      · exact h.unpublished hold hbefore
      · obtain ⟨rfl, hretired⟩ := mem_publishes_iff.mp hnow
        have hspared := hspares (h.standing hold).channel
        simp [spares, hretired] at hspared
    · have hretired := not_retired_of_authorized hw.control hauth
      rcases List.mem_append.mp hmem with hbefore | hnow
      · exact absurd (hretired.symm.trans (h.retired d hbefore)) (by simp)
      · exact absurd (hretired.symm.trans (mem_publishes_iff.mp hnow).2) (by simp)
  retired := by
    intro d hmem
    rcases List.mem_append.mp hmem with hbefore | hnow
    · exact retired_step hw (h.retired d hbefore) request
    · exact retired_step hw (mem_publishes_iff.mp hnow).2 request

/-- **Coherence holds in every run.** -/
theorem coherent_run {requests : List Request}
    (hchannels : RespectsChannels sha256 initial requests) :
    (initial.run sha256 requests).Coherent (published sha256 initial requests) := by
  induction requests using List.reverseRecOn with
  | nil => exact coherent_initial
  | append_singleton requests request ih =>
    obtain ⟨hbefore, hopen⟩ := respectsChannels_concat.mp hchannels
    rw [run_concat, published_concat]
    exact (ih hbefore).step (wellFormed_runRequests wellFormed_initial requests) hopen

/-! ## Revocation -/

/-- What lies below the target of a revocation. -/
def Below (t : Tables) (r : RevokeCommand) (d : DocumentId) (c : CapabilityId) : Prop :=
  d = r.documentId ∧ Descends (t.parent? d) c r.targetCapabilityId

theorem spares_revoke_iff (hw : WellFormed s.tables) {r : RevokeCommand}
    (hcommit : (s.revokeCapability sha256 r).1 = .ok .inserted) (h : s.tables.Active d c) :
    s.spares sha256 (.revoke r) channelId d c = true ↔ ¬Below s.tables r d c := by
  obtain ⟨row, hrow, -⟩ := h
  simp only [spares, hcommit, ne_eq, not_true_eq_false, decide_false, Bool.false_or,
    Bool.or_eq_true, decide_eq_true_eq, Bool.not_eq_true', Below, not_and_or]
  by_cases hd : d = r.documentId
  · subst hd
    rw [← (hw.control.forest _).isDescendantOrSelf_iff hrow, Bool.not_eq_true]
  · exact ⟨fun _ ↦ Or.inl hd, fun _ ↦ Or.inl hd⟩

/-- The shared halves after a revocation. -/
theorem cells_revoke (hregistry : s.subscriptions.WellFormed) {r : RevokeCommand}
    (hcommit : (s.revokeCapability sha256 r).1 = .ok .inserted) (id : ℕ) :
    (s.step sha256 (.revoke r)).subscriptions.cells id =
      if id ∈ s.revokedSubscriptionIds r then (s.subscriptions.cells id).invalidate .revoked
      else s.subscriptions.cells id := by
  rw [revokeCapability_fst] at hcommit
  simp only [step, execute, revokeCapability, hcommit, if_true]
  by_cases hentry : ∃ entry ∈ s.subscriptions.subscriptions, entry.subscriptionId = id
  · obtain ⟨entry, hentry, rfl⟩ := hentry
    rw [UpdateSubscriptionRegistry.invalidateSubscriptions,
      UpdateSubscriptionRegistry.cells_invalidateWhere hregistry _ _ hentry]
    simp only [List.contains_iff_mem]
  · have hne : ∀ entry ∈ s.subscriptions.subscriptions, entry.subscriptionId ≠ id :=
      fun entry he heq ↦ hentry ⟨entry, he, heq⟩
    rw [if_neg]
    · exact UpdateSubscriptionRegistry.cells_retain_of_ne hne
    · intro hmem
      obtain ⟨entry, he, heq⟩ := List.mem_map.mp hmem
      exact hne entry (List.mem_filter.mp (List.mem_filter.mp he).1).1 heq

open Classical in
/-- **What a revocation ends**: of the passes and the live subscriptions exactly those below its
target, the latter with the reason.  Everything else stays as it is. -/
theorem Coherent.revoke {published : List DocumentId} (h : s.Coherent published)
    (hw : WellFormed s.tables) {r : RevokeCommand}
    (hcommit : (s.revokeCapability sha256 r).1 = .ok .inserted) :
    let s' := s.step sha256 (.revoke r)
    s'.enumerationPasses = s.enumerationPasses.filter
      (fun pass ↦ ¬Below s.tables r pass.documentId pass.capabilityId) ∧
    s'.vectorPasses = s.vectorPasses.filter
      (fun pass ↦ ¬Below s.tables r pass.documentId pass.capabilityId) ∧
    (∀ entry, s'.subscriptions.Live entry ↔
      s.subscriptions.Live entry ∧ ¬Below s.tables r entry.documentId entry.capabilityId) ∧
    ∀ id, s'.subscriptions.cells id =
      if ∃ entry, s.subscriptions.Live entry ∧ entry.subscriptionId = id ∧
        Below s.tables r entry.documentId entry.capabilityId
      then { s.subscriptions.cells id with state := encodeEnd .revoked }
      else s.subscriptions.cells id := by
  intro s'
  have hspares : ∀ {channelId d c}, s.Holds channelId d c →
      (s.spares sha256 (.revoke r) channelId d c = decide (¬Below s.tables r d c)) :=
    fun hholds ↦ by
      rw [Bool.eq_iff_iff, spares_revoke_iff hw hcommit (h.standing hholds).capability,
        decide_eq_true_eq]
  have hids : ∀ {entry}, s.subscriptions.Live entry →
      (entry.subscriptionId ∈ s.revokedSubscriptionIds r ↔
        Below s.tables r entry.documentId entry.capabilityId) := by
    intro entry hlive
    have hstanding := h.standing (Or.inr (Or.inr ⟨entry, hlive, rfl, rfl, rfl⟩))
    rw [mem_revokedSubscriptionIds h.registry hlive hstanding.channel, Below]
    refine and_congr_right fun hd ↦ ?_
    obtain ⟨row, hrow, -⟩ := hstanding.capability
    rw [hd] at hrow ⊢
    exact (hw.control.forest _).isDescendantOrSelf_iff hrow
  obtain ⟨henumeration, hvector⟩ := passes_revoke sha256 s r
  refine ⟨henumeration.trans ?_, hvector.trans ?_, fun entry ↦ ?_, fun id ↦ ?_⟩
  · exact List.filter_congr fun pass hpass ↦ hspares (Or.inl ⟨pass, hpass, rfl, rfl, rfl⟩)
  · exact List.filter_congr fun pass hpass ↦ hspares (Or.inr (Or.inl ⟨pass, hpass, rfl, rfl, rfl⟩))
  · constructor
    · intro hlive
      rcases live_step h.registry hlive with ⟨hold, hspared⟩ | ⟨r', heq, -⟩
      · have hholds : s.Holds _ _ _ := Or.inr (Or.inr ⟨entry, hold, rfl, rfl, rfl⟩)
        have hout := hspared (h.standing hholds).channel
        rw [hspares hholds] at hout
        exact ⟨hold, of_decide_eq_true hout⟩
      · exact absurd heq (by simp)
    · rintro ⟨hlive, hout⟩
      have hresult := hcommit
      rw [revokeCapability_fst] at hresult
      have hsubscriptions : s'.subscriptions =
          s.subscriptions.invalidateSubscriptions (s.revokedSubscriptionIds r) .revoked := by
        simp only [s', DurableUpdateStore.step, execute, revokeCapability, hresult, if_true]
      rw [hsubscriptions]
      refine (UpdateSubscriptionRegistry.live_invalidateWhere_iff h.registry).mpr ⟨hlive, ?_⟩
      rw [Bool.eq_false_iff, Ne, List.contains_iff_mem, hids hlive]
      exact hout
  · rw [cells_revoke h.registry hcommit id]
    by_cases hmem : id ∈ s.revokedSubscriptionIds r
    · obtain ⟨entry, he, rfl⟩ := List.mem_map.mp hmem
      obtain ⟨hentry, hp⟩ := List.mem_filter.mp (List.mem_filter.mp he).1
      rw [decide_eq_true_eq] at hp
      have hlive : s.subscriptions.Live entry := ⟨hentry, hp.2.1⟩
      rw [if_pos hmem, if_pos ⟨entry, hlive, rfl, (hids hlive).mp hmem⟩,
        SubscriptionCell.invalidate, if_pos hlive.active]
    · rw [if_neg hmem, if_neg]
      rintro ⟨entry, hlive, rfl, hbelow⟩
      exact hmem ((hids hlive).mpr hbelow)

end DurableUpdateStore

open DurableUpdateStore in
open Classical in
/-- **Passes and subscriptions rest on the authority in the tables.**  In every reachable store
whatever a channel holds, a pass of either kind or a live subscription, is held under an active
capability, on a document whose retirement has not been published, by a channel that is open; and a
revocation that newly commits ends exactly what is held below its target. -/
theorem authority_coherent (sha256 : List UInt8 → Bytes verifierLength) (requests : List Request)
    (hchannels : RespectsChannels sha256 initial requests) :
    let s := initial.run sha256 requests
    (∀ channelId d c, s.Holds channelId d c →
      s.tables.Active d c ∧ d ∉ published sha256 initial requests ∧
        s.subscriptions.alive channelId = true) ∧
    ∀ r, (s.revokeCapability sha256 r).1 = .ok .inserted →
      let s' := s.step sha256 (.revoke r)
      s'.enumerationPasses = s.enumerationPasses.filter
        (fun pass ↦ ¬Below s.tables r pass.documentId pass.capabilityId) ∧
      s'.vectorPasses = s.vectorPasses.filter
        (fun pass ↦ ¬Below s.tables r pass.documentId pass.capabilityId) ∧
      (∀ entry, s'.subscriptions.Live entry ↔
        s.subscriptions.Live entry ∧ ¬Below s.tables r entry.documentId entry.capabilityId) ∧
      ∀ id, s'.subscriptions.cells id =
        if ∃ entry, s.subscriptions.Live entry ∧ entry.subscriptionId = id ∧
          Below s.tables r entry.documentId entry.capabilityId
        then { s.subscriptions.cells id with state := encodeEnd .revoked }
        else s.subscriptions.cells id := by
  intro s
  have hw : WellFormed s.tables := wellFormed_runRequests wellFormed_initial requests
  have hcoherent := coherent_run hchannels
  refine ⟨fun channelId d c hholds ↦ ?_, fun r hcommit ↦ hcoherent.revoke hw hcommit⟩
  have hstanding := hcoherent.standing hholds
  exact ⟨hstanding.capability, hcoherent.unpublished hholds, hstanding.channel⟩

/-- The child subscribes. -/
def Sample.subscribing : List Request :=
  Sample.opening ++ [.subscribe ⟨Sample.channel, Sample.document, Sample.child, Sample.secret 3⟩]

open DurableUpdateStore in
/-- The capability of the child is revoked. -/
theorem authority_coherent_sample :
    (((initial.run Sample.sha256 Sample.subscribing).step Sample.sha256
      (.revoke Sample.revoke)).subscriptions.cells 1).state = encodeEnd .revoked := by
  have hrun : RespectsChannels Sample.sha256 initial Sample.subscribing ∧
      let s := initial.run Sample.sha256 Sample.subscribing
      (s.revokeCapability Sample.sha256 Sample.revoke).1 = .ok .inserted ∧
      s.subscriptions.subscriptions = [⟨Sample.child, 1, Sample.document, 1⟩] ∧
      (s.subscriptions.cells 1).state = active := by decide +kernel
  obtain ⟨hchannels, hcommit, hentries, hactive⟩ := hrun
  have h := (authority_coherent Sample.sha256 Sample.subscribing hchannels).2 Sample.revoke hcommit
  rw [h.2.2.2 1, if_pos]
  refine ⟨_, ⟨by rw [hentries]; exact List.mem_singleton_self _, hactive⟩, rfl, rfl,
    Descends.refl _⟩

end Renee
