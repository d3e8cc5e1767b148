import Renee.Gateway.Dispatcher
import Renee.Library.SharedLine

/-!
# What the dispatcher does

* `Dispatcher.Keyed`: a request that has been submitted is queued, pending under its correlation
  identifier, or has been handed its response, and never more than one of these.
* `Dispatcher.Moves` says what one step does to the frames of the session that have arrived: events
  are opened and responses are handed, each to the request that is pending under its correlation
  identifier (`step_moves`).
-/

set_option autoImplicit false

namespace Renee.Gateway

open ByteString Wire SharedLine

variable {ε : Type}

/-! ## Requests and their correlation identifiers -/

/-- A request that has been submitted carries a correlation identifier. -/
def Dispatcher.Submitted (g : Dispatcher ε) (task : ℕ) (correlationId : Bytes 16) : Prop :=
  ∃ body request, (task, body) ∈ g.submitted ∧ decodeBody body = .ok request ∧
    request.correlationId = correlationId

/-- A response of the session has been handed to a task, or it is not of the session. -/
def Dispatcher.Handed (g : Dispatcher ε) (task : ℕ) (body : List UInt8) : Prop :=
  (task, body) ∈ g.handed ∨ acknowledges body = none

/-- The tasks whose request has been taken up: those that have been handed a response, those that
are pending, and those that are queued. -/
def Dispatcher.taken (g : Dispatcher ε) : List ℕ :=
  g.handed.map Prod.fst ++ (g.pending.map Prod.snd ++ g.requests.map Prod.fst)

/-- Tasks, requests and responses belong together. -/
structure Dispatcher.Keyed (g : Dispatcher ε) : Prop where
  keys : (g.pending.map Prod.fst).Nodup
  taken : g.taken.Subperm (g.submitted.map Prod.fst)
  submitted : (g.submitted.map Prod.fst).Nodup
  accepted : ∀ entry ∈ g.submitted, entry.1 < g.tasks.length
  reading : ∀ task, g.tasks[task]? = some .reading → task ∉ g.submitted.map Prod.fst
  requests : ∀ entry ∈ g.requests, entry ∈ g.submitted
  pending : ∀ entry ∈ g.pending, g.Submitted entry.2 entry.1
  handed : ∀ entry ∈ g.handed, ∃ response, decodeBody entry.2 = .ok response ∧
    g.Submitted entry.1 response.correlationId
  responding : ∀ task body acknowledges, g.tasks[task]? = some (.responding body acknowledges) →
    g.Handed task body
  delivered : ∀ task body, .response task body ∈ g.transport → g.Handed task body
  awaited : ∀ task body, g.busy = some (.acknowledgement task body) →
    g.tasks[task]? = some (.responding body true) ∨
      ∃ result, g.tasks[task]? = some (.finished result) ∧
        (result = .ok () → .response task body ∈ g.transport)

namespace Dispatcher

variable {g g' : Dispatcher ε} {task : ℕ} {phase : RequestTask ε} {body : List UInt8}
  {fault : Option ε}

theorem keyed_start : (start : Dispatcher ε).Keyed where
  keys := List.nodup_nil
  taken := List.Subperm.refl _
  submitted := List.nodup_nil
  accepted := by simp [start]
  reading := by simp [start]
  requests := by simp [start]
  pending := by simp [start]
  handed := by simp [start]
  responding := by simp [start]
  delivered := by simp [start]
  awaited := by simp [start]

theorem Keyed.leave (h : g.Keyed) (outcome : Except (RelayError ε) Unit) :
    (g.leave outcome).Keyed :=
  ⟨h.keys, h.taken, h.submitted, h.accepted, h.reading, h.requests, h.pending, h.handed,
    h.responding, h.delivered, h.awaited⟩

theorem Keyed.setTask (h : g.Keyed) (hreading : phase ≠ .reading)
    (hresponding : ∀ body acknowledges, phase = .responding body acknowledges → g.Handed task body)
    (hawaited : ∀ body, g.busy = some (.acknowledgement task body) →
      phase = .responding body true ∨ ∃ result, phase = .finished result ∧
        (result = .ok () → .response task body ∈ g.transport)) : (g.setTask task phase).Keyed := by
  have hget (task' : ℕ) : (g.tasks.set task phase)[task']? =
      if task = task' then if task < g.tasks.length then some phase else none
      else g.tasks[task']? := List.getElem?_set ..
  refine ⟨h.keys, h.taken, h.submitted, fun entry hentry ↦ ?_, fun task' htask' ↦ ?_, h.requests,
    h.pending, h.handed, fun task' body acknowledges htask' ↦ ?_, h.delivered,
    fun task' body hbusy ↦ ?_⟩
  · rw [Dispatcher.setTask, List.length_set]
    exact h.accepted entry hentry
  · rw [Dispatcher.setTask, hget] at htask'
    split_ifs at htask'
    · exact absurd (Option.some_inj.mp htask') hreading
    · exact h.reading task' htask'
  · rw [Dispatcher.setTask, hget] at htask'
    split_ifs at htask' with heq
    · exact heq ▸ hresponding body acknowledges (Option.some_inj.mp htask')
    · exact h.responding task' body acknowledges htask'
  · rw [Dispatcher.setTask, hget]
    split_ifs with heq hlt
    · subst heq
      rcases hawaited body hbusy with rfl | ⟨result, rfl, hresult⟩
      · exact .inl rfl
      · exact .inr ⟨result, rfl, hresult⟩
    · subst heq
      have hnone : g.tasks[task]? = none := List.getElem?_eq_none (not_lt.mp hlt)
      rcases h.awaited task body hbusy with htask | ⟨result, htask, -⟩ <;>
        exact absurd (hnone.symm.trans htask) (by simp)
    · exact h.awaited task' body hbusy

/-- The loop does not wait for a task that has no response yet. -/
theorem Keyed.not_awaited (h : g.Keyed) (htask : g.tasks[task]? = some phase)
    (hphase : phase = .reading ∨ phase = .waiting) (body : List UInt8) :
    g.busy ≠ some (.acknowledgement task body) := by
  intro hbusy
  rcases h.awaited task body hbusy with htask' | ⟨result, htask', -⟩
  all_goals
    obtain rfl := Option.some_inj.mp (htask.symm.trans htask')
    simp at hphase

/-- A request is queued that has not been submitted before. -/
theorem Keyed.enqueue (h : g.Keyed) (hlt : task < g.tasks.length)
    (hnew : task ∉ g.submitted.map Prod.fst) (hphase : g.tasks[task]? ≠ some .reading)
    (body : List UInt8) :
    ({ g with
      requests := g.requests ++ [(task, body)]
      submitted := g.submitted ++ [(task, body)] } : Dispatcher ε).Keyed := by
  have hmono {entry : ℕ × List UInt8} (hentry : entry ∈ g.submitted) :
      entry ∈ g.submitted ++ [(task, body)] := List.mem_append_left _ hentry
  refine ⟨h.keys, ?_, ?_, fun entry hentry ↦ ?_, fun task' htask' ↦ ?_, fun entry hentry ↦ ?_,
    fun entry hentry ↦ ?_, fun entry hentry ↦ ?_, h.responding, h.delivered, h.awaited⟩
  · rw [Dispatcher.taken, List.map_append, List.map_append, ← List.append_assoc,
      ← List.append_assoc, List.append_assoc (g.handed.map Prod.fst)]
    exact h.taken.append (List.Subperm.refl _)
  · rw [List.map_append, List.map_singleton, ← List.concat_eq_append]
    exact h.submitted.concat hnew
  · rcases List.mem_append.mp hentry with hentry | hentry
    · exact h.accepted entry hentry
    · obtain rfl := List.mem_singleton.mp hentry
      exact hlt
  · rw [List.map_append, List.mem_append, not_or]
    refine ⟨h.reading task' htask', fun hmem ↦ ?_⟩
    rw [List.mem_singleton.mp hmem] at htask'
    exact hphase htask'
  · rcases List.mem_append.mp hentry with hentry | hentry
    · exact hmono (h.requests entry hentry)
    · exact List.mem_append_right _ hentry
  · obtain ⟨body', request, hmem, hrequest⟩ := h.pending entry hentry
    exact ⟨body', request, hmono hmem, hrequest⟩
  · obtain ⟨response, hdecode, body', request, hmem, hrequest⟩ := h.handed entry hentry
    exact ⟨response, hdecode, body', request, hmono hmem, hrequest⟩

theorem Keyed.submit {request : Except (RelayError ε) (Option (List UInt8))} (h : g.Keyed)
    (hstep : g.submit task request = some g') : g'.Keyed := by
  rw [Dispatcher.submit.eq_def] at hstep
  split at hstep
  · rename_i htask
    have hidle := h.not_awaited htask (.inl rfl)
    split at hstep
    · obtain rfl := Option.some_inj.mp hstep
      exact h.setTask (by simp) (by simp) fun body hbusy ↦ absurd hbusy (hidle body)
    · obtain rfl := Option.some_inj.mp hstep
      exact h.setTask (by simp) (by simp) fun body hbusy ↦ absurd hbusy (hidle body)
    · rename_i body
      split_ifs at hstep
      obtain rfl := Option.some_inj.mp hstep
      obtain ⟨hlt, -⟩ := List.getElem?_eq_some_iff.mp htask
      have hwaiting : (g.setTask task .waiting).Keyed :=
        h.setTask (by simp) (by simp) fun body hbusy ↦ absurd hbusy (hidle body)
      refine hwaiting.enqueue (by rwa [Dispatcher.setTask, List.length_set])
        (h.reading task htask) ?_ body
      rw [Dispatcher.setTask, List.getElem?_set_self hlt]
      simp
  · exact absurd hstep (by simp)

theorem Keyed.deliver (h : g.Keyed) (hstep : g.deliver task fault = some g') : g'.Keyed := by
  rw [Dispatcher.deliver.eq_def] at hstep
  split at hstep
  · rename_i body acknowledges htask
    have hhanded := h.responding task body acknowledges htask
    split at hstep
    · obtain rfl := Option.some_inj.mp hstep
      exact h.setTask (by simp) (by simp) fun body hbusy ↦ .inr ⟨_, rfl, by simp⟩
    · obtain rfl := Option.some_inj.mp hstep
      have hdelivered : ({ g with transport := g.transport ++ [.response task body] } :
          Dispatcher ε).Keyed := by
        refine ⟨h.keys, h.taken, h.submitted, h.accepted, h.reading, h.requests, h.pending,
          h.handed, h.responding, fun task' body' hmem ↦ ?_, fun task' body' hbusy ↦ ?_⟩
        · rcases List.mem_append.mp hmem with hmem | hmem
          · exact h.delivered task' body' hmem
          · obtain ⟨rfl, rfl⟩ := Delivery.response.inj (List.mem_singleton.mp hmem)
            exact hhanded
        · rcases h.awaited task' body' hbusy with htask' | ⟨result, htask', hresult⟩
          · exact .inl htask'
          · exact .inr ⟨result, htask', fun hok ↦ List.mem_append_left _ (hresult hok)⟩
      refine hdelivered.setTask (by simp) (by simp) fun body' hbusy ↦ .inr ⟨_, rfl, fun _ ↦ ?_⟩
      -- the response that is awaited is the one that the task has
      rcases h.awaited task body' hbusy with htask' | ⟨result, htask', -⟩
      · obtain ⟨rfl, -⟩ := RequestTask.responding.inj (Option.some_inj.mp (htask.symm.trans htask'))
        exact List.mem_append_right _ (List.mem_singleton_self _)
      · exact absurd (htask.symm.trans htask') (by simp)
  · exact absurd hstep (by simp)

theorem Keyed.accept (h : g.Keyed) (stream : Bool) : (g.accept stream).Keyed := by
  rw [Dispatcher.accept]
  split_ifs
  · exact h.leave _
  · exact h.leave _
  · have hget (task : ℕ) (phase : RequestTask ε) (hphase : phase ≠ .reading) :
        (g.tasks ++ [.reading])[task]? = some phase ↔ g.tasks[task]? = some phase := by
      rcases lt_trichotomy task g.tasks.length with hlt | rfl | hgt
      · rw [List.getElem?_append_left hlt]
      · simp [hphase.symm]
      · rw [List.getElem?_eq_none (by simp; omega), List.getElem?_eq_none (by omega)]
    refine ⟨h.keys, h.taken, h.submitted, fun entry hentry ↦ ?_, fun task htask ↦ ?_, h.requests,
      h.pending, h.handed, fun task body acknowledges htask ↦ ?_, h.delivered,
      fun task body hbusy ↦ ?_⟩
    · rw [List.length_append]
      exact Nat.lt_add_right _ (h.accepted entry hentry)
    · by_cases hlt : task < g.tasks.length
      · exact h.reading task (by rwa [List.getElem?_append_left hlt] at htask)
      · intro hmem
        obtain ⟨entry, hentry, rfl⟩ := List.mem_map.mp hmem
        exact hlt (h.accepted entry hentry)
    · exact h.responding task body acknowledges ((hget task _ (by simp)).mp htask)
    · rcases h.awaited task body hbusy with htask | ⟨result, htask, hresult⟩
      · exact .inl ((hget task _ (by simp)).mpr htask)
      · exact .inr ⟨result, (hget task _ (by simp)).mpr htask, hresult⟩

/-- The loop takes a request from the queue. -/
theorem Keyed.dequeue {requests : List (ℕ × List UInt8)} (h : g.Keyed)
    (hrequests : g.requests = (task, body) :: requests) :
    ({ g with requests } : Dispatcher ε).Keyed := by
  refine ⟨h.keys, ?_, h.submitted, h.accepted, h.reading, fun entry hentry ↦ ?_, h.pending,
    h.handed, h.responding, h.delivered, h.awaited⟩
  · refine List.Sublist.subperm ?_ |>.trans h.taken
    rw [Dispatcher.taken, Dispatcher.taken, hrequests, List.map_cons]
    exact ((List.sublist_cons_self ..).append_left _).append_left _
  · exact h.requests entry (hrequests ▸ List.mem_cons_of_mem _ hentry)

/-- The loop registers a request that it has taken from the queue. -/
theorem Keyed.register {requests : List (ℕ × List UInt8)} {request : Envelope} (h : g.Keyed)
    (hrequests : g.requests = (task, body) :: requests) (hdecode : decodeBody body = .ok request)
    (hnew : request.correlationId ∉ g.pending.map Prod.fst) :
    ({ g with requests, pending := g.pending ++ [(request.correlationId, task)] } :
      Dispatcher ε).Keyed := by
  have hdequeue := h.dequeue hrequests
  refine ⟨?_, ?_, h.submitted, h.accepted, h.reading, hdequeue.requests, fun entry hentry ↦ ?_,
    h.handed, h.responding, h.delivered, h.awaited⟩
  · rw [List.map_append, List.map_singleton, ← List.concat_eq_append]
    exact h.keys.concat hnew
  · have htaken := h.taken
    rw [Dispatcher.taken, hrequests, List.map_cons, List.append_cons] at htaken
    rw [Dispatcher.taken, List.map_append]
    exact htaken
  · rcases List.mem_append.mp hentry with hentry | hentry
    · exact h.pending entry hentry
    · obtain rfl := List.mem_singleton.mp hentry
      exact ⟨body, request, h.requests _ (hrequests ▸ List.mem_cons_self), hdecode, rfl⟩

/-- The loop takes a request off the pending ones. -/
theorem Keyed.release (h : g.Keyed) (correlationId : Bytes 16) :
    ({ g with pending := g.pending.filter fun entry ↦ entry.1 ≠ correlationId } :
      Dispatcher ε).Keyed := by
  refine ⟨h.keys.sublist (List.filter_sublist.map _), ?_, h.submitted, h.accepted, h.reading,
    h.requests, fun entry hentry ↦ h.pending entry (List.mem_filter.mp hentry).1, h.handed,
    h.responding, h.delivered, h.awaited⟩
  exact (((List.filter_sublist.map _).append_right _).append_left _).subperm.trans h.taken

/-- The loop hands a response to the request that it has taken off the pending ones. -/
theorem Keyed.hand {correlationId : Bytes 16} {response : Envelope} (h : g.Keyed)
    (hfind : g.pending.find? (fun entry ↦ entry.1 = correlationId) = some (correlationId, task))
    (hdecode : decodeBody body = .ok response)
    (hcorrelation : response.correlationId = correlationId) :
    ({ g with
      pending := g.pending.filter fun entry ↦ entry.1 ≠ correlationId
      handed := g.handed ++ [(task, body)] } : Dispatcher ε).Keyed := by
  have hrelease := h.release correlationId
  have hmem : (correlationId, task) ∈ g.pending := List.mem_of_find?_eq_some hfind
  have hmono {task' : ℕ} {body' : List UInt8} (hhanded : g.Handed task' body') :
      (task', body') ∈ g.handed ++ [(task, body)] ∨ acknowledges body' = none :=
    hhanded.imp_left (List.mem_append_left _)
  refine ⟨hrelease.keys, ?_, h.submitted, h.accepted, h.reading, h.requests, hrelease.pending,
    fun entry hentry ↦ ?_, fun task' body' a htask' ↦ hmono (h.responding task' body' a htask'),
    fun task' body' hbody' ↦ hmono (h.delivered task' body' hbody'), h.awaited⟩
  · -- what is taken off the pending ones is handed
    have hperm : (g.pending.filter (fun entry ↦ decide (entry.1 = correlationId)) ++
        g.pending.filter fun entry ↦ !decide (entry.1 = correlationId)).Perm g.pending :=
      List.filter_append_perm ..
    have hone : [(correlationId, task)].Sublist
        (g.pending.filter fun entry ↦ decide (entry.1 = correlationId)) :=
      List.singleton_sublist.mpr (List.mem_filter.mpr ⟨hmem, by simp⟩)
    have hpending : (task :: (g.pending.filter fun entry ↦ entry.1 ≠ correlationId).map
        Prod.snd).Subperm (g.pending.map Prod.snd) := by
      have hsub := ((hone.map Prod.snd).append_right _).subperm.trans
        (List.map_append ▸ hperm.map Prod.snd).subperm
      simpa only [decide_not, List.map_cons, List.map_nil, List.cons_append, List.nil_append]
        using hsub
    rw [Dispatcher.taken, List.map_append, List.map_singleton, List.append_assoc]
    exact ((List.Subperm.refl _).append (hpending.append (List.Subperm.refl _))).trans h.taken
  · rcases List.mem_append.mp hentry with hentry | hentry
    · exact h.handed entry hentry
    · obtain rfl := List.mem_singleton.mp hentry
      exact ⟨response, hdecode, hcorrelation ▸ h.pending _ hmem⟩

theorem respond_eq_some_iff {acknowledges : Bool} :
    g.respond task body acknowledges = some g' ↔ g.tasks[task]? = some .waiting ∧
      g' = g.setTask task (.responding body acknowledges) := by
  rw [respond.eq_def]
  split
  · rename_i htask
    rw [Option.some_inj, eq_comm, and_iff_right htask]
  · rename_i hne
    exact ⟨fun h ↦ absurd h (by simp), fun h ↦ absurd h.1 (by simpa using hne)⟩

theorem hand_eq_some_iff {acknowledges : Bool} :
    g.hand task body acknowledges = some g' ↔ g.tasks[task]? = some .waiting ∧
      g' = { g.setTask task (.responding body acknowledges) with
        handed := g.handed ++ [(task, body)] } := by
  rw [hand, Option.map_eq_some_iff]
  constructor
  · rintro ⟨g₁, h, rfl⟩
    obtain ⟨htask, rfl⟩ := respond_eq_some_iff.mp h
    exact ⟨htask, rfl⟩
  · rintro ⟨htask, rfl⟩
    exact ⟨_, respond_eq_some_iff.mpr ⟨htask, rfl⟩, rfl⟩

variable {envelope : Envelope}

theorem Keyed.routeResponse (h : g.Keyed) (hbusy : g.busy = none)
    (hdecode : decodeBody body = .ok envelope) : (g.routeResponse body envelope).Keyed := by
  rw [Dispatcher.routeResponse.eq_def]
  split
  · exact h.leave _
  · rename_i correlationId task hfind
    obtain rfl : correlationId = envelope.correlationId := by
      simpa using List.find?_some hfind
    have hrelease := h.release envelope.correlationId
    have hhand := h.hand hfind hdecode rfl
    have hresponding (acknowledges : Bool) :
        (({ g with
          pending := g.pending.filter fun entry ↦ entry.1 ≠ envelope.correlationId
          handed := g.handed ++ [(task, body)] } : Dispatcher ε).setTask task
            (.responding body acknowledges)).Keyed := by
      refine hhand.setTask (by simp) (fun body' a heq ↦ ?_) fun body' hbusy' ↦ ?_
      · obtain ⟨rfl, -⟩ := RequestTask.responding.inj heq
        exact .inl (List.mem_append_right _ (List.mem_singleton_self _))
      · exact absurd (hbusy.symm.trans hbusy') (by simp)
    dsimp only
    split_ifs
    · split
      · exact hrelease.leave _
      · rename_i g' hg'
        obtain ⟨htask, rfl⟩ := hand_eq_some_iff.mp hg'
        obtain ⟨hlt, -⟩ := List.getElem?_eq_some_iff.mp htask
        have hk := hresponding true
        refine ⟨hk.keys, hk.taken, hk.submitted, hk.accepted, hk.reading, hk.requests, hk.pending,
          hk.handed, hk.responding, hk.delivered, fun task' body' hbusy' ↦ .inl ?_⟩
        obtain ⟨rfl, rfl⟩ := Busy.acknowledgement.inj (Option.some_inj.mp hbusy')
        exact List.getElem?_set_self hlt
    · cases hg' : ({ g with
          pending := g.pending.filter fun entry ↦ entry.1 ≠ envelope.correlationId } :
            Dispatcher ε).hand task body false with
      | none => exact hrelease
      | some g' =>
        obtain ⟨-, rfl⟩ := hand_eq_some_iff.mp hg'
        exact hresponding false

theorem Keyed.route (h : g.Keyed) (hbusy : g.busy = none) : (g.route fault body).Keyed := by
  rw [Dispatcher.route.eq_def]
  split
  · exact h.leave _
  · rename_i hdecode
    split_ifs
    · split
      · exact h.leave _
      · refine ⟨h.keys, h.taken, h.submitted, h.accepted, h.reading, h.requests, h.pending,
          h.handed, h.responding, fun task' body' hmem ↦ ?_, fun task' body' hbusy' ↦
            absurd hbusy' (by simp)⟩
        rcases List.mem_append.mp hmem with hmem | hmem
        · exact h.delivered task' body' hmem
        · exact absurd (List.mem_singleton.mp hmem) (by simp)
    · exact h.routeResponse hbusy hdecode

theorem Keyed.receiveOutput (h : g.Keyed) (hbusy : g.busy = none)
    (hstep : g.receiveOutput fault = some g') : g'.Keyed := by
  rw [Dispatcher.receiveOutput.eq_def] at hstep
  split at hstep
  · split_ifs at hstep
    obtain rfl := Option.some_inj.mp hstep
    exact h.leave _
  · obtain rfl := Option.some_inj.mp hstep
    exact h.leave _
  · obtain rfl := Option.some_inj.mp hstep
    exact h.leave _
  · rename_i body sessionOutput _
    obtain rfl := Option.some_inj.mp hstep
    have hdrop : ({ g with sessionOutput } : Dispatcher ε).Keyed :=
      ⟨h.keys, h.taken, h.submitted, h.accepted, h.reading, h.requests, h.pending, h.handed,
        h.responding, h.delivered, h.awaited⟩
    exact hdrop.route hbusy

theorem acknowledges_manifestResponse {manifest : Option (List UInt8)}
    (h : manifestResponse manifest envelope = .ok (some body)) : acknowledges body = none := by
  cases manifest with
  | none => exact absurd h (by simp [manifestResponse])
  | some manifest =>
    rw [manifestResponse] at h
    split at h
    · exact absurd h (by simp)
    · cases hencode : encodeBody
          ⟨envelope.correlationId, certificateManifestResponse, manifest, version⟩ with
      | error error =>
        rw [hencode] at h
        exact absurd h (by simp [Except.map])
      | ok body' =>
        rw [hencode] at h
        obtain rfl := Option.some_inj.mp (Except.ok.inj h)
        exact acknowledges_of_ne (decodeBody_encodeBody hencode).2 (by dsimp only; decide)

theorem Keyed.receiveRequest {manifest : Option (List UInt8)} (h : g.Keyed) (hbusy : g.busy = none)
    (hstep : g.receiveRequest manifest fault = some g') : g'.Keyed := by
  rw [Dispatcher.receiveRequest.eq_def] at hstep
  split at hstep
  · exact absurd hstep (by simp)
  · rename_i task body requests hrequests
    have hdequeue := h.dequeue hrequests
    dsimp only at hstep
    split at hstep
    · obtain rfl := Option.some_inj.mp hstep
      exact hdequeue.leave _
    · rename_i request hdecode
      split at hstep
      · obtain rfl := Option.some_inj.mp hstep
        exact hdequeue.leave _
      · rename_i response hmanifest
        obtain rfl := Option.some_inj.mp hstep
        cases hrespond : ({ g with requests } : Dispatcher ε).respond task response false with
        | none => exact hdequeue
        | some g' =>
          obtain ⟨-, rfl⟩ := respond_eq_some_iff.mp hrespond
          refine hdequeue.setTask (by simp) (fun body' a heq ↦ .inr ?_) fun body' hbusy' ↦ ?_
          · obtain ⟨rfl, -⟩ := RequestTask.responding.inj heq
            exact acknowledges_manifestResponse hmanifest
          · exact absurd (hbusy.symm.trans hbusy') (by simp)
      · obtain rfl := Option.some_inj.mp hstep
        rw [Dispatcher.forward.eq_def]
        split_ifs with hfull hduplicate
        · exact hdequeue.leave _
        · exact hdequeue.leave _
        · have hnew : request.correlationId ∉ g.pending.map Prod.fst := by
            simpa using hduplicate
          have hregister := h.register hrequests hdecode hnew
          dsimp only
          split
          · exact hregister.leave _
          · exact ⟨hregister.keys, hregister.taken, hregister.submitted, hregister.accepted,
              hregister.reading, hregister.requests, hregister.pending, hregister.handed,
              hregister.responding, hregister.delivered, hregister.awaited⟩

theorem Keyed.resume (h : g.Keyed) (hstep : g.resume fault = some g') : g'.Keyed := by
  have hidle : ({ g with busy := none } : Dispatcher ε).Keyed :=
    ⟨h.keys, h.taken, h.submitted, h.accepted, h.reading, h.requests, h.pending, h.handed,
      h.responding, h.delivered, by simp⟩
  rw [Dispatcher.resume.eq_def] at hstep
  split at hstep
  · exact absurd hstep (by simp)
  · split at hstep
    · obtain rfl := Option.some_inj.mp hstep
      exact h.leave _
    · obtain rfl := Option.some_inj.mp hstep
      exact hidle
  · split at hstep
    · obtain rfl := Option.some_inj.mp hstep
      exact hidle
    · obtain rfl := Option.some_inj.mp hstep
      exact h.leave _
    · exact absurd hstep (by simp)

theorem Keyed.join (h : g.Keyed) (hbusy : g.busy = none) (hstep : g.join task = some g') :
    g'.Keyed := by
  rw [Dispatcher.join.eq_def] at hstep
  split at hstep
  · obtain rfl := Option.some_inj.mp hstep
    exact h.setTask (by simp) (by simp) fun body hbusy' ↦ absurd (hbusy.symm.trans hbusy') (by simp)
  · obtain rfl := Option.some_inj.mp hstep
    exact h.leave _
  · exact absurd hstep (by simp)

theorem Keyed.readOutput {fault : Option (ReadBodyError ε)} {written : List (List UInt8)}
    {closed : Bool} (h : g.Keyed) (hstep : g.readOutput fault written closed = some g') :
    g'.Keyed := by
  rw [Dispatcher.readOutput] at hstep
  split_ifs at hstep
  obtain ⟨frame, -, rfl⟩ := Option.map_eq_some_iff.mp hstep
  exact ⟨h.keys, h.taken, h.submitted, h.accepted, h.reading, h.requests, h.pending, h.handed,
    h.responding, h.delivered, h.awaited⟩

/-- **Every step keeps requests and responses together.** -/
theorem Keyed.step {manifest : Option (List UInt8)} {written : List (List UInt8)} {closed : Bool}
    {action : DispatcherAction ε} (h : g.Keyed)
    (hstep : g.step manifest written closed action = some g') : g'.Keyed := by
  rw [Dispatcher.step.eq_def] at hstep
  split_ifs at hstep
  split at hstep
  · exact h.submit hstep
  · exact h.deliver hstep
  · exact h.readOutput hstep
  · exact h.resume hstep
  · exact Option.some_inj.mp hstep ▸ h.accept _
  · exact h.receiveRequest ‹_› hstep
  · exact h.receiveOutput ‹_› hstep
  · exact h.join ‹_› hstep
  · exact Option.some_inj.mp hstep ▸ h.leave _
  · exact absurd hstep (by simp)

end Dispatcher

/-! ## Frames of the session -/

/-- The subscription that a delivery acknowledges. -/
def Delivery.acknowledges : Delivery → Option SubscriptionKey
  | .response _ body => Wire.acknowledges body
  | .event _ => none

/-- The subscription that a delivery is an event of. -/
def Delivery.concerns : Delivery → Option SubscriptionKey
  | .response _ _ => none
  | .event body => Wire.concerns body

/-- The event that has been opened. -/
def Delivery.opened : Delivery → Option (List UInt8)
  | .response _ _ => none
  | .event body => some body

namespace Dispatcher

/-- The frames of the session that the loop has yet to receive. -/
def arriving (g : Dispatcher ε) (written : List (List UInt8)) : List (List UInt8) :=
  bodiesOf g.sessionOutput ++ written.drop g.count

/-- The events that have been opened. -/
def opened (g : Dispatcher ε) : List (List UInt8) := g.transport.filterMap Delivery.opened

/-- The subscription whose acknowledgement the loop waits for. -/
def awaited (g : Dispatcher ε) : Set SubscriptionKey :=
  {key | ∃ task body, g.busy = some (.acknowledgement task body) ∧ key ∈ acknowledges body}

/-- The subscriptions whose acknowledgement has been delivered, or will have been before anything
else. -/
def known (g : Dispatcher ε) : Set SubscriptionKey :=
  SharedLine.after Delivery.acknowledges g.awaited g.transport

/-- What a step can do to the frames of the session. -/
inductive Moves (written : List (List UInt8)) (g g' : Dispatcher ε) : Prop
  | quiet (arriving : g'.arriving written = g.arriving written)
      (transport : g'.transport = g.transport ∨
        ∃ task body, g'.transport = g.transport ++ [.response task body])
      (handed : g'.handed = g.handed) (known : g'.ended = none → g.known ⊆ g'.known)
  /-- The loop is left; the frame it has received is lost. -/
  | lose (arriving : (g'.arriving written).Sublist (g.arriving written))
      (transport : g'.transport = g.transport) (handed : g'.handed = g.handed)
      (ended : g'.ended ≠ none)
  /-- Nobody receives a response any more. -/
  | skip (body : List UInt8) (arriving : g.arriving written = body :: g'.arriving written)
      (response : isEvent body = false) (acks : acknowledges body = none)
      (transport : g'.transport = g.transport) (handed : g'.handed = g.handed)
      (known : g.known ⊆ g'.known)
  | event (body : List UInt8) (arriving : g.arriving written = body :: g'.arriving written)
      (event : isEvent body = true) (idle : g.busy = none)
      (transport : g'.transport = g.transport ++ [.event body]) (handed : g'.handed = g.handed)
      (known : g.known ⊆ g'.known)
  | hand (task : ℕ) (body : List UInt8) (envelope : Envelope)
      (arriving : g.arriving written = body :: g'.arriving written)
      (response : isEvent body = false) (decode : decodeBody body = .ok envelope)
      (pending : (envelope.correlationId, task) ∈ g.pending)
      (released : g'.pending = g.pending.filter fun entry ↦ entry.1 ≠ envelope.correlationId)
      (transport : g'.transport = g.transport) (handed : g'.handed = g.handed ++ [(task, body)])
      (known : g.known ∪ {key | key ∈ acknowledges body} ⊆ g'.known)

variable {g g' : Dispatcher ε} {task : ℕ} {body : List UInt8} {fault : Option ε}
  {written : List (List UInt8)} {envelope : Envelope}

theorem known_subset (hbusy : g'.busy = g.busy ∨ g.busy = none)
    (htransport : g.transport ⊆ g'.transport) : g.known ⊆ g'.known := by
  refine after_subset ?_ fun delivery hdelivery key hkey ↦
    mem_after_of_mem (htransport hdelivery) hkey
  rintro key ⟨task, body, hawaits, hkey⟩
  rcases hbusy with hbusy | hbusy
  · exact mem_after_of_known ⟨task, body, hbusy.trans hawaits, hkey⟩
  · exact absurd (hbusy.symm.trans hawaits) (by simp)

/-- What steps other than those of the routing leave as it is. -/
def routing (g : Dispatcher ε) :
    List (BodyResult ε) × ℕ × List Delivery × List (ℕ × List UInt8) × Option Busy :=
  (g.sessionOutput, g.count, g.transport, g.handed, g.busy)

theorem moves_of_routing (h : g'.routing = g.routing) : g.Moves written g' := by
  simp only [routing, Prod.mk.injEq] at h
  obtain ⟨houtput, hcount, htransport, hhanded, hbusy⟩ := h
  refine .quiet ?_ (.inl htransport) hhanded fun _ ↦
    known_subset (.inl hbusy) (htransport ▸ List.Subset.refl _)
  rw [arriving, arriving, houtput, hcount]

theorem routing_submit {request : Except (RelayError ε) (Option (List UInt8))}
    (h : g.submit task request = some g') : g'.routing = g.routing := by
  rw [submit.eq_def] at h
  split at h
  · split at h
    · exact Option.some_inj.mp h ▸ rfl
    · exact Option.some_inj.mp h ▸ rfl
    · split_ifs at h
      exact Option.some_inj.mp h ▸ rfl
  · exact absurd h (by simp)

theorem routing_accept (stream : Bool) : (g.accept stream).routing = g.routing := by
  rw [accept]
  split_ifs <;> rfl

theorem routing_join (h : g.join task = some g') : g'.routing = g.routing := by
  rw [join.eq_def] at h
  split at h
  · exact Option.some_inj.mp h ▸ rfl
  · exact Option.some_inj.mp h ▸ rfl
  · exact absurd h (by simp)

theorem routing_forward : (g.forward fault task body envelope).routing = g.routing := by
  rw [forward.eq_def]
  split_ifs
  · rfl
  · rfl
  · dsimp only
    split <;> rfl

theorem routing_receiveRequest {manifest : Option (List UInt8)}
    (h : g.receiveRequest manifest fault = some g') : g'.routing = g.routing := by
  rw [receiveRequest.eq_def] at h
  split at h
  · exact absurd h (by simp)
  · rename_i task body requests hrequests
    dsimp only at h
    split at h
    · exact Option.some_inj.mp h ▸ rfl
    · split at h
      · exact Option.some_inj.mp h ▸ rfl
      · rename_i response _
        obtain rfl := Option.some_inj.mp h
        cases hrespond : ({ g with requests } : Dispatcher ε).respond task response false with
        | none => rfl
        | some g' =>
          obtain ⟨-, rfl⟩ := respond_eq_some_iff.mp hrespond
          rfl
      · exact Option.some_inj.mp h ▸ routing_forward

theorem moves_deliver (h : g.deliver task fault = some g') : g.Moves written g' := by
  rw [deliver.eq_def] at h
  split at h
  · rename_i body _ _
    split at h
    · exact moves_of_routing (Option.some_inj.mp h ▸ rfl)
    · obtain rfl := Option.some_inj.mp h
      exact .quiet rfl (.inr ⟨task, body, rfl⟩) rfl fun _ ↦
        known_subset (.inl rfl) (List.subset_append_left ..)
  · exact absurd h (by simp)

/-- What has been waited for has been delivered. -/
theorem known_subset_idle (h : ∀ task body, g.busy = some (.acknowledgement task body) →
    .response task body ∈ g.transport) : g.known ⊆ ({ g with busy := none } :
      Dispatcher ε).known := by
  refine after_subset ?_ fun delivery hdelivery key hkey ↦ mem_after_of_mem hdelivery hkey
  rintro key ⟨task, body, hawaits, hkey⟩
  have hdelivered : key ∈ Delivery.acknowledges (.response task body) := hkey
  exact mem_after_of_mem (h task body hawaits) hdelivered

theorem moves_resume (hkeyed : g.Keyed) (h : g.resume fault = some g') : g.Moves written g' := by
  rw [resume.eq_def] at h
  split at h
  · exact absurd h (by simp)
  · rename_i body hbusy
    split at h
    · exact moves_of_routing (Option.some_inj.mp h ▸ rfl)
    · obtain rfl := Option.some_inj.mp h
      refine .quiet rfl (.inl rfl) rfl fun _ ↦ known_subset_idle fun task body' hawaits ↦ ?_
      exact absurd (hbusy.symm.trans hawaits) (by simp)
  · rename_i task body hbusy
    split at h
    · rename_i htask
      obtain rfl := Option.some_inj.mp h
      refine .quiet rfl (.inl rfl) rfl fun _ ↦ known_subset_idle fun task' body' hawaits ↦ ?_
      obtain ⟨rfl, rfl⟩ := Busy.acknowledgement.inj (Option.some_inj.mp (hbusy.symm.trans hawaits))
      -- the task has finished because it has delivered the acknowledgement
      rcases hkeyed.awaited task body hbusy with htask' | ⟨result, htask', hresult⟩
      · exact absurd (htask.symm.trans htask') (by simp)
      · obtain rfl := RequestTask.finished.inj (Option.some_inj.mp (htask.symm.trans htask'))
        exact hresult rfl
    · exact moves_of_routing (Option.some_inj.mp h ▸ rfl)
    · exact absurd h (by simp)

theorem moves_readOutput {fault : Option (ReadBodyError ε)} {closed : Bool}
    (hcount : g.count ≤ written.length) (h : g.readOutput fault written closed = some g') :
    g.Moves written g' ∧ g'.count ≤ written.length := by
  rw [readOutput] at h
  split_ifs at h
  obtain ⟨frame, hframe, rfl⟩ := Option.map_eq_some_iff.mp h
  obtain ⟨hdrop, hcount'⟩ := bodiesOf_nextFrame hframe hcount
  refine ⟨.quiet ?_ (.inl rfl) rfl fun _ ↦ known_subset (.inl rfl) (List.Subset.refl _), hcount'⟩
  rw [arriving, arriving, bodiesOf_append, List.append_assoc, ← hdrop]

/-- A response is routed to the request that is pending under its correlation identifier. -/
theorem moves_routeResponse {sessionOutput : List (BodyResult ε)} (hbusy : g.busy = none)
    (harriving : g.arriving written =
      body :: ({ g with sessionOutput } : Dispatcher ε).arriving written)
    (hresponse : isEvent body = false) (hdecode : decodeBody body = .ok envelope) :
    g.Moves written (({ g with sessionOutput } : Dispatcher ε).routeResponse body envelope) := by
  rw [routeResponse.eq_def]
  split
  · exact .lose (harriving ▸ List.sublist_cons_self ..) rfl rfl (by simp [leave])
  · rename_i correlationId task hfind
    obtain rfl : correlationId = envelope.correlationId := by
      simpa using List.find?_some hfind
    have hpending : (envelope.correlationId, task) ∈ g.pending := List.mem_of_find?_eq_some hfind
    dsimp only
    split_ifs with hack
    · split
      · exact .lose (harriving ▸ List.sublist_cons_self ..) rfl rfl (by simp [leave])
      · rename_i g' hg'
        obtain ⟨-, rfl⟩ := hand_eq_some_iff.mp hg'
        refine .hand task body envelope harriving hresponse hdecode hpending rfl rfl rfl ?_
        refine Set.union_subset (known_subset (.inr hbusy) (List.Subset.refl _)) fun key hkey ↦ ?_
        exact mem_after_of_known ⟨task, body, rfl, hkey⟩
    · have hnone := acknowledges_of_ne hdecode hack
      cases hg' : ({ g with
          sessionOutput
          pending := g.pending.filter fun entry ↦ entry.1 ≠ envelope.correlationId } :
            Dispatcher ε).hand task body false with
      | none =>
        exact .skip body harriving hresponse hnone rfl rfl
          (known_subset (.inl rfl) (List.Subset.refl _))
      | some g' =>
        obtain ⟨-, rfl⟩ := hand_eq_some_iff.mp hg'
        refine .hand task body envelope harriving hresponse hdecode hpending rfl rfl rfl ?_
        refine Set.union_subset (known_subset (.inl rfl) (List.Subset.refl _)) fun key hkey ↦ ?_
        exact absurd (hnone ▸ hkey : key ∈ (none : Option SubscriptionKey)) (by simp)

theorem moves_receiveOutput (hbusy : g.busy = none) (h : g.receiveOutput fault = some g') :
    g.Moves written g' := by
  rw [receiveOutput.eq_def] at h
  split at h
  · split_ifs at h
    exact moves_of_routing (Option.some_inj.mp h ▸ rfl)
  · exact moves_of_routing (Option.some_inj.mp h ▸ rfl)
  · exact moves_of_routing (Option.some_inj.mp h ▸ rfl)
  · rename_i body sessionOutput houtput
    obtain rfl := Option.some_inj.mp h
    have harriving : g.arriving written =
        body :: ({ g with sessionOutput } : Dispatcher ε).arriving written := by
      rw [arriving, houtput]
      rfl
    rw [route.eq_def]
    split
    · exact .lose (harriving ▸ List.sublist_cons_self ..) rfl rfl (by simp [leave])
    · rename_i envelope hdecode
      split_ifs with hevent
      · split
        · exact .lose (harriving ▸ List.sublist_cons_self ..) rfl rfl (by simp [leave])
        · exact .event body harriving ((isEvent_of_decodeBody hdecode).trans hevent) hbusy rfl rfl
            (known_subset (.inr hbusy) (List.subset_append_left ..))
      · exact moves_routeResponse hbusy harriving
          ((isEvent_of_decodeBody hdecode).trans (by simpa using hevent)) hdecode

theorem count_deliver (h : g.deliver task fault = some g') : g'.count = g.count := by
  rw [deliver.eq_def] at h
  split at h
  · split at h <;> exact Option.some_inj.mp h ▸ rfl
  · exact absurd h (by simp)

theorem count_resume (h : g.resume fault = some g') : g'.count = g.count := by
  rw [resume.eq_def] at h
  split at h
  · exact absurd h (by simp)
  · split at h <;> exact Option.some_inj.mp h ▸ rfl
  · split at h
    · exact Option.some_inj.mp h ▸ rfl
    · exact Option.some_inj.mp h ▸ rfl
    · exact absurd h (by simp)

theorem count_routeResponse : (g.routeResponse body envelope).count = g.count := by
  rw [routeResponse.eq_def]
  split
  · rfl
  · rename_i task _
    dsimp only
    split_ifs
    · split
      · rfl
      · rename_i hg'
        obtain ⟨-, rfl⟩ := hand_eq_some_iff.mp hg'
        rfl
    · cases hg' : ({ g with
          pending := g.pending.filter fun entry ↦ entry.1 ≠ envelope.correlationId } :
            Dispatcher ε).hand task body false with
      | none => rfl
      | some g' =>
        obtain ⟨-, rfl⟩ := hand_eq_some_iff.mp hg'
        rfl

theorem count_receiveOutput (h : g.receiveOutput fault = some g') : g'.count = g.count := by
  rw [receiveOutput.eq_def] at h
  split at h
  · split_ifs at h
    exact Option.some_inj.mp h ▸ rfl
  · exact Option.some_inj.mp h ▸ rfl
  · exact Option.some_inj.mp h ▸ rfl
  · obtain rfl := Option.some_inj.mp h
    rw [route.eq_def]
    split
    · rfl
    · split_ifs
      · split <;> rfl
      · exact count_routeResponse

theorem running_of_step {manifest : Option (List UInt8)} {closed : Bool}
    {action : DispatcherAction ε} (h : g.step manifest written closed action = some g') :
    g.ended = none := by
  rw [step.eq_def] at h
  split at h
  · exact absurd h (by simp)
  · rename_i hended
    simpa using hended

/-- **What a step of the dispatcher does to the frames of the session.** -/
theorem step_moves {manifest : Option (List UInt8)} {closed : Bool} {action : DispatcherAction ε}
    (hkeyed : g.Keyed) (hcount : g.count ≤ written.length)
    (h : g.step manifest written closed action = some g') :
    g.Moves written g' ∧ g'.count ≤ written.length := by
  have hrouting (hsame : g'.routing = g.routing) : g.Moves written g' ∧ g'.count ≤ written.length :=
    ⟨moves_of_routing hsame, (congrArg (·.2.1) hsame).trans_le hcount⟩
  rw [step.eq_def] at h
  split_ifs at h
  split at h
  · exact hrouting (routing_submit h)
  · exact ⟨moves_deliver h, (count_deliver h).trans_le hcount⟩
  · exact moves_readOutput hcount h
  · exact ⟨moves_resume hkeyed h, (count_resume h).trans_le hcount⟩
  · exact hrouting (Option.some_inj.mp h ▸ routing_accept _)
  · exact hrouting (routing_receiveRequest h)
  · exact ⟨moves_receiveOutput ‹_› h, (count_receiveOutput h).trans_le hcount⟩
  · exact hrouting (routing_join h)
  · exact hrouting (Option.some_inj.mp h ▸ rfl)
  · exact absurd h (by simp)

end Dispatcher

end Renee.Gateway
