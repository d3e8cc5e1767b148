import Renee.Model.UpdateAgreement
import Renee.Store.EnumerationReader
import Renee.Store.VectorReader

/-!
# The store beside the update oracle

`UpdateConformance` is a store and an oracle, as the conformance tests run them: the store receives
every request, and the oracle the updates of the accepts that are authorized.  Creations, grants,
revocations, retirements and the operator come between them as they like, on any documents.

* `Related.sendAll` is the run lemma: whatever is sent, the two stay related.
* `update_model_simulated` is what a client sees of it: outcomes, payloads, windows and backfills
  are those of the oracle, and what has been accepted stays as it is in both.
-/

set_option autoImplicit false

namespace Renee

open ByteString

/-! ## Running both -/

/-- A store and an oracle. -/
structure UpdateConformance where
  store : DurableUpdateStore
  oracle : UpdateModel

section Hash

variable (sha256 : List UInt8 → Bytes verifierLength)

/-- What the oracle makes of a request to a store with the given tables. -/
def UpdateModel.hear (m : UpdateModel) (t : Tables) : Request → UpdateModel
  | .accept r =>
    if authorize sha256 t r.update.documentId r.capabilityId r.authenticator .update then
      (m.accept r.update).2
    else m
  | _ => m

namespace UpdateConformance

/-- Both before anything has been accepted. -/
def start : UpdateConformance := ⟨.initial, .empty⟩

/-- One request, to both. -/
def send (c : UpdateConformance) (request : Request) : UpdateConformance :=
  ⟨c.store.step sha256 request, c.oracle.hear sha256 c.store.tables request⟩

def sendAll (c : UpdateConformance) (requests : List Request) : UpdateConformance :=
  requests.foldl (send sha256) c

/-- Related, and in order. -/
structure Related (c : UpdateConformance) : Prop where
  wellFormed : WellFormed c.store.tables
  agrees : c.oracle.Agrees c.store.tables

end UpdateConformance

end Hash

/-! ## What a run keeps -/

namespace UpdateConformance

variable {sha256 : List UInt8 → Bytes verifierLength} {c : UpdateConformance}

theorem store_sendAll (c : UpdateConformance) (requests : List Request) :
    (c.sendAll sha256 requests).store = c.store.run sha256 requests := by
  induction requests generalizing c with
  | nil => rfl
  | cons request requests ih => exact ih (c.send sha256 request)

theorem related_start : start.Related :=
  ⟨DurableUpdateStore.wellFormed_initial, UpdateModel.agrees_empty⟩

theorem accept_fst (s : DurableUpdateStore) (r : AcceptCommand) :
    (s.accept sha256 r).1 = (Renee.accept sha256 s.tables r.capabilityId r.authenticator r.update
      r.encodedRecord).1 := by
  simp only [DurableUpdateStore.accept]
  split <;> rfl

/-- What is not an accept does not concern the oracle, and changes nothing that does. -/
theorem Related.send_of_ne (h : c.Related) {request : Request} (hne : ∀ r, request ≠ .accept r) :
    (c.send sha256 request).Related := by
  have hhear : c.oracle.hear sha256 c.store.tables request = c.oracle := by
    cases request with
    | accept r => exact absurd rfl (hne r)
    | _ => rfl
  refine ⟨DurableUpdateStore.wellFormed_step h.wellFormed request, ?_⟩
  rw [UpdateConformance.send, hhear]
  rcases DurableUpdateStore.effect_step sha256 c.store request with heq | ⟨m, hm, heffect⟩
  · rw [heq]
    exact h.agrees
  · refine h.agrees.of_effect heffect fun r hr ↦ ?_
    subst hr
    cases request with
    | accept r' => exact hne r' rfl
    | _ => exact absurd hm (by simp [Request.mutation?])

/-- An accept is for both, or for neither. -/
theorem Related.send_accept (h : c.Related) (r : AcceptCommand) :
    (c.send sha256 (.accept r)).Related := by
  have htables : (c.store.step sha256 (.accept r)).tables = (Renee.accept sha256 c.store.tables
      r.capabilityId r.authenticator r.update r.encodedRecord).2 :=
    DurableUpdateStore.tables_step sha256 c.store (.accept r)
  refine ⟨DurableUpdateStore.wellFormed_step h.wellFormed (.accept r), ?_⟩
  simp only [UpdateConformance.send, UpdateModel.hear, htables]
  by_cases hauth : authorize sha256 c.store.tables r.update.documentId r.capabilityId
    r.authenticator .update = true
  · rw [if_pos hauth]
    exact (UpdateModel.accept_agrees h.agrees h.wellFormed.log r hauth).2
  · rw [if_neg hauth, UpdateModel.accept_of_unauthorized r hauth]
    exact h.agrees

/-- **One request keeps the two related.** -/
theorem Related.send (h : c.Related) (request : Request) : (c.send sha256 request).Related := by
  cases request with
  | accept r => exact h.send_accept r
  | _ => exact h.send_of_ne (by simp)

/-- **So does any run.** -/
theorem Related.sendAll (h : c.Related) (requests : List Request) :
    (c.sendAll sha256 requests).Related := by
  induction requests generalizing c with
  | nil => exact h
  | cons request requests ih => exact ih (h.send request)

end UpdateConformance

/-! ## What is read -/

section Read

variable {m : UpdateModel} {t : Tables} {d : DocumentId} {reader : EnumerationReader}
  {terminal : AcceptanceSequence}

/-- What a client has read in a pass is what the oracle shows: in every window it has finished, and
from the beginning when it waits for what comes after its tail.  The first window ends with
`terminal`, and each starts where the one before has ended. -/
structure EnumerationReader.Reads (reader : EnumerationReader) (m : UpdateModel) (d : DocumentId)
    (terminal : AcceptanceSequence) : Prop where
  first : ∃ w, (reader.current :: reader.finished).getLast? = some w ∧
    w.lower = .origin ∧ w.upper = terminal
  chain : (reader.current :: reader.finished).IsChain fun w w' ↦ w.lower = w'.upper
  finished : ∀ w ∈ reader.finished,
    (m.enumerate d (some w.lower) w.upper).map (List.map Prod.snd) = some w.updates
  current : reader.mode = .afterTail →
    (m.enumerate d (some reader.current.lower) reader.current.upper).map (List.map Prod.snd) =
      some reader.current.updates
  read : reader.mode = .afterTail →
    (m.enumerate d none reader.current.upper).map (List.map Prod.snd) = some reader.read

theorem AcceptanceSequence.origin_le (sequence : AcceptanceSequence) :
    AcceptanceSequence.origin ≤ sequence :=
  AcceptanceSequence.le_def.mpr (Nat.zero_le _)

/-- **What is exact of the tables is what the oracle shows.** -/
theorem EnumerationReader.Exact.reads (h : reader.Exact t d terminal) (hw : UpdatesWellFormed t)
    (hm : m.Agrees t) : reader.Reads m d terminal where
  first := h.first
  chain := h.chain
  finished w hmem := by
    obtain ⟨hlt, -, hupdates⟩ := h.finished w hmem
    rw [hupdates]
    exact hm.window_eq hw (AcceptanceSequence.le_def.mpr hlt.le)
  current hmode := by
    rw [h.current_eq hw hmode]
    exact hm.window_eq hw (AcceptanceSequence.le_def.mpr h.lower_lt.le)
  read hmode := by
    rw [(h.read_prefix hw).2 hmode]
    exact hm.window_eq hw (AcceptanceSequence.origin_le _)

/-- The oracle selects from its windows what a version selects from those of the log. -/
theorem UpdateModel.Agrees.vectorBackfill_eq (hm : m.Agrees t) (hw : UpdatesWellFormed t)
    (v : LoroOplogVersion) :
    (m.vectorBackfill d v none terminal).map (List.map Prod.snd) =
      some (v.select (t.window d .origin terminal)) := by
  have hwindow : (m.acceptanceWindow d none terminal).map (List.map Prod.snd) =
      some (t.window d .origin terminal) := hm.window_eq hw (AcceptanceSequence.origin_le _)
  rw [UpdateModel.vectorBackfill_eq, hwindow, Option.map_some]

/-- The log as far as it goes is the window that ends with its high water. -/
theorem UpdatesWellFormed.metadataLog_eq (hw : UpdatesWellFormed t)
    (hterminal : highWaterSequenceIn t d = some terminal) :
    t.metadataLog d = t.window d .origin terminal := by
  obtain ⟨-, hlength⟩ := hw.highWaterSequenceIn_eq_some_iff.mp hterminal
  rw [hw.window_eq, hlength, ← hw.length_metadataLog, List.take_length]
  rfl

/-- An `Origin` request is answered without a token only where nothing has been accepted. -/
theorem highWaterSequenceIn_of_no_token {sha256 : List UInt8 → Bytes verifierLength}
    {s : DurableUpdateStore} {r : EnumerateRequest} {moment : Moment enumerationContinuationLength}
    {page : StoredUpdatePage} (horigin : r.start = .origin)
    (hreply : (s.enumerateAuthorized sha256 r moment).1 = .ok (.authorized ⟨page, none⟩)) :
    highWaterSequenceIn s.tables r.documentId = none ∧ page = emptyStoredUpdatePage := by
  have hresult : ∀ {result s'}, s.execute sha256 (.enumerate r moment) = (.enumerated result, s') →
      result = .ok (.authorized ⟨page, none⟩) := fun hexecute ↦
    (Reply.enumerated.inj (congrArg Prod.fst hexecute)).symm.trans hreply
  rcases DurableUpdateStore.enumerate_step sha256 s r moment with
    ⟨result, hnone, -, hexecute⟩ | ⟨-, -, result, passes, hexecute, heffect⟩
  · exact absurd (hresult hexecute) (hnone _)
  · obtain rfl := hresult hexecute
    have htoken : r.start.token? = none := by rw [horigin]; rfl
    generalize hanswer : (Except.ok (.authorized ⟨page, none⟩) :
      Except StoreError StoreEnumerateOutcome) = answer at heffect
    cases heffect with
    | cleared _ hcleared =>
      obtain ⟨hhigh, heq⟩ := hcleared _ hanswer.symm
      exact ⟨hhigh, congrArg AuthorizedStoredUpdatePage.page heq⟩
    | started => exact absurd hanswer (by simp)
    | refused hstart => exact absurd horigin hstart
    | repeated hstart | atTail hstart | removed hstart | advanced hstart =>
      exact absurd (htoken.symm.trans hstart) (by simp)

end Read

/-! ## What a client sees -/

open UpdateConformance in
/-- **The store simulates the update oracle.**  After any requests, on any documents: an authorized
accept has the outcome that the oracle gives, and an authorized fetch the payload that it has, or
none.  A pass that starts at `Origin` is over at once where the oracle has accepted nothing;
otherwise its windows, from the first, which ends with the oracle's high water, are those of the
oracle, whatever is requested while the pass is read and leaves it alone.  All the pages of a
backfill are the backfill of the oracle, up to its high water at the start.  And what has been
accepted is still in both, the same and at the same position, whatever follows. -/
theorem update_model_simulated (sha256 : List UInt8 → Bytes verifierLength)
    (before : List Request) :
    let c := UpdateConformance.start.sendAll sha256 before
    (∀ r : AcceptCommand, authorize sha256 c.store.tables r.update.documentId r.capabilityId
        r.authenticator .update = true →
      (c.store.accept sha256 r).1 = .ok (c.oracle.accept r.update).1.toStore) ∧
    (∀ r : FetchRequest, authorize sha256 c.store.tables r.documentId r.capabilityId
        r.authenticator .read = true →
      fetchAuthorized sha256 c.store.tables r.documentId r.updateId r.capabilityId
        r.authenticator = .ok (.authorized (c.oracle.fetch r.documentId r.updateId))) ∧
    (∀ (r : EnumerateRequest) (m : Moment enumerationContinuationLength) (page : StoredUpdatePage),
      r.start = .origin →
      (c.store.enumerateAuthorized sha256 r m).1 = .ok (.authorized ⟨page, none⟩) →
      page.updates = [] ∧ c.oracle.highWaterSequence r.documentId = none) ∧
    (∀ (r : EnumerateRequest) (m : Moment enumerationContinuationLength) (page : StoredUpdatePage)
      (token : List UInt8), r.start = .origin →
      (c.store.enumerateAuthorized sha256 r m).1 = .ok (.authorized ⟨page, some token⟩) →
      ∃ terminal, c.oracle.highWaterSequence r.documentId = some terminal ∧
        ∀ after, (c.store.step sha256 (.enumerate r m)).LeavesAll sha256 r
            (.start m.now terminal page token) after →
          ((c.store.step sha256 (.enumerate r m)).follow sha256 r
            (.start m.now terminal page token) after).Reads
              (c.sendAll sha256 (.enumerate r m :: after)).oracle r.documentId terminal) ∧
    (∀ (r : VectorBackfillRequest) (m : Moment vectorContinuationLength)
      (response : AuthorizedVectorBackfillPage), r.start = .origin →
      (c.store.vectorBackfillAuthorized sha256 r m).1 = .ok (.authorized response) →
      ∀ after, (c.store.step sha256 (.vectorBackfill r m)).BackfillLeavesAll sha256 r
          (.start m.now response) after →
        let reader := (c.store.step sha256 (.vectorBackfill r m)).backfill sha256 r
          (.start m.now response) after
        reader.token = none →
          match c.oracle.highWaterSequence r.documentId with
          | none => reader.read = []
          | some terminal =>
            ((c.sendAll sha256 (.vectorBackfill r m :: after)).oracle.vectorBackfill
              r.documentId r.oplogVersion none terminal).map (List.map Prod.snd) =
                some reader.read) ∧
    ∀ d u accepted, c.oracle.updates.get? (toLex (d, u)) = some accepted →
      ∀ after, let c' := c.sendAll sha256 after
        c'.oracle.updates.get? (toLex (d, u)) = some accepted ∧
        c'.oracle.acceptanceOrder.get? (toLex (d, accepted.sequence)) = some u ∧
        ∃ row, c.store.tables.updates.find? (d, u) = some row ∧
          c'.store.tables.updates.find? (d, u) = some row ∧ row.accepted? = some accepted := by
  intro c
  have hc : c.Related := related_start.sendAll before
  have hw := hc.wellFormed.log
  have hstore : c.store = .run sha256 .initial before := store_sendAll start before
  refine ⟨fun r hauth ↦ ?_, fun r hauth ↦ ?_, fun r m page horigin hreply ↦ ?_,
    fun r m page token horigin hreply ↦ ?_, fun r m response horigin hreply after hleaves ↦ ?_,
    fun d u accepted haccepted after ↦ ?_⟩
  · rw [accept_fst]
    exact (UpdateModel.accept_agrees hc.agrees hw r hauth).1
  · rw [fetchAuthorized, if_neg (by simp [hauth]), hw.fetchIn_eq, hc.agrees.fetch_eq]
  · obtain ⟨hnone, rfl⟩ := highWaterSequenceIn_of_no_token horigin hreply
    exact ⟨rfl, (hc.agrees.highWaterSequence_eq hw).trans hnone⟩
  · rw [hstore] at hreply
    obtain ⟨terminal, hterminal, hstart⟩ := Following.start
      (DurableUpdateStore.wellFormed_runRequests DurableUpdateStore.wellFormed_initial before)
      (DurableUpdateStore.passesWellFormed_run sha256 before) horigin hreply
    refine ⟨terminal, ?_, fun after hleaves ↦ ?_⟩
    · rw [hc.agrees.highWaterSequence_eq hw, hstore]
      exact hterminal
    · rw [hstore] at hleaves ⊢
      have hafter : (c.sendAll sha256 (.enumerate r m :: after)).Related := hc.sendAll _
      have hexact := (hstart.follow hleaves).exact
      refine EnumerationReader.Exact.reads ?_ hafter.wellFormed.log hafter.agrees
      rw [store_sendAll, hstore]
      exact hexact
  · intro reader htoken
    have hread := by
      obtain ⟨h, hprefixed⟩ := backfilling_run horigin (hstore ▸ hreply) (hstore ▸ hleaves)
      exact (h.read_eq hprefixed).2 (hstore ▸ htoken)
    rw [← hstore] at hread
    rw [hc.agrees.highWaterSequence_eq hw]
    cases hhigh : highWaterSequenceIn c.store.tables r.documentId with
    | none =>
      rw [UpdatesWellFormed.highWaterSequenceIn_eq_none_iff] at hhigh
      exact hread.trans (by rw [Tables.metadataLog, hhigh]; rfl)
    | some terminal =>
      have hafter : (c.sendAll sha256 (.vectorBackfill r m :: after)).Related := hc.sendAll _
      have hlog : c.store.tables.log r.documentId <+:
          (c.sendAll sha256 (.vectorBackfill r m :: after)).store.tables.log r.documentId := by
        rw [store_sendAll c]
        exact DurableUpdateStore.log_run hc.wellFormed _ _
      dsimp only
      rw [hafter.agrees.vectorBackfill_eq hafter.wellFormed.log, Option.some_inj]
      rw [window_of_isPrefix hw hafter.wellFormed.log hlog _
        (hw.highWaterSequenceIn_eq_some_iff.mp hhigh).2.le, ← hw.metadataLog_eq hhigh]
      exact hread.symm
  · have hafter : (c.sendAll sha256 after).Related := hc.sendAll _
    have hentry := hc.agrees.updates d u
    rw [haccepted] at hentry
    obtain ⟨row, hrow, hupdate⟩ := Option.bind_eq_some_iff.mp hentry.symm
    have hrow' : (c.sendAll sha256 after).store.tables.updates.find? (d, u) = some row := by
      rw [store_sendAll]
      rw [DurableUpdateStore.tables_run]
      exact (persists_run hc.wellFormed _).update hrow
    refine ⟨by rw [hafter.agrees.updates, hrow', Option.bind_some, hupdate], ?_, row, hrow, hrow',
      hupdate⟩
    obtain ⟨hmem, hkey⟩ := Relational.Table.find?_eq_some_iff.mp hrow'
    obtain ⟨rfl, rfl⟩ := Prod.mk_inj.mp hkey
    obtain ⟨update, -, rfl⟩ := Option.map_eq_some_iff.mp hupdate
    exact (hafter.agrees.order _ _ _).mpr ⟨row, Tables.mem_log.mpr ⟨hmem, rfl⟩, rfl, rfl⟩

end Renee
