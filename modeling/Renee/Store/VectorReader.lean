import Renee.Store.Growth
import Renee.Store.PassRun

/-!
# Reading a document with a backfill pass

A client that starts a vector backfill and then presents the token of each page for the next is a
`VectorReader`.  As for an enumeration pass, the reader is a witness of the run, updated by
`observe` from every request and its reply; it consumes a page only in answer to the token it holds.

* `BackfillLeaves` says that a request leaves the pass of the reader alone: it does not end it, it
  does not replace it, and the pass has not expired.  An `Origin` request of the same context that
  is answered with one page leaves the pass where it is.
* While this is so, what has been read is exact (`VectorReader.Exact`): it is what the version
  selects among the records examined so far, every page with a continuation has examined more, and
  there is a token exactly when the snapshot has not been examined to its end.  `Backfilling.step`
  keeps this and the pass that stands where the reader does (`VectorBackfillPass.Reads`) through
  every request.
* `Backfilling.retry` and `Backfilling.next` are about the next request of the reader: what it is
  answered.
-/

set_option autoImplicit false

namespace Renee

open ByteString TokenRegistry

/-! ## The reader -/

/-- How many records have been examined after a page. -/
def StoredVectorBackfillPage.examined (page : StoredVectorBackfillPage) : ℕ :=
  page.lastExaminedSequence.elim 0 AcceptanceSequence.get

/-- A client in the middle of a backfill, or at the end of one. -/
@[ext] structure VectorReader where
  token : Option (List UInt8)
  /-- When the pass expires. -/
  expiresAt : ℕ
  /-- The token consumed last, and what it was answered. -/
  last : Option (List UInt8 × AuthorizedVectorBackfillPage)
  /-- The pages, the newest first. -/
  pages : List StoredVectorBackfillPage

/-- Requests on one channel, for one document and version, under one capability. -/
def VectorBackfillRequest.SameContext (r r' : VectorBackfillRequest) : Prop :=
  r'.channel = r.channel ∧ r'.documentId = r.documentId ∧ r'.capabilityId = r.capabilityId ∧
    r'.oplogVersion = r.oplogVersion

instance VectorBackfillRequest.decidableSameContext (r r' : VectorBackfillRequest) :
    Decidable (r.SameContext r') :=
  inferInstanceAs (Decidable (_ ∧ _ ∧ _ ∧ _))

/-- An `Origin` request has more than one page to answer, and so takes the place of the pass of its
context. -/
def VectorBackfillRequest.replaces (r : VectorBackfillRequest) (t : Tables) : Bool :=
  match highWaterSequenceIn t r.documentId with
  | none => false
  | some terminal =>
    match vectorBackfillIn t r.documentId .origin terminal r.oplogVersion r.metadataByteLimit with
    | .error _ => false
    | .ok page => page.hasMore && page.lastExaminedSequence.isSome

namespace VectorReader

/-- A reader that has received the answer to an `Origin` request. -/
def start (now : ℕ) (response : AuthorizedVectorBackfillPage) : VectorReader where
  token := response.nextCursor
  expiresAt := now + vectorPassIdleTtl
  last := none
  pages := [response.page]

/-- The reader consumes its token. -/
def receive (reader : VectorReader) (later : ℕ) (token : List UInt8)
    (response : AuthorizedVectorBackfillPage) : VectorReader where
  token := response.nextCursor
  expiresAt := later + vectorPassIdleTtl
  last := some (token, response)
  pages := response.page :: reader.pages

/-- What the reader makes of a request and its reply: only a page in answer to its own token
concerns it. -/
def observe (reader : VectorReader) (r : VectorBackfillRequest) : Request → Reply → VectorReader
  | .vectorBackfill r' m, .backfilled (.ok (.authorized response)) =>
    match reader.token with
    | some token =>
      if r.SameContext r' ∧ r'.start.token? = some token then reader.receive m.later token response
      else reader
    | none => reader
  | _, _ => reader

/-- How many records have been examined. -/
def examined (reader : VectorReader) : ℕ :=
    reader.pages.head?.elim 0 StoredVectorBackfillPage.examined

/-- Everything that has been read, in order. -/
def read (reader : VectorReader) : List UpdateMetadata :=
  reader.pages.reverse.flatMap StoredVectorBackfillPage.updates

/-- What has been read is exact: it is what the version selects among the records examined, there is
more exactly when the snapshot has not been examined to its end, and no page is without progress. -/
structure Exact (reader : VectorReader) (t : Tables) (d : DocumentId) (v : LoroOplogVersion)
    (terminal : ℕ) : Prop where
  terminal_le : terminal ≤ (t.log d).length
  examined_le : reader.examined ≤ terminal
  read : reader.read = v.select ((t.metadataLog d).take reader.examined)
  token : reader.token.isSome = true ↔ reader.examined < terminal
  more : ∀ page ∈ reader.pages, page.hasMore = true ↔ page.examined < terminal
  progress : 0 < terminal →
    (reader.pages.map StoredVectorBackfillPage.examined ++ [0]).IsChain fun n n' ↦ n' < n

end VectorReader

namespace DurableUpdateStore

section Hash

variable (sha256 : List UInt8 → Bytes verifierLength)

/-- A request leaves the pass of a reader alone. -/
def BackfillLeaves (s : DurableUpdateStore) (r : VectorBackfillRequest) (reader : VectorReader)
    (request : Request) : Prop :=
  s.spares sha256 request r.channel.id r.documentId r.capabilityId = true ∧
  match request with
  | .vectorBackfill r' m => m.now < reader.expiresAt ∧
    ¬(r'.start = .origin ∧ r.SameContext r' ∧ authorizeDocument sha256 s.tables r'.documentId
      r'.capabilityId r'.authenticator .read = .authorized ∧ r'.replaces s.tables = true)
  | _ => True

/-- Every request of a run leaves the pass of the reader alone. -/
def BackfillLeavesAll (r : VectorBackfillRequest) :
    DurableUpdateStore → VectorReader → List Request → Prop
  | _, _, [] => True
  | s, reader, request :: requests => s.BackfillLeaves sha256 r reader request ∧
    BackfillLeavesAll r (s.step sha256 request)
      (reader.observe r request (s.execute sha256 request).1) requests

instance decidableBackfillLeaves (s : DurableUpdateStore) (r : VectorBackfillRequest)
    (reader : VectorReader) : (request : Request) →
      Decidable (s.BackfillLeaves sha256 r reader request)
  | .vectorBackfill _ _ => inferInstanceAs (Decidable (_ ∧ _ ∧ ¬_))
  | .create _ | .grant _ | .preflightRevoke _ | .revoke _ | .accept _ | .fetch _ | .enumerate _ _
  | .subscribe _ | .openChannel | .closeChannel _ | .next _ _ | .cancel _ | .publishRetirement _
  | .retire _ | .disableCreateAuthority _ | .reopen _ _ _ => inferInstanceAs (Decidable (_ ∧ True))

instance decidableBackfillLeavesAll (r : VectorBackfillRequest) : (s : DurableUpdateStore) →
    (reader : VectorReader) → (requests : List Request) →
      Decidable (s.BackfillLeavesAll sha256 r reader requests)
  | _, _, [] => inferInstanceAs (Decidable True)
  | s, reader, request :: requests =>
    let _ : Decidable (BackfillLeavesAll sha256 r (s.step sha256 request)
      (reader.observe r request (s.execute sha256 request).1) requests) :=
      decidableBackfillLeavesAll r _ _ requests
    inferInstanceAs (Decidable (_ ∧ _))

/-- The reader after a run. -/
def backfill (r : VectorBackfillRequest) :
    DurableUpdateStore → VectorReader → List Request → VectorReader
  | _, reader, [] => reader
  | s, reader, request :: requests => backfill r (s.step sha256 request)
    (reader.observe r request (s.execute sha256 request).1) requests

end Hash

end DurableUpdateStore

/-! ## What is read -/

section Exact

variable {t t' : Tables} {d : DocumentId} {v : LoroOplogVersion} {reader : VectorReader}
  {terminal : ℕ}

theorem LoroOplogVersion.select_append (v : LoroOplogVersion)
    (updates updates' : List UpdateMetadata) :
    v.select (updates ++ updates') = v.select updates ++ v.select updates' :=
  List.filter_append ..

/-- The log may grow. -/
theorem VectorReader.Exact.mono (h : reader.Exact t d v terminal) (hw : UpdatesWellFormed t)
    (hprefixed : t.log d <+: t'.log d) : reader.Exact t' d v terminal where
  terminal_le := h.terminal_le.trans hprefixed.length_le
  examined_le := h.examined_le
  read := by
    rw [take_metadataLog hw hprefixed (h.examined_le.trans h.terminal_le)]
    exact h.read
  token := h.token
  more := h.more
  progress := h.progress

/-- What a page adds to `n` examined records, `k` of them new. -/
theorem vectorBackfillIn_page (hw : UpdatesWellFormed t) {position upper : AcceptanceSequence}
    {limit : ℕ} {page : StoredVectorBackfillPage} (hupper : upper.get ≤ (t.log d).length)
    (hlt : position.get < upper.get)
    (hpage : vectorBackfillIn t d position upper v limit = .ok page) :
    ∃ k, position.get + k ≤ upper.get ∧
      page.updates = v.select (((t.metadataLog d).drop position.get).take k) ∧
      (page.hasMore = true ↔ position.get + k < upper.get) ∧
      (0 < k → page.examined = position.get + k) ∧
      (k = 0 → page.lastExaminedSequence = none) := by
  obtain ⟨k, hk, -, last, heq, hzero, hpos, -⟩ := hw.vectorBackfillIn_spec v limit
    (Nat.lt_of_le_of_lt (Nat.zero_le _) hlt) hupper (le_of_lt hlt)
  rw [heq] at hpage
  obtain rfl := Except.ok.inj hpage
  refine ⟨k, hk, rfl, by simp, fun hk0 ↦ ?_, hzero⟩
  obtain ⟨sequence, rfl, hsequence⟩ := hpos hk0
  exact hsequence

/-- **The reader receives the next piece of the snapshot.** -/
theorem VectorReader.Exact.receive (h : reader.Exact t d v terminal) (hw : UpdatesWellFormed t)
    (later : ℕ) (token : List UInt8) {position upper : AcceptanceSequence} {limit : ℕ}
    {response : AuthorizedVectorBackfillPage} (hupper : upper.get = terminal)
    (hposition : position.get = reader.examined) (hlt : reader.examined < terminal)
    (hpage : vectorBackfillIn t d position upper v limit = .ok response.page)
    (hmore : response.page.hasMore = true → response.page.lastExaminedSequence.isSome = true)
    (hcursor : response.nextCursor.isSome = response.page.hasMore) :
    (reader.receive later token response).Exact t d v terminal := by
  subst hupper
  obtain ⟨k, hk, hupdates, hmore', hexamined, hzero⟩ := vectorBackfillIn_page hw h.terminal_le
    (by rw [hposition]; exact hlt) hpage
  rw [hposition] at hk hupdates hmore' hexamined
  -- a page without progress would have more and no position
  have hkpos : 0 < k := Nat.pos_of_ne_zero fun hk0 ↦ by
    have hnone := hzero hk0
    have hsome := hmore (hmore'.mpr (by omega))
    rw [hnone] at hsome
    exact absurd hsome (by simp)
  have hnow := hexamined hkpos
  have hreader : (reader.receive later token response).examined = reader.examined + k := hnow
  refine ⟨h.terminal_le, by rw [hreader]; exact hk, ?_, ?_, fun page hmem ↦ ?_, fun hpos ↦ ?_⟩
  · rw [hreader, List.take_add, LoroOplogVersion.select_append, ← h.read, ← hupdates,
      VectorReader.read, VectorReader.receive, List.reverse_cons, List.flatMap_append,
      List.flatMap_singleton]
    rfl
  · rw [hreader, ← hmore', ← hcursor]
    rfl
  · rcases List.mem_cons.mp hmem with rfl | hold
    · rw [hmore', hnow]
    · exact h.more page hold
  · have hchain := h.progress hpos
    rw [VectorReader.receive]
    rw [VectorReader.examined] at hnow
    cases hpages : reader.pages with
    | nil =>
      rw [hpages, List.head?_nil, Option.elim_none, Nat.zero_add] at hnow
      exact List.isChain_cons_cons.mpr ⟨hnow ▸ hkpos, .singleton _⟩
    | cons page pages =>
      rw [hpages] at hchain hnow
      refine List.isChain_cons_cons.mpr ⟨?_, hchain⟩
      rw [hnow]
      exact Nat.lt_add_of_pos_right hkpos

/-- What the first page leaves is exact. -/
theorem VectorReader.exact_start (hw : UpdatesWellFormed t) {upper : AcceptanceSequence}
    (hupper : highWaterSequenceIn t d = some upper) {limit : ℕ}
    {response : AuthorizedVectorBackfillPage} (now : ℕ)
    (hpage : vectorBackfillIn t d .origin upper v limit = .ok response.page)
    (hmore : response.page.hasMore = true → response.page.lastExaminedSequence.isSome = true)
    (hcursor : response.nextCursor.isSome = response.page.hasMore) :
    (VectorReader.start now response).Exact t d v (t.log d).length := by
  obtain ⟨hpos, hlength⟩ := hw.highWaterSequenceIn_eq_some_iff.mp hupper
  -- before it, nothing has been read
  have hblank : VectorReader.Exact ⟨some [], 0, none, []⟩ t d v (t.log d).length :=
    ⟨le_rfl, Nat.zero_le _, rfl, by simpa [VectorReader.examined] using hpos,
      fun _ hmem ↦ absurd hmem List.not_mem_nil, fun _ ↦ .singleton _⟩
  have h := hblank.receive hw now [] hlength rfl hpos hpage hmore hcursor
  exact ⟨h.terminal_le, h.examined_le, h.read, h.token, h.more, h.progress⟩

/-- Where there is nothing to read. -/
theorem VectorReader.exact_vacant (hempty : t.log d = []) (now : ℕ) :
    (VectorReader.start now ⟨⟨false, none, []⟩, none⟩).Exact t d v (t.log d).length := by
  rw [hempty, List.length_nil]
  refine ⟨Nat.zero_le _, le_rfl, rfl, ?_, fun page hmem ↦ ?_, fun hpos ↦ absurd hpos (lt_irrefl 0)⟩
  · exact ⟨fun h ↦ absurd h (by simp [VectorReader.start]), fun h ↦ absurd h (Nat.not_lt_zero _)⟩
  · rw [List.mem_singleton.mp hmem]
    exact ⟨fun h ↦ absurd h (by simp), fun h ↦ absurd h (Nat.not_lt_zero _)⟩

/-- There are no more pages than records examined. -/
theorem VectorReader.Exact.length_pages_le (h : reader.Exact t d v terminal) (hpos : 0 < terminal) :
    reader.pages.length ≤ reader.examined := by
  have hlength : ∀ pages : List StoredVectorBackfillPage,
      (pages.map StoredVectorBackfillPage.examined ++ [0]).IsChain (fun n n' ↦ n' < n) →
        pages.length ≤ pages.head?.elim 0 StoredVectorBackfillPage.examined := by
    intro pages
    induction pages with
    | nil => exact fun _ ↦ le_rfl
    | cons page pages ih =>
      intro hchain
      cases pages with
      | nil => exact (List.isChain_cons_cons.mp hchain).1
      | cons next pages =>
        obtain ⟨hlt, hrest⟩ := List.isChain_cons_cons.mp hchain
        exact Nat.lt_of_le_of_lt (ih hrest) hlt
  exact hlength _ (h.progress hpos)

end Exact

/-- Whatever does not answer the token of the reader does not concern it. -/
theorem VectorReader.observe_eq_self {reader : VectorReader} {r : VectorBackfillRequest}
    {request : Request} {reply : Reply} (h : ∀ r' m response token,
      request = .vectorBackfill r' m → reply = .backfilled (.ok (.authorized response)) →
        reader.token = some token → r.SameContext r' → r'.start.token? ≠ some token) :
    reader.observe r request reply = reader := by
  unfold VectorReader.observe
  split
  · rename_i r' m response
    split
    · rename_i token htoken
      split
      · rename_i hcontext
        exact absurd hcontext.2 (h r' m response token rfl rfl htoken hcontext.1)
      · rfl
    · rfl
  · rfl

/-! ## The pass of the reader -/

/-- A pass stands where the reader does. -/
structure VectorBackfillPass.Reads (pass : VectorBackfillPass) (r : VectorBackfillRequest)
    (reader : VectorReader) (terminal : ℕ) : Prop where
  owns : r.owns pass
  expiresAt : pass.expiresAt = reader.expiresAt
  token : pass.current.map (fun current ↦ current.token.toList) = reader.token
  position : ∀ current, pass.current = some current → current.position.get = reader.examined
  terminal : pass.terminalSequence.get = terminal
  retry : pass.retry.map (fun retry ↦ (retry.token.toList, retry.response)) = reader.last

/-- What is kept up while the pass is left alone.  An `Origin` request that was answered with the
whole snapshot has left no pass, and none is needed. -/
structure Backfilling (s : DurableUpdateStore) (r : VectorBackfillRequest) (reader : VectorReader)
    (terminal : ℕ) : Prop where
  tables : WellFormed s.tables
  passes : ∃ trace, s.PassesWellFormed trace
  broker : s.subscriptions.broker = r.channel.broker
  pass : (reader.token = none ∧ reader.last = none) ∨
    ∃ pass ∈ s.vectorPasses, pass.Reads r reader terminal
  exact : reader.Exact s.tables r.documentId r.oplogVersion terminal

section Pass

variable {r : VectorBackfillRequest} {reader : VectorReader} {terminal : ℕ}
  {pass : VectorBackfillPass}

/-- The current token of the pass is the one the reader holds, and no other pass answers to it. -/
theorem VectorBackfillPass.Reads.eq_of_token {passes : List VectorBackfillPass}
    {other : VectorBackfillPass} (hreads : pass.Reads r reader terminal)
    (hdistinct : Distinct VectorBackfillPass.tokens passes) (hpass : pass ∈ passes)
    (hother : other ∈ passes) {token : VectorToken} (htoken : token ∈ other.tokens)
    (heq : reader.token = some token.toList) :
    other = pass ∧ ∃ current, pass.current = some current ∧ current.token = token := by
  rw [← hreads.token] at heq
  obtain ⟨current, hcurrent, htoList⟩ := Option.map_eq_some_iff.mp heq
  have hsame : current.token = token := Bytes.ext htoList
  refine ⟨hdistinct.eq_of_mem hother hpass htoken ?_, current, hcurrent, hsame⟩
  rw [VectorBackfillPass.tokens, hcurrent, ← hsame]
  exact List.mem_cons_self ..

theorem VectorBackfillPass.Reads.ne_retry {passes : List VectorBackfillPass}
    {other : VectorBackfillPass} {retry : VectorPassRetry} (hreads : pass.Reads r reader terminal)
    (hdistinct : Distinct VectorBackfillPass.tokens passes) (hpass : pass ∈ passes)
    (hother : other ∈ passes) (hretry : other.retry = some retry) :
    reader.token ≠ some retry.token.toList := by
  intro heq
  have hmem : retry.token ∈ other.tokens := by
    rw [VectorBackfillPass.tokens, hretry]
    exact List.mem_append_right _ (List.mem_singleton_self _)
  obtain ⟨rfl, current, hcurrent, hsame⟩ := hreads.eq_of_token hdistinct hpass hother hmem heq
  have hnodup := hdistinct.nodup hother
  rw [VectorBackfillPass.tokens, hcurrent, hretry] at hnodup
  refine (List.nodup_cons.mp hnodup).1 ?_
  rw [hsame]
  exact List.mem_singleton_self _

end Pass

/-- A request that owns the pass of another is in its context. -/
theorem VectorBackfillRequest.sameContext_of_owns {s : DurableUpdateStore}
    {r r' : VectorBackfillRequest} {pass : VectorBackfillPass}
    (hbroker : s.subscriptions.broker = r.channel.broker)
    (hr : s.subscriptions.recognizes r'.channel = true) (howns : r.owns pass)
    (howns' : r'.owns pass) : r.SameContext r' := by
  obtain ⟨hchannel, hdocument, hcapability, hversion⟩ := howns
  obtain ⟨hchannel', hdocument', hcapability', hversion'⟩ := howns'
  have hbroker' := UpdateSubscriptionRegistry.recognizes_iff.mp hr
  exact ⟨BrokerChannel.ext (hbroker'.symm.trans hbroker) (hchannel'.symm.trans hchannel),
    hdocument'.symm.trans hdocument, hcapability'.symm.trans hcapability,
    hversion'.symm.trans hversion⟩

namespace Backfilling

variable {sha256 : List UInt8 → Bytes verifierLength} {s : DurableUpdateStore}
  {r : VectorBackfillRequest} {reader : VectorReader} {terminal : ℕ}

/-- Requests that are not for a backfill. -/
theorem step_of_ne (h : Backfilling s r reader terminal) {request : Request}
    (hne : ∀ r' m, request ≠ .vectorBackfill r' m)
    (hleaves : s.BackfillLeaves sha256 r reader request) :
    Backfilling (s.step sha256 request) r
      (reader.observe r request (s.execute sha256 request).1) terminal := by
  have hspares := hleaves.1
  have hreopen : ∀ p g b, request ≠ .reopen p g b := by
    rintro p g b rfl
    exact absurd hspares (by simp [DurableUpdateStore.spares])
  have hwell : WellFormed (s.step sha256 request).tables :=
    DurableUpdateStore.wellFormed_step h.tables request
  obtain ⟨trace, htrace⟩ := h.passes
  rw [VectorReader.observe_eq_self fun r' m _ _ heq ↦ absurd heq (hne r' m)]
  refine ⟨hwell, ⟨_, htrace.step request⟩, ?_, ?_, ?_⟩
  · rw [DurableUpdateStore.broker_step hreopen]
    exact h.broker
  · refine h.pass.imp id ?_
    rintro ⟨pass, hpass, hreads⟩
    refine ⟨pass, ?_, hreads⟩
    rw [DurableUpdateStore.vectorPasses_step hne]
    obtain ⟨hchannel, hdocument, hcapability, -⟩ := hreads.owns
    refine List.mem_filter.mpr ⟨hpass, ?_⟩
    rw [hchannel, hdocument, hcapability]
    exact hspares
  · exact h.exact.mono h.tables.log (DurableUpdateStore.log_step h.tables request _)

/-- **The pass stands where the reader does, and what has been read is exact, after every request
that leaves the pass alone.** -/
theorem step (h : Backfilling s r reader terminal) {request : Request}
    (hleaves : s.BackfillLeaves sha256 r reader request) :
    Backfilling (s.step sha256 request) r
      (reader.observe r request (s.execute sha256 request).1) terminal := by
  by_cases hbackfill : ∃ r' m, request = .vectorBackfill r' m
  swap
  · exact h.step_of_ne (fun r' m heq ↦ hbackfill ⟨r', m, heq⟩) hleaves
  obtain ⟨r', m, rfl⟩ := hbackfill
  obtain ⟨trace, htrace⟩ := h.passes
  have hpasses : (s.step sha256 (.vectorBackfill r' m)).PassesWellFormed _ :=
    htrace.step (.vectorBackfill r' m)
  obtain ⟨-, hunexpired, hrestart⟩ := hleaves
  rcases DurableUpdateStore.vectorBackfill_step sha256 s r' m with
    ⟨result, hresult, -, he⟩ | ⟨hr, hauth, result, passes, he, heffect⟩
  · -- refused
    rw [DurableUpdateStore.execute_eq he, DurableUpdateStore.step_eq he,
      VectorReader.observe_eq_self fun r' m _ _ _ heq ↦
        absurd (Reply.backfilled.inj heq) (hresult _)]
    exact h
  rw [DurableUpdateStore.step_eq he] at hpasses
  rw [DurableUpdateStore.execute_eq he, DurableUpdateStore.step_eq he]
  have hdistinct := htrace.vector.distinct.filter fun pass ↦ m.now < pass.expiresAt
  -- the reader is not concerned and its pass, if there is one, stays
  have hstays : (∀ pass ∈ s.vectorPasses.filter (fun pass ↦ m.now < pass.expiresAt),
        pass.Reads r reader terminal → pass ∈ passes) →
      (∀ response token, result = .ok (.authorized response) → reader.token = some token →
        r.SameContext r' → r'.start.token? ≠ some token) →
      Backfilling { s with vectorPasses := passes } r
        (reader.observe r (.vectorBackfill r' m) (.backfilled result)) terminal := by
    intro hmem hne
    rw [VectorReader.observe_eq_self]
    · refine ⟨h.tables, ⟨_, hpasses⟩, h.broker, h.pass.imp id fun ⟨pass, hpass, hreads⟩ ↦
        ⟨pass, hmem pass (List.mem_filter.mpr ⟨hpass, ?_⟩) hreads, hreads⟩, h.exact⟩
      rw [hreads.expiresAt]
      exact decide_eq_true hunexpired
    · rintro r'' m' response token heq hreply
      obtain ⟨rfl, rfl⟩ := Request.vectorBackfill.inj heq
      exact hne response token (Reply.backfilled.inj hreply)
  have hcontext : ∀ {pass : VectorBackfillPass}, pass.Reads r reader terminal → r'.owns pass →
      r.SameContext r' := fun hreads howns ↦
    VectorBackfillRequest.sameContext_of_owns h.broker hr hreads.owns howns
  have hreplaces : r'.start = .origin → r'.replaces s.tables = true →
      ∀ pass ∈ s.vectorPasses.filter (fun pass ↦ m.now < pass.expiresAt),
        pass.Reads r reader terminal →
          pass ∈ r'.others (s.vectorPasses.filter fun pass ↦ m.now < pass.expiresAt) :=
    fun hstart hreplaces pass hmem hreads ↦ List.mem_filter.mpr ⟨hmem, decide_eq_true fun howns ↦
      hrestart ⟨hstart, hcontext hreads howns, hauth, hreplaces⟩⟩
  have horigin : r'.start = .origin → ∀ (response : AuthorizedVectorBackfillPage)
      (token : List UInt8), result = .ok (.authorized response) → reader.token = some token →
        r.SameContext r' → r'.start.token? ≠ some token := fun hstart _ _ _ _ _ ↦ by
    rw [hstart]
    simp [StoreVectorBackfillStart.token?]
  have hreplace : ∀ {terminal position : AcceptanceSequence} {page : StoredVectorBackfillPage},
      highWaterSequenceIn s.tables r'.documentId = some terminal →
      vectorBackfillIn s.tables r'.documentId .origin terminal r'.oplogVersion
        r'.metadataByteLimit = .ok page → page.hasMore = true →
      page.lastExaminedSequence = some position → r'.replaces s.tables = true := by
    intro terminal position page hterminal hpage hmore hposition
    simp only [VectorBackfillRequest.replaces, hterminal, hpage, hmore, hposition]
    rfl
  cases heffect with
  | vacant hstart => exact hstays (fun _ hmem _ ↦ hmem) (horigin hstart)
  | complete hstart => exact hstays (fun _ hmem _ ↦ hmem) (horigin hstart)
  | failed hstart => exact hstays (fun _ hmem _ ↦ hmem) (horigin hstart)
  | cleared hstart hterminal hpage hmore hposition =>
    exact hstays (hreplaces hstart (hreplace hterminal hpage hmore hposition)) (horigin hstart)
  | started hstart hterminal hpage hmore hposition =>
    exact hstays (fun pass hmem hreads ↦ List.mem_append_left _
      (hreplaces hstart (hreplace hterminal hpage hmore hposition) pass hmem hreads))
      (horigin hstart)
  | refused _ hresult =>
    exact hstays (fun _ hmem _ ↦ hmem) fun response _ heq ↦ absurd heq (hresult response)
  | @repeated other retry hstart hother _ hretry =>
    refine hstays (fun _ hmem _ ↦ hmem) fun _ token _ htoken _ heq ↦ ?_
    rw [hstart] at heq
    rcases h.pass with ⟨hnone, -⟩ | ⟨pass, hpass, hreads⟩
    · exact absurd (hnone.symm.trans htoken) (by simp)
    · refine hreads.ne_retry hdistinct (List.mem_filter.mpr ⟨hpass, ?_⟩) hother hretry
        (htoken.trans heq.symm)
      rw [hreads.expiresAt]
      exact decide_eq_true hunexpired
  | @removed index other current hstart hindex hholds hcurrent hpage =>
    refine hstays (fun pass hmem hreads ↦ mem_swapRemove_of_ne hmem hindex ?_)
      fun _ _ heq ↦ absurd heq (by simp)
    rintro rfl
    -- a position of the reader is in the log
    have hcontext' := hcontext hreads hholds.owns
    rw [hcontext'.2.1, hcontext'.2.2.2] at hpage
    have hlt : reader.examined < terminal := h.exact.token.mp (by
      rw [← hreads.token, hcurrent]
      rfl)
    have hle : current.position.get ≤ pass.terminalSequence.get := by
      rw [hreads.terminal, hreads.position _ hcurrent]
      exact le_of_lt hlt
    obtain ⟨k, -, -, last, heq, -⟩ := h.tables.log.vectorBackfillIn_spec r.oplogVersion
      r'.metadataByteLimit (by rw [hreads.terminal]; exact Nat.lt_of_le_of_lt (Nat.zero_le _) hlt)
      (by rw [hreads.terminal]; exact h.exact.terminal_le) hle
    exact absurd (heq.symm.trans hpage) (by simp)
  | @advanced index other current page next hstart hindex hholds hcurrent hpage hnext =>
    have hother := List.mem_of_getElem? hindex
    by_cases hsame : other.Reads r reader terminal
    swap
    · refine hstays (fun pass hmem hreads ↦ mem_set_of_ne hmem hindex ?_)
        fun _ token _ htoken hcontext' heq ↦ hsame ?_
      · rintro rfl
        exact hsame hreads
      · rw [hstart] at heq
        obtain rfl := Option.some_inj.mp heq
        rcases h.pass with ⟨hnone, -⟩ | ⟨pass, hpass, hreads⟩
        · exact absurd (hnone.symm.trans htoken) (by simp)
        · have hmem : pass ∈ s.vectorPasses.filter fun pass ↦ m.now < pass.expiresAt :=
            List.mem_filter.mpr ⟨hpass, by
              rw [hreads.expiresAt]
              exact decide_eq_true hunexpired⟩
          have hheld : current.token ∈ other.tokens := by
            rw [VectorBackfillPass.tokens, hcurrent]
            exact List.mem_cons_self ..
          obtain ⟨rfl, -⟩ := hreads.eq_of_token hdistinct hmem hother hheld htoken
          exact hreads
    -- the token of the reader
    have hcontext' := hcontext hsame hholds.owns
    rw [hcontext'.2.1, hcontext'.2.2.2] at hpage
    have htoken : reader.token = some current.token.toList := by
      rw [← hsame.token, hcurrent]
      rfl
    have hlt : reader.examined < terminal := h.exact.token.mp (by rw [htoken]; rfl)
    have hmore : (page.hasMore = true → page.lastExaminedSequence.isSome = true) ∧
        (next.map fun position ↦ position.token.toList).isSome = page.hasMore := by
      rcases nextVectorPosition_eq_ok_iff.mp hnext with
        ⟨hmore, rfl⟩ | ⟨hmore, position, token, hposition, -, rfl⟩
      · rw [hmore]
        exact ⟨fun habsurd ↦ absurd habsurd (by simp), rfl⟩
      · rw [hmore, hposition]
        exact ⟨fun _ ↦ rfl, rfl⟩
    have hexact : (reader.receive m.later current.token.toList ⟨page, next.map fun position ↦
        position.token.toList⟩).Exact s.tables r.documentId r.oplogVersion terminal :=
      h.exact.receive h.tables.log m.later current.token.toList hsame.terminal
        (hsame.position _ hcurrent) hlt hpage hmore.1 hmore.2
    simp only [VectorReader.observe, htoken]
    rw [if_pos ⟨hcontext', hstart⟩]
    refine ⟨h.tables, ⟨_, hpasses⟩, h.broker, Or.inr ⟨_, mem_set_self hindex, hsame.owns, rfl, ?_,
      fun position hposition ↦ ?_, hsame.terminal, rfl⟩, hexact⟩
    · simp only [VectorBackfillPass.advance, VectorReader.receive]
    · rcases nextVectorPosition_eq_ok_iff.mp hnext with
        ⟨-, rfl⟩ | ⟨-, sequence, token, hlast, -, rfl⟩
      · exact absurd hposition (by simp [VectorBackfillPass.advance])
      · obtain rfl := Option.some_inj.mp hposition
        simp only [VectorReader.receive, VectorReader.examined, List.head?_cons, Option.elim_some,
          StoredVectorBackfillPage.examined, hlast]

/-! ## The next request of the reader -/

section Next

variable {r' : VectorBackfillRequest} {m : Moment vectorContinuationLength}

/-- A request in the context of the reader reaches its pass. -/
theorem exists_holds (h : Backfilling s r reader terminal) (hcontext : r.SameContext r')
    (hnow : m.now < reader.expiresAt) (hpass : ¬(reader.token = none ∧ reader.last = none)) :
    ∃ pass ∈ s.vectorPasses.filter fun pass ↦ m.now < pass.expiresAt,
      r'.Holds m.now pass ∧ pass.Reads r reader terminal := by
  obtain ⟨pass, hmem, hreads⟩ := h.pass.resolve_left hpass
  have hunexpired : m.now < pass.expiresAt := by
    rw [hreads.expiresAt]
    exact hnow
  obtain ⟨hchannel, hdocument, hcapability, hversion⟩ := hcontext
  have howns : r'.owns pass := by
    rw [VectorBackfillRequest.owns, hchannel, hdocument, hcapability, hversion]
    exact hreads.owns
  exact ⟨pass, List.mem_filter.mpr ⟨hmem, decide_eq_true hunexpired⟩, ⟨howns, hunexpired⟩, hreads⟩

/-- What an authorized token request is answered. -/
theorem vectorBackfillAuthorized_eq (h : Backfilling s r reader terminal)
    (hcontext : r.SameContext r')
    (hauth : authorizeDocument sha256 s.tables r'.documentId r'.capabilityId r'.authenticator
      .read = .authorized) {token : List UInt8} (hstart : r'.start.token? = some token) :
    (s.vectorBackfillAuthorized sha256 r' m).1 = (vectorBackfillToken s.tables r' m token
      (s.vectorPasses.filter fun pass ↦ m.now < pass.expiresAt)).1 := by
  have hr : s.subscriptions.recognizes r'.channel = true := by
    rw [UpdateSubscriptionRegistry.recognizes_iff, h.broker, hcontext.1]
  have hpasses : ∀ passes, (vectorBackfillPasses s.tables r' m passes).1 =
      (vectorBackfillToken s.tables r' m token passes).1 := by
    intro passes
    rw [vectorBackfillPasses]
    cases hs : r'.start with
    | origin =>
      rw [hs] at hstart
      exact absurd hstart (by simp [StoreVectorBackfillStart.token?])
    | continuation encoded =>
      rw [hs] at hstart
      obtain rfl := Option.some_inj.mp hstart
      rfl
  rw [DurableUpdateStore.vectorBackfillAuthorized, hr, hauth]
  exact hpasses _

/-- **The token consumed last is answered as before.** -/
theorem retry (h : Backfilling s r reader terminal) (hcontext : r.SameContext r')
    (hauth : authorizeDocument sha256 s.tables r'.documentId r'.capabilityId r'.authenticator
      .read = .authorized) (hnow : m.now < reader.expiresAt) {token : List UInt8}
    {response : AuthorizedVectorBackfillPage} (hlast : reader.last = some (token, response))
    (hstart : r'.start.token? = some token) :
    (s.vectorBackfillAuthorized sha256 r' m).1 = .ok (.authorized response) := by
  obtain ⟨trace, htrace⟩ := h.passes
  obtain ⟨pass, hpass, hholds, hreads⟩ := h.exists_holds hcontext hnow fun hnone ↦ by
    rw [hnone.2] at hlast
    exact absurd hlast (by simp)
  rw [h.vectorBackfillAuthorized_eq hcontext hauth hstart]
  rw [← hreads.retry] at hlast
  obtain ⟨retry, hretry, heq⟩ := Option.map_eq_some_iff.mp hlast
  obtain ⟨rfl, rfl⟩ : retry.token.toList = token ∧ retry.response = response := by simpa using heq
  exact vectorBackfillToken_retry (htrace.vector.filter _) hpass hholds hretry

/-- **The token of the reader is answered with the next page**, when the limit has room for the
longest entry there can be. -/
theorem next (h : Backfilling s r reader terminal) (hcontext : r.SameContext r')
    (hauth : authorizeDocument sha256 s.tables r'.documentId r'.capabilityId r'.authenticator
      .read = .authorized) (hnow : m.now < reader.expiresAt) {token : List UInt8}
    (htoken : reader.token = some token) (hstart : r'.start.token? = some token)
    (hlimit : maxEnumerableMetadataLength ≤ r'.metadataByteLimit) {minted : VectorToken}
    (hmint : mintVectorToken m.draw (s.vectorPasses.filter fun pass ↦ m.now < pass.expiresAt) =
      .ok (some minted)) :
    ∃ response, (s.vectorBackfillAuthorized sha256 r' m).1 = .ok (.authorized response) := by
  obtain ⟨trace, htrace⟩ := h.passes
  obtain ⟨pass, hpass, hholds, hreads⟩ := h.exists_holds hcontext hnow fun hnone ↦ by
    rw [hnone.1] at htoken
    exact absurd htoken (by simp)
  have hlt : reader.examined < terminal := h.exact.token.mp (by rw [htoken]; rfl)
  rw [← hreads.token] at htoken
  obtain ⟨current, hcurrent, rfl⟩ := Option.map_eq_some_iff.mp htoken
  have hposition := hreads.position current hcurrent
  have hle : current.position.get ≤ pass.terminalSequence.get := by
    rw [hreads.terminal, hposition]
    exact le_of_lt hlt
  obtain ⟨k, -, -, last, hpage, -, hlast, hprogress⟩ := h.tables.log.vectorBackfillIn_spec
    r.oplogVersion r'.metadataByteLimit
    (by rw [hreads.terminal]; exact Nat.lt_of_le_of_lt (Nat.zero_le _) hlt)
    (by rw [hreads.terminal]; exact h.exact.terminal_le) hle
  obtain ⟨sequence, rfl, -⟩ :=
    hlast (hprogress hlimit (by rw [hreads.terminal, hposition]; exact hlt))
  rw [h.vectorBackfillAuthorized_eq hcontext hauth hstart,
    vectorBackfillToken_current (htrace.vector.filter _) hpass hholds hcurrent, hcontext.2.1,
    hcontext.2.2.2, hpage]
  simp only [nextVectorPosition, hmint]
  split
  · rename_i heq
    split at heq <;> exact absurd heq (by simp)
  · rename_i heq
    split at heq <;> exact absurd heq (by simp)
  · exact ⟨_, rfl⟩

end Next

/-! ## Where it starts -/

/-- **An authorized `Origin` request with a page starts a reader.** -/
theorem start {trace : List (Request × Reply)} {m : Moment vectorContinuationLength}
    {response : AuthorizedVectorBackfillPage} (hw : WellFormed s.tables)
    (hpasses : s.PassesWellFormed trace) (horigin : r.start = .origin)
    (hreply : (s.vectorBackfillAuthorized sha256 r m).1 = .ok (.authorized response)) :
    Backfilling (s.step sha256 (.vectorBackfill r m)) r (.start m.now response)
      (s.tables.log r.documentId).length := by
  have hexecute : (s.execute sha256 (.vectorBackfill r m)).1 =
      .backfilled (s.vectorBackfillAuthorized sha256 r m).1 := rfl
  have hpasses' : (s.step sha256 (.vectorBackfill r m)).PassesWellFormed _ :=
    hpasses.step (.vectorBackfill r m)
  rcases DurableUpdateStore.vectorBackfill_step sha256 s r m with
    ⟨result, hresult, -, he⟩ | ⟨hr, -, result, passes, he, heffect⟩
  · rw [DurableUpdateStore.execute_eq he, hreply] at hexecute
    exact absurd (Reply.backfilled.inj hexecute) (hresult _)
  rw [DurableUpdateStore.step_eq he] at hpasses'
  rw [DurableUpdateStore.execute_eq he, hreply] at hexecute
  rw [DurableUpdateStore.step_eq he]
  have heq := Reply.backfilled.inj hexecute
  have hbroker := UpdateSubscriptionRegistry.recognizes_iff.mp hr
  have habsurd : ∀ {P : Prop} {encoded : List UInt8}, r.start.token? = some encoded → P :=
    fun hstart ↦ by
      rw [horigin] at hstart
      exact absurd hstart (by simp [StoreVectorBackfillStart.token?])
  cases heffect with
  | vacant _ hterminal =>
    obtain rfl : ⟨⟨false, none, []⟩, none⟩ = response := by simpa using heq
    exact ⟨hw, ⟨_, hpasses'⟩, hbroker, Or.inl ⟨rfl, rfl⟩,
      VectorReader.exact_vacant
        (UpdatesWellFormed.highWaterSequenceIn_eq_none_iff.mp hterminal) m.now⟩
  | @complete upper page _ hterminal hpage hmore =>
    obtain rfl : ⟨page, none⟩ = response := by simpa using heq
    exact ⟨hw, ⟨_, hpasses'⟩, hbroker, Or.inl ⟨rfl, rfl⟩,
      VectorReader.exact_start hw.log hterminal m.now hpage
        (fun htrue ↦ absurd (hmore.symm.trans htrue) (by simp)) hmore.symm⟩
  | failed => exact absurd heq (by simp)
  | cleared _ _ _ _ _ hresult => exact absurd heq (hresult _)
  | @started upper position page token _ hterminal hpage hmore hposition =>
    obtain rfl : ⟨page, some token.toList⟩ = response := by simpa using heq
    have hexact : (VectorReader.start m.now ⟨page, some token.toList⟩).Exact s.tables r.documentId
        r.oplogVersion (s.tables.log r.documentId).length :=
      VectorReader.exact_start hw.log hterminal m.now hpage (fun _ ↦ by rw [hposition]; rfl)
        hmore.symm
    refine ⟨hw, ⟨_, hpasses'⟩, hbroker, Or.inr ⟨_, List.mem_append_right _
      (List.mem_singleton_self _), ⟨rfl, rfl, rfl, rfl⟩, rfl, rfl, fun current hcurrent ↦ ?_,
      (hw.log.highWaterSequenceIn_eq_some_iff.mp hterminal).2, rfl⟩, hexact⟩
    obtain rfl := Option.some_inj.mp hcurrent
    simp only [VectorReader.start, VectorReader.examined, List.head?_cons, Option.elim_some,
      StoredVectorBackfillPage.examined, hposition]
  | refused hne => exact absurd horigin hne
  | repeated hstart => exact habsurd hstart
  | removed hstart => exact habsurd hstart
  | advanced hstart => exact habsurd hstart

/-- **Along a run that leaves the pass alone.** -/
theorem backfill {requests : List Request} (h : Backfilling s r reader terminal)
    (hleaves : s.BackfillLeavesAll sha256 r reader requests) :
    Backfilling (s.run sha256 requests) r (s.backfill sha256 r reader requests) terminal := by
  induction requests generalizing s reader with
  | nil => exact h
  | cons request requests ih => exact ih (h.step hleaves.1) hleaves.2

/-- What has been read, while the snapshot is still at the beginning of the log. -/
theorem read_eq {snapshot : List UpdateMetadata} (h : Backfilling s r reader snapshot.length)
    (hprefixed : snapshot <+: s.tables.metadataLog r.documentId) :
    reader.read = r.oplogVersion.select (snapshot.take reader.examined) ∧
      (reader.token = none → reader.read = r.oplogVersion.select snapshot) := by
  obtain ⟨added, hadded⟩ := hprefixed
  have hread : reader.read = r.oplogVersion.select (snapshot.take reader.examined) := by
    rw [h.exact.read, ← hadded, List.take_append_of_le_length h.exact.examined_le]
  refine ⟨hread, fun hnone ↦ ?_⟩
  have hend : ¬reader.examined < snapshot.length := fun hlt ↦ by
    have hsome := h.exact.token.mpr hlt
    rw [hnone] at hsome
    exact absurd hsome (by simp)
  rw [hread, List.take_of_length_le (not_lt.mp hend)]

end Backfilling

open DurableUpdateStore in
/-- A pass of a reachable store that has been left alone goes on along its snapshot, which stays the
beginning of the log. -/
theorem backfilling_run {sha256 : List UInt8 → Bytes verifierLength} {before after : List Request}
    {r : VectorBackfillRequest}
    {m : Moment vectorContinuationLength} {response : AuthorizedVectorBackfillPage}
    (horigin : r.start = .origin)
    (hreply : ((initial.run sha256 before).vectorBackfillAuthorized sha256 r m).1 =
      .ok (.authorized response))
    (hleaves : ((initial.run sha256 before).step sha256 (.vectorBackfill r m)).BackfillLeavesAll
      sha256 r (.start m.now response) after) :
    let snapshot := (initial.run sha256 before).tables.metadataLog r.documentId
    let s := (initial.run sha256 before).step sha256 (.vectorBackfill r m)
    Backfilling (s.run sha256 after) r (s.backfill sha256 r (.start m.now response) after)
        snapshot.length ∧
      snapshot <+: (s.run sha256 after).tables.metadataLog r.documentId := by
  intro snapshot s
  have hw : WellFormed (initial.run sha256 before).tables :=
    wellFormed_runRequests wellFormed_initial before
  have hlength : snapshot.length = ((initial.run sha256 before).tables.log r.documentId).length :=
    hw.log.length_metadataLog _
  rw [hlength]
  exact ⟨(Backfilling.start hw (passesWellFormed_run sha256 before) horigin hreply).backfill
    hleaves, metadataLog_prefix ((log_step hw _ _).trans (log_run (wellFormed_step hw _) after _))⟩

open DurableUpdateStore in
/-- **A backfill pass selects exactly what the version lacks.**  Take any reachable store, an
`Origin` request for a backfill that is answered, and any requests after it that leave the pass
alone, other readers and writers among them.  What has been read is what the version selects among
the records examined, in acceptance order and each once, and at the end among all of the snapshot.
A page has a continuation exactly when the snapshot has not been examined to its end, every page
moves on, and so there are no more of them than records.  The token consumed last is answered as
before, and the token held with a page. -/
theorem vector_backfill_pass_exact (sha256 : List UInt8 → Bytes verifierLength)
    (before : List Request) (r : VectorBackfillRequest) (m : Moment vectorContinuationLength)
    (response : AuthorizedVectorBackfillPage) (horigin : r.start = .origin)
    (hreply : ((initial.run sha256 before).vectorBackfillAuthorized sha256 r m).1 =
      .ok (.authorized response)) :
    let snapshot := (initial.run sha256 before).tables.metadataLog r.documentId
    let s := (initial.run sha256 before).step sha256 (.vectorBackfill r m)
    ∀ after, s.BackfillLeavesAll sha256 r (.start m.now response) after →
      let s' := s.run sha256 after
      let reader := s.backfill sha256 r (.start m.now response) after
      reader.Exact s'.tables r.documentId r.oplogVersion snapshot.length ∧
      reader.read = r.oplogVersion.select (snapshot.take reader.examined) ∧
      (reader.token = none → reader.read = r.oplogVersion.select snapshot) ∧
      (reader.read.map UpdateMetadata.updateId).Nodup ∧
      (0 < snapshot.length → reader.pages.length ≤ reader.examined ∧
        reader.pages.length ≤ snapshot.length) ∧
      ∀ r' m', r.SameContext r' → authorizeDocument sha256 s'.tables r'.documentId
          r'.capabilityId r'.authenticator .read = .authorized → m'.now < reader.expiresAt →
        (∀ token response, reader.last = some (token, response) → r'.start.token? = some token →
          (s'.vectorBackfillAuthorized sha256 r' m').1 = .ok (.authorized response)) ∧
        (∀ token, reader.token = some token → r'.start.token? = some token →
          maxEnumerableMetadataLength ≤ r'.metadataByteLimit →
          ∀ minted, mintVectorToken m'.draw
              (s'.vectorPasses.filter fun pass ↦ m'.now < pass.expiresAt) = .ok (some minted) →
            ∃ response, (s'.vectorBackfillAuthorized sha256 r' m').1 =
              .ok (.authorized response)) := by
  intro snapshot s after hleaves s' reader
  obtain ⟨h, hprefixed⟩ := backfilling_run horigin hreply hleaves
  obtain ⟨hread, hcomplete⟩ := h.read_eq hprefixed
  refine ⟨h.exact, hread, hcomplete, ?_, fun hpos ↦ ?_, fun r' m' hcontext hauth hnow ↦ ⟨?_, ?_⟩⟩
  · have hw : WellFormed (initial.run sha256 before).tables :=
      wellFormed_runRequests wellFormed_initial before
    rw [hread]
    exact (nodup_metadataLog hw.log _).sublist
      ((List.filter_sublist.trans (List.take_sublist ..)).map _)
  · have hpages := h.exact.length_pages_le hpos
    exact ⟨hpages, hpages.trans h.exact.examined_le⟩
  · exact fun token response hlast hstart ↦ h.retry hcontext hauth hnow hlast hstart
  · exact fun token htoken hstart hlimit minted hmint ↦
      h.next hcontext hauth hnow htoken hstart hlimit hmint

/-- The child asks for what it lacks, having nothing. -/
def Sample.backfilling : VectorBackfillRequest :=
  ⟨Sample.channel, Sample.document, Sample.child, Sample.secret 3, ⟨[], by decide, .nil⟩,
    .origin, 4096⟩

/-- The one update of the document, in one page. -/
def Sample.backfilled : AuthorizedVectorBackfillPage :=
  ⟨⟨false, some .first, [Sample.update.metadata]⟩, none⟩

/-- The child, which has the update of the first peer, asks for pages that have room for one. -/
def Sample.lacking (start : StoreVectorBackfillStart) : VectorBackfillRequest :=
  { Sample.backfilling with
    oplogVersion := Sample.firstPeer, start := start, metadataByteLimit := 40 }

/-- The moment at which a token is drawn. -/
def Sample.pulling (b : UInt8) : Moment vectorContinuationLength :=
  ⟨0, 0, fun _ ↦ some (Sample.bytes _ b)⟩

/-- There is another update; the child goes on, and repeats itself. -/
def Sample.goingOn : List Request :=
  [.accept (Sample.acceptOf 4),
    .vectorBackfill (Sample.lacking (.continuation (Sample.bytes 32 1).toList)) (Sample.pulling 2),
    .vectorBackfill (Sample.lacking (.continuation (Sample.bytes 32 1).toList)) (Sample.pulling 3)]

open DurableUpdateStore in
/-- The child reads what it lacks of the three updates, in two pages, and could repeat itself. -/
theorem vector_backfill_pass_exact_sample :
    let before := Sample.accepting ++ [.accept (Sample.acceptOf 3)]
    let s := (initial.run Sample.sha256 before).step Sample.sha256
      (.vectorBackfill (Sample.lacking .origin) (Sample.pulling 1))
    let reader := s.backfill Sample.sha256 (Sample.lacking .origin) (.start (Sample.pulling 1).now
      ⟨⟨true, some ⟨2, by decide⟩, [(Sample.updateOf 2).metadata]⟩,
        some (Sample.bytes 32 1).toList⟩)
      Sample.goingOn
    let s' := s.run Sample.sha256 Sample.goingOn
    reader.pages.length = 2 ∧ reader.read.length = 2 ∧
      reader.read = Sample.firstPeer.select
        ((initial.run Sample.sha256 before).tables.metadataLog Sample.document) ∧
      (reader.read.map UpdateMetadata.updateId).Nodup ∧
      ∃ response, (s'.vectorBackfillAuthorized Sample.sha256
        (Sample.lacking (.continuation (Sample.bytes 32 1).toList)) Sample.moment).1 =
          .ok (.authorized response) := by
  intro before s reader s'
  have hview : ((initial.run Sample.sha256 before).vectorBackfillAuthorized Sample.sha256
        (Sample.lacking .origin) (Sample.pulling 1)).1 = .ok (.authorized
          ⟨⟨true, some ⟨2, by decide⟩, [(Sample.updateOf 2).metadata]⟩,
            some (Sample.bytes 32 1).toList⟩) ∧
      s.BackfillLeavesAll Sample.sha256 (Sample.lacking .origin) (.start (Sample.pulling 1).now
        ⟨⟨true, some ⟨2, by decide⟩, [(Sample.updateOf 2).metadata]⟩,
          some (Sample.bytes 32 1).toList⟩) Sample.goingOn ∧
      reader.pages.length = 2 ∧ reader.read.length = 2 ∧ reader.token = none ∧
      authorizeDocument Sample.sha256 s'.tables Sample.document Sample.child
        (Sample.secret 3) .read = .authorized ∧
      Sample.moment.now < reader.expiresAt ∧
      reader.last.any (fun last ↦ decide (last.1 = (Sample.bytes 32 1).toList)) = true := by
    decide +kernel
  obtain ⟨hreply, hleaves, hpages, hread, htoken, hauth, hnow, hlast⟩ := hview
  obtain ⟨-, -, hcomplete, hnodup, -, hnext⟩ := vector_backfill_pass_exact Sample.sha256 before
    (Sample.lacking .origin) (Sample.pulling 1) _ rfl hreply Sample.goingOn hleaves
  obtain ⟨⟨token, response⟩, hlast, heq⟩ := (Option.any_eq_true _ _).mp hlast
  obtain rfl : token = (Sample.bytes 32 1).toList := of_decide_eq_true heq
  exact ⟨hpages, hread, hcomplete htoken, hnodup, response,
    (hnext (Sample.lacking (.continuation (Sample.bytes 32 1).toList)) Sample.moment
      ⟨rfl, rfl, rfl, rfl⟩ hauth hnow).1 _ response hlast rfl⟩

end Renee
