import Renee.Store.Growth
import Renee.Store.PassRun

/-!
# Reading a document with an enumeration pass

A client that starts a pass and then presents the token of each page for the next is an
`EnumerationReader`: it collects the updates of one window after the other.  The reader is a witness
of the run, updated by `observe` from every request and its reply; it consumes a page only in answer
to the token it holds, and nothing else that happens concerns it.

* `Leaves` says that a request leaves the pass of the reader alone: it does not end it, it does not
  start over in its context, and the pass has not expired.
* While this is so, the store has a pass that stands where the reader does
  (`EnumerationPass.Reads`), and what has been read is exact (`EnumerationReader.Exact`): every
  window that is finished is complete, the one being read is complete up to where the reader is, and
  each starts where the one before has ended.  `Following.step` keeps both through every request.
* `Following.repeated`, `Following.atTail` and `Following.page` are about the next request of the
  reader: what it is answered.
-/

set_option autoImplicit false

namespace Renee

open ByteString TokenRegistry

/-! ## The reader -/

/-- A window of acceptance positions, as far as it has been read. -/
@[ext] structure ReadWindow where
  /-- The window starts after this position. -/
  lower : AcceptanceSequence
  /-- It ends with this one. -/
  upper : AcceptanceSequence
  updates : List UpdateMetadata

/-- A client in the middle of a pass. -/
@[ext] structure EnumerationReader where
  /-- How the token is to be presented. -/
  mode : EnumerationTokenMode
  token : List UInt8
  /-- When the pass expires. -/
  expiresAt : ℕ
  /-- The token consumed last, and what it was answered. -/
  last : Option (EnumerationTokenMode × List UInt8 × AuthorizedStoredUpdatePage)
  /-- The window being read. -/
  current : ReadWindow
  /-- The windows read before, the newest first. -/
  finished : List ReadWindow

/-- Requests on one channel, for one document, under one capability. -/
def EnumerateRequest.SameContext (r r' : EnumerateRequest) : Prop :=
  r'.channel = r.channel ∧ r'.documentId = r.documentId ∧ r'.capabilityId = r.capabilityId

instance (r r' : EnumerateRequest) : Decidable (r.SameContext r') :=
  inferInstanceAs (Decidable (_ ∧ _ ∧ _))

namespace EnumerationReader

/-- A reader that has received the page of an `Origin` request. -/
def start (now : ℕ) (terminal : AcceptanceSequence) (page : StoredUpdatePage)
    (token : List UInt8) : EnumerationReader where
  mode := page.nextMode
  token := token
  expiresAt := now + enumerationPassIdleTtl
  last := none
  current := ⟨.origin, terminal, page.updates⟩
  finished := []

/-- The reader consumes its token and receives a page with the next one: a continuation goes on in
the window, and after the tail a new window starts, up to the high water of the moment. -/
def receive (reader : EnumerationReader) (t : Tables) (d : DocumentId) (later : ℕ)
    (page : StoredUpdatePage) (token : List UInt8) : EnumerationReader :=
  let reader' : EnumerationReader :=
    { reader with
      mode := page.nextMode
      token := token
      expiresAt := later + enumerationPassIdleTtl
      last := some (reader.mode, reader.token, ⟨page, some token⟩) }
  match reader.mode with
  | .continuation =>
    { reader' with
      current := { reader.current with updates := reader.current.updates ++ page.updates } }
  | .afterTail =>
    { reader' with
      current := ⟨reader.current.upper, (highWaterSequenceIn t d).getD .origin, page.updates⟩
      finished := reader.current :: reader.finished }

/-- What the reader makes of a request and its reply: only the answer to its own token concerns it,
and only when there is a page in it. -/
def observe (reader : EnumerationReader) (r : EnumerateRequest) (s : DurableUpdateStore) :
    Request → Reply → EnumerationReader
  | .enumerate r' m, .enumerated (.ok (.authorized ⟨page, some token⟩)) =>
    if r.SameContext r' ∧ r'.start.token? = some (reader.mode, reader.token) then
      reader.receive s.tables r.documentId m.later page token
    else reader
  | _, _ => reader

/-- Everything that has been read, in order. -/
def read (reader : EnumerationReader) : List UpdateMetadata :=
  (reader.current :: reader.finished).reverse.flatMap ReadWindow.updates

/-- What has been read is exact: each window starts where the one before has ended, the first at the
beginning and with the given end; those that are finished are complete, and so is the one being read
as far as it has been, or altogether when the reader waits for what comes after its tail. -/
structure Exact (reader : EnumerationReader) (t : Tables) (d : DocumentId)
    (terminal : AcceptanceSequence) : Prop where
  lower_lt : reader.current.lower.get < reader.current.upper.get
  upper_le : reader.current.upper.get ≤ (t.log d).length
  current : reader.current.updates = (t.window d reader.current.lower reader.current.upper).take
    reader.current.updates.length
  mode : reader.mode = .continuation ↔
    reader.current.updates.length < reader.current.upper.get - reader.current.lower.get
  finished : ∀ w ∈ reader.finished, w.lower.get < w.upper.get ∧ w.upper.get ≤ (t.log d).length ∧
    w.updates = t.window d w.lower w.upper
  chain : (reader.current :: reader.finished).IsChain fun w w' ↦ w.lower = w'.upper
  first : ∃ w, (reader.current :: reader.finished).getLast? = some w ∧
    w.lower = .origin ∧ w.upper = terminal

end EnumerationReader

namespace DurableUpdateStore

section Hash

variable (sha256 : List UInt8 → Bytes verifierLength)

/-- A request leaves the pass of a reader alone. -/
def Leaves (s : DurableUpdateStore) (r : EnumerateRequest) (reader : EnumerationReader)
    (request : Request) : Prop :=
  s.spares sha256 request r.channel.id r.documentId r.capabilityId = true ∧
  match request with
  | .enumerate r' m => m.now < reader.expiresAt ∧
    ¬(r'.start = .origin ∧ r.SameContext r' ∧ authorizeDocument sha256 s.tables r'.documentId
      r'.capabilityId r'.authenticator .read = .authorized)
  | _ => True

/-- Every request of a run leaves the pass of the reader alone. -/
def LeavesAll (r : EnumerateRequest) : DurableUpdateStore → EnumerationReader → List Request → Prop
  | _, _, [] => True
  | s, reader, request :: requests => s.Leaves sha256 r reader request ∧
    LeavesAll r (s.step sha256 request)
      (reader.observe r s request (s.execute sha256 request).1) requests

instance decidableLeaves (s : DurableUpdateStore) (r : EnumerateRequest)
    (reader : EnumerationReader) :
    (request : Request) → Decidable (s.Leaves sha256 r reader request)
  | .enumerate _ _ => inferInstanceAs (Decidable (_ ∧ _ ∧ ¬_))
  | .create _ | .grant _ | .preflightRevoke _ | .revoke _ | .accept _ | .fetch _ |
    .vectorBackfill _ _
  | .subscribe _ | .openChannel | .closeChannel _ | .next _ _ | .cancel _ | .publishRetirement _
  | .retire _ | .disableCreateAuthority _ | .reopen _ _ _ => inferInstanceAs (Decidable (_ ∧ True))

instance decidableLeavesAll (r : EnumerateRequest) : (s : DurableUpdateStore) →
    (reader : EnumerationReader) →
    (requests : List Request) → Decidable (s.LeavesAll sha256 r reader requests)
  | _, _, [] => inferInstanceAs (Decidable True)
  | s, reader, request :: requests =>
    let _ : Decidable (LeavesAll sha256 r (s.step sha256 request)
      (reader.observe r s request (s.execute sha256 request).1) requests) :=
      decidableLeavesAll r _ _ requests
    inferInstanceAs (Decidable (_ ∧ _))

/-- The reader after a run. -/
def follow (r : EnumerateRequest) : DurableUpdateStore → EnumerationReader → List Request →
    EnumerationReader
  | _, reader, [] => reader
  | s, reader, request :: requests => follow r (s.step sha256 request)
    (reader.observe r s request (s.execute sha256 request).1) requests

end Hash

end DurableUpdateStore

/-! ## Windows -/

section Windows

variable {t t' : Tables} {d : DocumentId} {reader : EnumerationReader}
  {terminal : AcceptanceSequence}

theorem length_window (hw : UpdatesWellFormed t) (lower : AcceptanceSequence)
    {upper : AcceptanceSequence} (h : upper.get ≤ (t.log d).length) :
    (t.window d lower upper).length = upper.get - lower.get := by
  rw [hw.window_eq, List.length_drop, List.length_take, hw.length_metadataLog, Nat.min_eq_left h]

/-- Two windows that meet make one. -/
theorem window_append (hw : UpdatesWellFormed t) (d : DocumentId)
    (lower middle upper : AcceptanceSequence) (hl : lower.get ≤ middle.get)
    (hu : middle.get ≤ upper.get) :
    t.window d lower middle ++ t.window d middle upper = t.window d lower upper := by
  have hmiddle : lower.get + (middle.get - lower.get) = middle.get := Nat.add_sub_cancel' hl
  have hjoin := List.drop_take_append_drop ((t.metadataLog d).take upper.get) lower.get
    (middle.get - lower.get)
  rw [hmiddle] at hjoin
  rw [hw.window_eq, hw.window_eq, hw.window_eq, ← hjoin, ← List.drop_take, List.take_take,
    Nat.min_eq_left hu]

/-- Only where a window starts and ends matters for how it meets the others. -/
theorem chain_of_bounds {w w' : ReadWindow} {windows : List ReadWindow}
    (hlower : w'.lower = w.lower) (h : (w :: windows).IsChain fun w w' ↦ w.lower = w'.upper) :
    (w' :: windows).IsChain fun w w' ↦ w.lower = w'.upper := by
  cases windows with
  | nil => exact .singleton _
  | cons next windows =>
    rw [List.isChain_cons_cons] at h ⊢
    exact ⟨hlower.trans h.1, h.2⟩

theorem first_of_bounds {w w' : ReadWindow} {windows : List ReadWindow}
    (hlower : w'.lower = w.lower) (hupper : w'.upper = w.upper)
    (h : ∃ x, (w :: windows).getLast? = some x ∧ x.lower = .origin ∧ x.upper = terminal) :
    ∃ x, (w' :: windows).getLast? = some x ∧ x.lower = .origin ∧ x.upper = terminal := by
  obtain ⟨x, hx, hl, hu⟩ := h
  cases windows with
  | nil =>
    obtain rfl := Option.some_inj.mp hx
    exact ⟨w', rfl, hlower.trans hl, hupper.trans hu⟩
  | cons next windows => exact ⟨x, by rwa [List.getLast?_cons_cons] at hx ⊢, hl, hu⟩

/-- The log may grow. -/
theorem EnumerationReader.Exact.mono (h : reader.Exact t d terminal) (hw : UpdatesWellFormed t)
    (hw' : UpdatesWellFormed t') (hprefixed : t.log d <+: t'.log d) :
    reader.Exact t' d terminal where
  lower_lt := h.lower_lt
  upper_le := h.upper_le.trans hprefixed.length_le
  current := by
    rw [window_of_isPrefix hw hw' hprefixed _ h.upper_le]
    exact h.current
  mode := h.mode
  finished := fun w hmem ↦ by
    obtain ⟨hlt, hle, heq⟩ := h.finished w hmem
    rw [window_of_isPrefix hw hw' hprefixed _ hle]
    exact ⟨hlt, hle.trans hprefixed.length_le, heq⟩
  chain := h.chain
  first := h.first

end Windows

/-! ## The pass of the reader -/

/-- A pass stands where the reader does. -/
structure EnumerationPass.Reads (pass : EnumerationPass) (r : EnumerateRequest)
    (reader : EnumerationReader) : Prop where
  owns : r.owns pass
  expiresAt : pass.expiresAt = reader.expiresAt
  mode : pass.current.mode = reader.mode
  token : pass.current.token.toList = reader.token
  lower : pass.lowerSequenceExclusive = reader.current.lower
  upper : pass.terminalSequence = reader.current.upper
  nextOrdinal : pass.current.nextOrdinal = reader.current.updates.length
  retry : pass.retry.map (fun retry ↦ (retry.mode, retry.token.toList, retry.response)) =
    reader.last

/-- What is kept up while the pass is left alone. -/
structure Following (s : DurableUpdateStore) (r : EnumerateRequest) (reader : EnumerationReader)
    (terminal : AcceptanceSequence) : Prop where
  tables : WellFormed s.tables
  passes : ∃ trace, s.PassesWellFormed trace
  broker : s.subscriptions.broker = r.channel.broker
  pass : ∃ pass ∈ s.enumerationPasses, pass.generation = s.generation ∧ pass.Reads r reader
  exact : reader.Exact s.tables r.documentId terminal

section Pass

variable {t : Tables} {d : DocumentId} {r : EnumerateRequest} {reader : EnumerationReader}
  {terminal : AcceptanceSequence} {pass : EnumerationPass}

/-- What the token of the reader selects lies in the log and is not empty. -/
theorem EnumerationReader.Exact.select (h : reader.Exact t d terminal) (hw : UpdatesWellFormed t)
    (hreads : pass.Reads r reader) :
    (reader.mode = .afterTail ∧ (t.log d).length = reader.current.upper.get ∧
      selectEnumerationWindow t d pass pass.current.mode = .atTail) ∨
    ∃ lower upper n, selectEnumerationWindow t d pass pass.current.mode = .window lower upper n ∧
      upper.get ≤ (t.log d).length ∧ n < upper.get - lower.get ∧
      match reader.mode with
      | .continuation => lower = reader.current.lower ∧ upper = reader.current.upper ∧
          n = reader.current.updates.length
      | .afterTail => lower = reader.current.upper ∧ highWaterSequenceIn t d = some upper ∧
          n = 0 := by
  have hlower := h.lower_lt
  have hupper := h.upper_le
  rw [hreads.mode]
  cases hmode : reader.mode with
  | continuation =>
    refine Or.inr ⟨_, _, _, rfl, by rw [hreads.upper]; exact hupper, ?_, hreads.lower, hreads.upper,
      hreads.nextOrdinal⟩
    rw [hreads.lower, hreads.upper, hreads.nextOrdinal]
    exact h.mode.mp hmode
  | afterTail =>
    obtain ⟨highWater, hhighWater⟩ : ∃ highWater, highWaterSequenceIn t d = some highWater := by
      cases hhigh : highWaterSequenceIn t d with
      | none =>
        rw [UpdatesWellFormed.highWaterSequenceIn_eq_none_iff] at hhigh
        rw [hhigh, List.length_nil] at hupper
        omega
      | some highWater => exact ⟨highWater, rfl⟩
    have hlength := (hw.highWaterSequenceIn_eq_some_iff.mp hhighWater).2
    simp only [selectEnumerationWindow, hhighWater]
    rw [if_neg (by rw [AcceptanceSequence.lt_def, hreads.upper]; omega)]
    by_cases htail : highWater = pass.terminalSequence
    · rw [if_pos htail]
      exact Or.inl ⟨trivial, by rw [← hlength, htail, hreads.upper], rfl⟩
    · rw [if_neg htail]
      refine Or.inr ⟨_, _, _, rfl, by omega, ?_, hreads.upper, rfl, rfl⟩
      rw [hreads.upper] at htail ⊢
      have hne : highWater.get ≠ reader.current.upper.get := fun heq ↦
        htail (AcceptanceSequence.ext heq)
      omega

/-- The window being read is complete when the reader waits for what comes after. -/
theorem EnumerationReader.Exact.current_eq (h : reader.Exact t d terminal)
    (hw : UpdatesWellFormed t) (hmode : reader.mode = .afterTail) :
    reader.current.updates = t.window d reader.current.lower reader.current.upper := by
  have hnot : ¬reader.current.updates.length <
      reader.current.upper.get - reader.current.lower.get := fun hlt ↦ by
    rw [h.mode.mpr hlt] at hmode
    exact absurd hmode (by simp)
  rw [h.current, List.take_of_length_le]
  rw [length_window hw _ h.upper_le]
  omega

/-- **The reader receives the next piece of its window, or the first of the next one.** -/
theorem EnumerationReader.Exact.receive (h : reader.Exact t d terminal) (hw : UpdatesWellFormed t)
    (later : ℕ) (token : List UInt8) {lower upper : AcceptanceSequence} {n limit : ℕ}
    {page : StoredUpdatePage} (hupper : upper.get ≤ (t.log d).length)
    (hn : n < upper.get - lower.get)
    (hwhere : match reader.mode with
      | .continuation => lower = reader.current.lower ∧ upper = reader.current.upper ∧
          n = reader.current.updates.length
      | .afterTail => lower = reader.current.upper ∧ highWaterSequenceIn t d = some upper ∧ n = 0)
    (hpage : enumerateIn t d lower upper n limit = .ok page) :
    let reader' := reader.receive t d later page token
    reader'.Exact t d terminal ∧ reader'.current.lower = lower ∧ reader'.current.upper = upper ∧
      reader'.current.updates.length = page.nextOrdinal := by
  obtain ⟨k, hk, -, heq, -⟩ := hw.enumerateIn_spec limit hupper hn
  rw [heq] at hpage
  obtain rfl := Except.ok.inj hpage
  have hlength := length_window hw lower hupper
  have hmode : ∀ updates : List UpdateMetadata, updates.length = n + k →
      ((if decide (n + k < upper.get - lower.get) = true then EnumerationTokenMode.continuation
        else .afterTail) = .continuation ↔ updates.length < upper.get - lower.get) := by
    intro updates hupdates
    rw [hupdates]
    by_cases hmore : n + k < upper.get - lower.get <;> simp [hmore]
  have hpiece : (((t.window d lower upper).drop n).take k).length = k := by
    rw [List.length_take, List.length_drop, hlength]
    omega
  cases hreader : reader.mode with
  | continuation =>
    rw [hreader] at hwhere
    obtain ⟨rfl, rfl, rfl⟩ := hwhere
    have hread : (reader.current.updates ++ ((t.window d reader.current.lower
        reader.current.upper).drop reader.current.updates.length).take k).length =
          reader.current.updates.length + k := by rw [List.length_append, hpiece]
    simp only [EnumerationReader.receive, hreader]
    refine ⟨⟨h.lower_lt, hupper, ?_, hmode _ hread, h.finished,
      chain_of_bounds (w := reader.current) rfl h.chain,
      first_of_bounds (w := reader.current) rfl rfl h.first⟩, trivial, trivial, hread⟩
    rw [hread, List.take_add, ← h.current]
  | afterTail =>
    rw [hreader] at hwhere
    obtain ⟨rfl, hhigh, rfl⟩ := hwhere
    have hread : (((t.window d reader.current.upper upper).drop 0).take k).length = 0 + k := by
      rw [hpiece, Nat.zero_add]
    have hcomplete := h.current_eq hw hreader
    simp only [EnumerationReader.receive, hreader, hhigh, Option.getD_some]
    refine ⟨⟨Nat.lt_of_sub_pos hn, hupper, ?_, hmode _ hread, ?_, ?_, ?_⟩, trivial, trivial, hread⟩
    · rw [hread, List.drop_zero, Nat.zero_add]
    · intro w hw'
      rcases List.mem_cons.mp hw' with rfl | hold
      · exact ⟨h.lower_lt, h.upper_le, hcomplete⟩
      · exact h.finished w hold
    · exact List.isChain_cons_cons.mpr ⟨rfl, h.chain⟩
    · rw [List.getLast?_cons_cons]
      exact h.first

/-- What the first page leaves is exact. -/
theorem EnumerationReader.exact_start (hw : UpdatesWellFormed t)
    (hterminal : highWaterSequenceIn t d = some terminal) {limit : ℕ} {page : StoredUpdatePage}
    (hpage : enumerateIn t d .origin terminal 0 limit = .ok page) (now : ℕ) (token : List UInt8) :
    (EnumerationReader.start now terminal page token).Exact t d terminal ∧
      page.nextOrdinal = page.updates.length := by
  obtain ⟨hpos, hlength⟩ := hw.highWaterSequenceIn_eq_some_iff.mp hterminal
  have hupper : terminal.get ≤ (t.log d).length := le_of_eq hlength
  have hlower : AcceptanceSequence.origin.get < terminal.get := by
    rw [hlength]
    exact hpos
  obtain ⟨k, hk, -, heq, -⟩ := hw.enumerateIn_spec limit hupper (Nat.sub_pos_of_lt hlower)
  rw [heq] at hpage
  obtain rfl := Except.ok.inj hpage
  have hpiece : (((t.window d .origin terminal).drop 0).take k).length = 0 + k := by
    rw [List.length_take, List.length_drop, length_window hw _ hupper]
    omega
  refine ⟨⟨hlower, hupper, ?_, ?_, fun w hw' ↦ absurd hw' List.not_mem_nil, .singleton _,
    ⟨_, rfl, rfl, rfl⟩⟩, hpiece.symm⟩
  · simp only [EnumerationReader.start, hpiece]
    rw [List.drop_zero, Nat.zero_add]
  · simp only [EnumerationReader.start, hpiece, StoredUpdatePage.nextMode]
    by_cases hmore : 0 + k < terminal.get - AcceptanceSequence.origin.get <;> simp

/-- Whatever does not answer the token of the reader does not concern it. -/
theorem EnumerationReader.observe_eq_self {s : DurableUpdateStore} {request : Request}
    {reply : Reply} (h : ∀ r' m page token, request = .enumerate r' m →
      reply = .enumerated (.ok (.authorized ⟨page, some token⟩)) → r.SameContext r' →
        r'.start.token? ≠ some (reader.mode, reader.token)) :
    reader.observe r s request reply = reader := by
  unfold EnumerationReader.observe
  split
  · rename_i r' m page token
    split
    · rename_i hcontext
      exact absurd hcontext.2 (h r' m page token rfl rfl hcontext.1)
    · rfl
  · rfl

/-- The token of the reader is on no other pass, and is not the one its pass has consumed. -/
theorem EnumerationPass.Reads.eq_of_token {passes : List EnumerationPass} {other : EnumerationPass}
    (hreads : pass.Reads r reader) (hdistinct : Distinct EnumerationPass.tokens passes)
    (hpass : pass ∈ passes) (hother : other ∈ passes) {token : EnumerationToken}
    (htoken : token ∈ other.tokens) (heq : token.toList = reader.token) : other = pass := by
  have hcurrent : token = pass.current.token := Bytes.ext (heq.trans hreads.token.symm)
  exact hdistinct.eq_of_mem hother hpass htoken (hcurrent ▸ List.mem_cons_self ..)

theorem EnumerationPass.Reads.ne_retry {passes : List EnumerationPass}
    {other : EnumerationPass} {retry : EnumerationPassRetry} (hreads : pass.Reads r reader)
    (hdistinct : Distinct EnumerationPass.tokens passes) (hpass : pass ∈ passes)
    (hother : other ∈ passes) (hretry : other.retry = some retry) :
    retry.token.toList ≠ reader.token := by
  intro heq
  have hmem : retry.token ∈ other.tokens := by
    rw [EnumerationPass.tokens, hretry]
    exact List.mem_cons_of_mem _ (List.mem_singleton_self _)
  obtain rfl := hreads.eq_of_token hdistinct hpass hother hmem heq
  have hnodup := hdistinct.nodup hother
  rw [EnumerationPass.tokens, hretry] at hnodup
  refine (List.nodup_cons.mp hnodup).1 ?_
  rw [Option.map_some, Option.toList_some, List.mem_singleton]
  exact Bytes.ext (hreads.token.trans heq.symm)

end Pass

/-- A request that owns the pass of another is in its context. -/
theorem EnumerateRequest.sameContext_of_owns {s : DurableUpdateStore} {r r' : EnumerateRequest}
    {pass : EnumerationPass} (hbroker : s.subscriptions.broker = r.channel.broker)
    (hr : s.subscriptions.recognizes r'.channel = true) (howns : r.owns pass)
    (howns' : r'.owns pass) : r.SameContext r' := by
  obtain ⟨hchannel, hdocument, hcapability⟩ := howns
  obtain ⟨hchannel', hdocument', hcapability'⟩ := howns'
  have hbroker' := UpdateSubscriptionRegistry.recognizes_iff.mp hr
  exact ⟨BrokerChannel.ext (hbroker'.symm.trans hbroker) (hchannel'.symm.trans hchannel),
    hdocument'.symm.trans hdocument, hcapability'.symm.trans hcapability⟩

namespace Following

variable {sha256 : List UInt8 → Bytes verifierLength} {s : DurableUpdateStore}
  {r : EnumerateRequest} {reader : EnumerationReader} {terminal : AcceptanceSequence}

/-- Requests that are not for enumeration. -/
theorem step_of_ne (h : Following s r reader terminal) {request : Request}
    (hne : ∀ r' m, request ≠ .enumerate r' m) (hleaves : s.Leaves sha256 r reader request) :
    Following (s.step sha256 request) r
      (reader.observe r s request (s.execute sha256 request).1) terminal := by
  have hspares := hleaves.1
  have hreopen : ∀ p g b, request ≠ .reopen p g b := by
    rintro p g b rfl
    exact absurd hspares (by simp [DurableUpdateStore.spares])
  have hwell : WellFormed (s.step sha256 request).tables :=
    DurableUpdateStore.wellFormed_step h.tables request
  obtain ⟨trace, htrace⟩ := h.passes
  obtain ⟨pass, hpass, hgeneration, hreads⟩ := h.pass
  rw [EnumerationReader.observe_eq_self fun r' m _ _ heq ↦ absurd heq (hne r' m)]
  refine ⟨hwell, ⟨_, htrace.step request⟩, ?_, ⟨pass, ?_, ?_, hreads⟩, ?_⟩
  · rw [DurableUpdateStore.broker_step hreopen]
    exact h.broker
  · rw [DurableUpdateStore.enumerationPasses_step hne]
    obtain ⟨hchannel, hdocument, hcapability⟩ := hreads.owns
    refine List.mem_filter.mpr ⟨hpass, ?_⟩
    rw [hchannel, hdocument, hcapability]
    exact hspares
  · rw [DurableUpdateStore.generation_step hreopen]
    exact hgeneration
  · exact h.exact.mono h.tables.log hwell.log (DurableUpdateStore.log_step h.tables request _)

/-- **The pass stands where the reader does, and what has been read is exact, after every request
that leaves the pass alone.** -/
theorem step (h : Following s r reader terminal) {request : Request}
    (hleaves : s.Leaves sha256 r reader request) :
    Following (s.step sha256 request) r
      (reader.observe r s request (s.execute sha256 request).1) terminal := by
  by_cases henumerate : ∃ r' m, request = .enumerate r' m
  swap
  · exact h.step_of_ne (fun r' m heq ↦ henumerate ⟨r', m, heq⟩) hleaves
  obtain ⟨r', m, rfl⟩ := henumerate
  obtain ⟨trace, htrace⟩ := h.passes
  have hpasses : (s.step sha256 (.enumerate r' m)).PassesWellFormed _ :=
    htrace.step (.enumerate r' m)
  obtain ⟨pass, hpass, hgeneration, hreads⟩ := h.pass
  obtain ⟨-, hunexpired, hrestart⟩ := hleaves
  rcases DurableUpdateStore.enumerate_step sha256 s r' m with
    ⟨result, hresult, -, he⟩ | ⟨hr, hauth, result, passes, he, heffect⟩
  · -- refused
    rw [DurableUpdateStore.execute_eq he, DurableUpdateStore.step_eq he,
      EnumerationReader.observe_eq_self fun r' m _ _ _ heq ↦
        absurd (Reply.enumerated.inj heq) (hresult _)]
    exact h
  rw [DurableUpdateStore.step_eq he] at hpasses
  rw [DurableUpdateStore.execute_eq he, DurableUpdateStore.step_eq he]
  have hmem : pass ∈ s.enumerationPasses.filter fun pass ↦ m.now < pass.expiresAt :=
    List.mem_filter.mpr ⟨hpass, decide_eq_true (by rw [hreads.expiresAt]; exact hunexpired)⟩
  have hdistinct := htrace.enumeration.distinct.filter fun pass ↦ m.now < pass.expiresAt
  -- the reader is not concerned and its pass stays
  have hstays : pass ∈ passes → (∀ page token,
      result = .ok (.authorized ⟨page, some token⟩) → r.SameContext r' →
        r'.start.token? ≠ some (reader.mode, reader.token)) →
      Following { s with enumerationPasses := passes } r
        (reader.observe r s (.enumerate r' m) (.enumerated result)) terminal := by
    intro hmem' hne
    rw [EnumerationReader.observe_eq_self]
    · exact ⟨h.tables, ⟨_, hpasses⟩, h.broker, ⟨pass, hmem', hgeneration, hreads⟩, h.exact⟩
    · rintro r'' m' page token heq hreply
      obtain ⟨rfl, rfl⟩ := Request.enumerate.inj heq
      exact hne page token (Reply.enumerated.inj hreply)
  have hcontext : r'.owns pass → r.SameContext r' := fun howns ↦
    EnumerateRequest.sameContext_of_owns h.broker hr hreads.owns howns
  have hothers : r'.start = .origin → pass ∈ r'.others (s.enumerationPasses.filter fun pass ↦
      m.now < pass.expiresAt) := fun hstart ↦
    List.mem_filter.mpr ⟨hmem, decide_eq_true fun howns ↦
      hrestart ⟨hstart, hcontext howns, hauth⟩⟩
  cases heffect with
  | cleared hstart =>
    exact hstays (hothers hstart) fun _ _ _ _ ↦ by
      rw [hstart]
      simp [StoreEnumerateStart.token?]
  | started hstart =>
    exact hstays (List.mem_append_left _ (hothers hstart)) fun _ _ _ _ ↦ by
      rw [hstart]
      simp [StoreEnumerateStart.token?]
  | refused _ hresult => exact hstays hmem fun page token heq ↦ absurd heq (hresult _)
  | @repeated other retry hstart hother _ hretry =>
    refine hstays hmem fun _ _ _ _ heq ↦ ?_
    rw [hstart] at heq
    exact hreads.ne_retry hdistinct hmem hother hretry (Prod.mk_inj.mp (Option.some_inj.mp heq)).2
  | atTail => exact hstays hmem fun _ _ heq ↦ absurd heq (by simp)
  | @removed index other lower upper n hstart hindex hholds hselect hpage =>
    refine hstays (mem_swapRemove_of_ne hmem hindex ?_) fun _ _ heq ↦ absurd heq (by simp)
    rintro rfl
    rw [(hcontext hholds.owns).2.1] at hselect hpage
    rcases h.exact.select h.tables.log hreads with ⟨-, -, htail⟩ | ⟨_, _, _, hwindow, hle, hlt, -⟩
    · exact absurd (hselect.symm.trans htail) (by simp)
    · obtain ⟨rfl, rfl, rfl⟩ := EnumerationSelection.window.inj (hselect.symm.trans hwindow)
      obtain ⟨k, -, -, heq, -⟩ := h.tables.log.enumerateIn_spec r'.metadataByteLimit hle hlt
      exact absurd (heq.symm.trans hpage) (by simp)
  | @advanced index other lower upper n page next hstart hindex hholds hselect hpage hne hmint =>
    by_cases hsame : other = pass
    swap
    · refine hstays (mem_set_of_ne hmem hindex fun heq ↦ hsame heq.symm) fun _ _ _ _ heq ↦ hsame ?_
      rw [hstart] at heq
      exact hreads.eq_of_token hdistinct hmem (List.mem_of_getElem? hindex)
        (List.mem_cons_self ..) (Prod.mk_inj.mp (Option.some_inj.mp heq)).2
    subst hsame
    have hcontext' := hcontext hholds.owns
    rw [hcontext'.2.1] at hselect hpage
    rw [hreads.mode, hreads.token] at hstart
    rcases h.exact.select h.tables.log hreads with
      ⟨-, -, htail⟩ | ⟨_, _, _, hwindow, hle, hlt, hwhere⟩
    · exact absurd (hselect.symm.trans htail) (by simp)
    obtain ⟨rfl, rfl, rfl⟩ := EnumerationSelection.window.inj (hselect.symm.trans hwindow)
    obtain ⟨hexact, hlower, hupper, hordinal⟩ :=
      h.exact.receive h.tables.log m.later next.toList hle hlt hwhere hpage
    simp only [EnumerationReader.observe]
    rw [if_pos ⟨hcontext', hstart⟩]
    refine ⟨h.tables, ⟨_, hpasses⟩, h.broker, ⟨_, mem_set_self hindex, hgeneration, ?_⟩, hexact⟩
    have hfields : ∀ reader' : EnumerationReader,
        reader' = reader.receive s.tables r.documentId m.later page next.toList →
        reader'.mode = page.nextMode ∧ reader'.token = next.toList ∧
          reader'.expiresAt = m.later + enumerationPassIdleTtl ∧
          reader'.last = some (reader.mode, reader.token, ⟨page, some next.toList⟩) := by
      rintro reader' rfl
      simp only [EnumerationReader.receive]
      cases reader.mode <;> exact ⟨rfl, rfl, rfl, rfl⟩
    obtain ⟨hmode, htoken, hexpires, hlast⟩ := hfields _ rfl
    exact ⟨hreads.owns, hexpires.symm, hmode.symm, htoken.symm, hlower.symm, hupper.symm,
      hordinal.symm, by rw [hlast, ← hreads.mode, ← hreads.token]; rfl⟩

/-! ## The next request of the reader -/

section Next

variable {r' : EnumerateRequest} {m : Moment enumerationContinuationLength}

/-- A request in the context of the reader reaches its pass. -/
theorem exists_holds (h : Following s r reader terminal) (hcontext : r.SameContext r')
    (hnow : m.now < reader.expiresAt) :
    ∃ pass ∈ s.enumerationPasses.filter fun pass ↦ m.now < pass.expiresAt,
      r'.Holds s.generation m.now pass ∧ pass.Reads r reader := by
  obtain ⟨pass, hpass, hgeneration, hreads⟩ := h.pass
  have hunexpired : m.now < pass.expiresAt := by
    rw [hreads.expiresAt]
    exact hnow
  obtain ⟨hchannel, hdocument, hcapability⟩ := hcontext
  have howns : r'.owns pass := by
    rw [EnumerateRequest.owns, hchannel, hdocument, hcapability]
    exact hreads.owns
  exact ⟨pass, List.mem_filter.mpr ⟨hpass, decide_eq_true hunexpired⟩,
    ⟨howns, hgeneration, hunexpired⟩, hreads⟩

/-- What an authorized token request is answered. -/
theorem enumerateAuthorized_eq (h : Following s r reader terminal) (hcontext : r.SameContext r')
    (hauth : authorizeDocument sha256 s.tables r'.documentId r'.capabilityId r'.authenticator
      .read = .authorized) {mode : EnumerationTokenMode} {token : List UInt8}
    (hstart : r'.start.token? = some (mode, token)) :
    (s.enumerateAuthorized sha256 r' m).1 = (enumerateToken s.tables s.generation r' m mode token
      (s.enumerationPasses.filter fun pass ↦ m.now < pass.expiresAt)).1 := by
  have hr : s.subscriptions.recognizes r'.channel = true := by
    rw [UpdateSubscriptionRegistry.recognizes_iff, h.broker, hcontext.1]
  have hpasses : ∀ passes, (enumeratePasses s.tables s.generation r' m passes).1 =
      (enumerateToken s.tables s.generation r' m mode token passes).1 := by
    intro passes
    rw [enumeratePasses]
    cases hs : r'.start with
    | origin =>
      rw [hs] at hstart
      exact absurd hstart (by simp [StoreEnumerateStart.token?])
    | continuation encoded =>
      rw [hs] at hstart
      obtain ⟨rfl, rfl⟩ := Prod.mk_inj.mp (Option.some_inj.mp hstart)
      rfl
    | afterTail encoded =>
      rw [hs] at hstart
      obtain ⟨rfl, rfl⟩ := Prod.mk_inj.mp (Option.some_inj.mp hstart)
      rfl
  rw [DurableUpdateStore.enumerateAuthorized, hr, hauth]
  exact hpasses _

/-- **The token consumed last is answered as before.** -/
theorem retry (h : Following s r reader terminal) (hcontext : r.SameContext r')
    (hauth : authorizeDocument sha256 s.tables r'.documentId r'.capabilityId r'.authenticator
      .read = .authorized) (hnow : m.now < reader.expiresAt) {mode : EnumerationTokenMode}
    {token : List UInt8} {response : AuthorizedStoredUpdatePage}
    (hlast : reader.last = some (mode, token, response))
    (hstart : r'.start.token? = some (mode, token)) :
    (s.enumerateAuthorized sha256 r' m).1 = .ok (.authorized response) := by
  obtain ⟨trace, htrace⟩ := h.passes
  obtain ⟨pass, hpass, hholds, hreads⟩ := h.exists_holds hcontext hnow
  rw [h.enumerateAuthorized_eq hcontext hauth hstart]
  rw [← hreads.retry] at hlast
  obtain ⟨retry, hretry, heq⟩ := Option.map_eq_some_iff.mp hlast
  obtain ⟨rfl, rfl, rfl⟩ : retry.mode = mode ∧ retry.token.toList = token ∧
      retry.response = response := by simpa using heq
  exact enumerateToken_retry (htrace.enumeration.filter _) hpass hholds hretry

/-- **The token of the reader is answered with what comes next**: with nothing, when the reader is
at the tail, and with a page that is not empty otherwise. -/
theorem next (h : Following s r reader terminal) (hcontext : r.SameContext r')
    (hauth : authorizeDocument sha256 s.tables r'.documentId r'.capabilityId r'.authenticator
      .read = .authorized) (hnow : m.now < reader.expiresAt)
    (hstart : r'.start.token? = some (reader.mode, reader.token))
    (hlimit : maxEnumerableMetadataLength ≤ r'.metadataByteLimit) {token : EnumerationToken}
    (hmint : mintEnumerationToken m.draw
      (s.enumerationPasses.filter fun pass ↦ m.now < pass.expiresAt) = .ok (some token)) :
    if reader.mode = .afterTail ∧ (s.tables.log r.documentId).length = reader.current.upper.get then
      (s.enumerateAuthorized sha256 r' m).1 = .ok (.authorized ⟨emptyStoredUpdatePage, none⟩)
    else ∃ page, page.updates ≠ [] ∧
      (s.enumerateAuthorized sha256 r' m).1 = .ok (.authorized ⟨page, some token.toList⟩) := by
  obtain ⟨trace, htrace⟩ := h.passes
  obtain ⟨pass, hpass, hholds, hreads⟩ := h.exists_holds hcontext hnow
  rw [h.enumerateAuthorized_eq hcontext hauth hstart, ← hreads.mode, ← hreads.token,
    enumerateToken_current (htrace.enumeration.filter _) hpass hholds, hcontext.2.1, hreads.mode]
  rcases h.exact.select h.tables.log hreads with
    ⟨hmode, hlength, hselect⟩ | ⟨lower, upper, n, hselect, hle, hlt, hwhere⟩
  · rw [hreads.mode] at hselect
    rw [if_pos ⟨hmode, hlength⟩, hselect]
  · rw [hreads.mode] at hselect
    rw [if_neg, hselect]
    · obtain ⟨k, hk, -, hpage, hpos⟩ := h.tables.log.enumerateIn_spec r'.metadataByteLimit hle hlt
      have hne : ((s.tables.window r.documentId lower upper).drop n).take k ≠ [] := by
        intro hnil
        have hlen := congrArg List.length hnil
        rw [List.length_take, List.length_drop, length_window h.tables.log lower hle,
          List.length_nil] at hlen
        have hkpos := hpos hlimit
        omega
      simp only [hpage, if_neg hne, hmint]
      exact ⟨_, hne, rfl⟩
    · rintro ⟨hmode, hlength⟩
      rw [hmode] at hwhere
      obtain ⟨rfl, hhigh, rfl⟩ := hwhere
      have hupper := (h.tables.log.highWaterSequenceIn_eq_some_iff.mp hhigh).2
      omega

end Next

/-! ## Where it starts -/

/-- **An authorized `Origin` request with a page starts a reader.** -/
theorem start {trace : List (Request × Reply)} {m : Moment enumerationContinuationLength}
    {page : StoredUpdatePage} {token : List UInt8} (hw : WellFormed s.tables)
    (hpasses : s.PassesWellFormed trace) (horigin : r.start = .origin)
    (hreply : (s.enumerateAuthorized sha256 r m).1 = .ok (.authorized ⟨page, some token⟩)) :
    ∃ terminal, highWaterSequenceIn s.tables r.documentId = some terminal ∧
      Following (s.step sha256 (.enumerate r m)) r
        (EnumerationReader.start m.now terminal page token) terminal := by
  have hexecute : (s.execute sha256 (.enumerate r m)).1 =
      .enumerated (s.enumerateAuthorized sha256 r m).1 := rfl
  have hpasses' : (s.step sha256 (.enumerate r m)).PassesWellFormed _ :=
    hpasses.step (.enumerate r m)
  rcases DurableUpdateStore.enumerate_step sha256 s r m with
    ⟨result, hresult, -, he⟩ | ⟨hr, -, result, passes, he, heffect⟩
  · rw [DurableUpdateStore.execute_eq he, hreply] at hexecute
    exact absurd (Reply.enumerated.inj hexecute) (hresult _)
  rw [DurableUpdateStore.step_eq he] at hpasses'
  rw [DurableUpdateStore.execute_eq he, hreply] at hexecute
  rw [DurableUpdateStore.step_eq he]
  have heq := Reply.enumerated.inj hexecute
  have habsurd : ∀ {P : Prop} {mode : EnumerationTokenMode} {encoded : List UInt8},
      r.start.token? = some (mode, encoded) → P := fun hstart ↦ by
    rw [horigin] at hstart
    exact absurd hstart (by simp [StoreEnumerateStart.token?])
  cases heffect with
  | cleared _ hresult =>
    have hnone := (hresult _ heq).2
    exact absurd (congrArg AuthorizedStoredUpdatePage.nextCursor hnone) (by simp)
  | refused hne => exact absurd horigin hne
  | repeated hstart => exact habsurd hstart
  | atTail hstart => exact habsurd hstart
  | removed hstart => exact habsurd hstart
  | advanced hstart => exact habsurd hstart
  | @started terminal page' token' _ hterminal hpage hne =>
    obtain ⟨rfl, rfl⟩ : page' = page ∧ token'.toList = token := by simpa using heq
    obtain ⟨hexact, hordinal⟩ := EnumerationReader.exact_start hw.log hterminal hpage m.now
      token'.toList
    refine ⟨terminal, hterminal, hw, ⟨_, hpasses'⟩, UpdateSubscriptionRegistry.recognizes_iff.mp hr,
      ⟨_, List.mem_append_right _ (List.mem_singleton_self _), rfl, ?_⟩, hexact⟩
    exact ⟨⟨rfl, rfl, rfl⟩, rfl, rfl, rfl, rfl, rfl, hordinal, rfl⟩

/-- **Along a run that leaves the pass alone.** -/
theorem follow {requests : List Request} (h : Following s r reader terminal)
    (hleaves : s.LeavesAll sha256 r reader requests) :
    Following (s.run sha256 requests) r (s.follow sha256 r reader requests) terminal := by
  induction requests generalizing s reader with
  | nil => exact h
  | cons request requests ih => exact ih (h.step hleaves.1) hleaves.2

end Following

/-! ## What has been read -/

section Read

variable {t : Tables} {d : DocumentId} {reader : EnumerationReader} {terminal : AcceptanceSequence}

theorem window_origin (t : Tables) (d : DocumentId) (hw : UpdatesWellFormed t) :
    t.window d .origin .origin = [] := by
  rw [hw.window_eq]
  exact List.take_zero

/-- Finished windows that meet make one. -/
theorem flatMap_windows (hw : UpdatesWellFormed t) {windows : List ReadWindow} {w : ReadWindow}
    (hchain : (w :: windows).IsChain fun w w' ↦ w.lower = w'.upper)
    (hfinished : ∀ w ∈ windows, w.lower.get < w.upper.get ∧ w.upper.get ≤ (t.log d).length ∧
      w.updates = t.window d w.lower w.upper)
    (hfirst : ∃ x, (w :: windows).getLast? = some x ∧ x.lower = .origin ∧ x.upper = terminal) :
    windows.reverse.flatMap ReadWindow.updates = t.window d .origin w.lower := by
  induction windows generalizing w with
  | nil =>
    obtain ⟨x, hx, hlower, -⟩ := hfirst
    obtain rfl : w = x := Option.some_inj.mp hx
    rw [hlower, window_origin t d hw]
    rfl
  | cons w' windows ih =>
    rw [List.isChain_cons_cons] at hchain
    obtain ⟨hlt, -, hupdates⟩ := hfinished w' (List.mem_cons_self ..)
    rw [List.getLast?_cons_cons] at hfirst
    have hrest := ih hchain.2 (fun w hmem ↦ hfinished w (List.mem_cons_of_mem _ hmem)) hfirst
    rw [List.reverse_cons, List.flatMap_append, hrest, List.flatMap_singleton, hupdates, hchain.1]
    exact window_append hw d _ _ _ (Nat.zero_le _) (le_of_lt hlt)

/-- **What has been read is everything up to where the reader is.** -/
theorem EnumerationReader.Exact.read_prefix (h : reader.Exact t d terminal)
    (hw : UpdatesWellFormed t) :
    reader.read <+: t.window d .origin reader.current.upper ∧
      (reader.mode = .afterTail → reader.read = t.window d .origin reader.current.upper) := by
  have hread : reader.read = t.window d .origin reader.current.lower ++ reader.current.updates := by
    rw [EnumerationReader.read, List.reverse_cons, List.flatMap_append, List.flatMap_singleton,
      flatMap_windows hw h.chain h.finished h.first]
  have hjoin := window_append hw d .origin reader.current.lower reader.current.upper
    (Nat.zero_le _) (le_of_lt h.lower_lt)
  rw [hread, ← hjoin]
  refine ⟨(List.prefix_append_right_inj _).mpr ?_, fun hmode ↦ by rw [h.current_eq hw hmode]⟩
  rw [h.current]
  exact List.take_prefix _ _

end Read

open DurableUpdateStore in
/-- **An enumeration pass loses nothing and repeats nothing.**  Take any reachable store, an
`Origin` request that is answered with a page, and any requests after it that leave the pass alone,
other readers and writers among them.  What its reader has read is, window by window and altogether,
the updates of the document in acceptance order, each once: all of the first window, which ends with
the high water at the `Origin` request, when no more was announced, and then all that was accepted
up to the high water at the request that opened the next one.  The token consumed last is answered
as before, and the token held with what comes next. -/
theorem enumeration_pass_exact (sha256 : List UInt8 → Bytes verifierLength)
    (before : List Request) (r : EnumerateRequest) (m : Moment enumerationContinuationLength)
    (page : StoredUpdatePage) (token : List UInt8) (horigin : r.start = .origin)
    (hreply : ((initial.run sha256 before).enumerateAuthorized sha256 r m).1 =
      .ok (.authorized ⟨page, some token⟩)) :
    let s := (initial.run sha256 before).step sha256 (.enumerate r m)
    ∃ terminal, highWaterSequenceIn (initial.run sha256 before).tables r.documentId =
        some terminal ∧
      ∀ after, s.LeavesAll sha256 r (.start m.now terminal page token) after →
        let s' := s.run sha256 after
        let reader := s.follow sha256 r (.start m.now terminal page token) after
        reader.Exact s'.tables r.documentId terminal ∧
        reader.read <+: s'.tables.window r.documentId .origin reader.current.upper ∧
        (reader.mode = .afterTail →
          reader.read = s'.tables.window r.documentId .origin reader.current.upper) ∧
        (reader.read.map UpdateMetadata.updateId).Nodup ∧
        ∀ r' m', r.SameContext r' → authorizeDocument sha256 s'.tables r'.documentId
            r'.capabilityId r'.authenticator .read = .authorized → m'.now < reader.expiresAt →
          (∀ mode token response, reader.last = some (mode, token, response) →
            r'.start.token? = some (mode, token) →
              (s'.enumerateAuthorized sha256 r' m').1 = .ok (.authorized response)) ∧
          (r'.start.token? = some (reader.mode, reader.token) →
            maxEnumerableMetadataLength ≤ r'.metadataByteLimit →
            ∀ next, mintEnumerationToken m'.draw
                (s'.enumerationPasses.filter fun pass ↦ m'.now < pass.expiresAt) = .ok (some next) →
              if reader.mode = .afterTail ∧
                  (s'.tables.log r.documentId).length = reader.current.upper.get then
                (s'.enumerateAuthorized sha256 r' m').1 =
                  .ok (.authorized ⟨emptyStoredUpdatePage, none⟩)
              else ∃ page, page.updates ≠ [] ∧ (s'.enumerateAuthorized sha256 r' m').1 =
                .ok (.authorized ⟨page, some next.toList⟩)) := by
  intro s
  obtain ⟨terminal, hterminal, hstart⟩ := Following.start
    (wellFormed_runRequests wellFormed_initial before) (passesWellFormed_run sha256 before) horigin
    hreply
  refine ⟨terminal, hterminal, fun after hleaves ↦ ?_⟩
  intro s' reader
  have h : Following s' r reader terminal := hstart.follow hleaves
  obtain ⟨hprefixed, hcomplete⟩ := h.exact.read_prefix h.tables.log
  refine ⟨h.exact, hprefixed, hcomplete, ?_, fun r' m' hcontext hauth hnow ↦ ⟨?_, ?_⟩⟩
  · exact (nodup_window h.tables.log _ _ _).sublist (hprefixed.sublist.map _)
  · exact fun mode token response hlast hstart' ↦ h.retry hcontext hauth hnow hlast hstart'
  · exact fun hstart' hlimit next hmint ↦ h.next hcontext hauth hnow hstart' hlimit hmint

/-- The child asks for pages that have room for one update. -/
def Sample.paging (start : StoreEnumerateStart) : EnumerateRequest :=
  { Sample.enumerating start with metadataByteLimit := 40 }

/-- The moment at which a token is drawn. -/
def Sample.drawing (b : UInt8) : Moment enumerationContinuationLength :=
  ⟨0, 0, fun _ ↦ some (Sample.bytes _ b)⟩

/-- The child goes on to the second page, repeats itself, and goes on after the tail when there is
another update. -/
def Sample.reading : List Request :=
  [.enumerate (Sample.paging (.continuation (Sample.bytes 32 1).toList)) (Sample.drawing 2),
    .enumerate (Sample.paging (.continuation (Sample.bytes 32 1).toList)) (Sample.drawing 3),
    .accept (Sample.acceptOf 3),
    .enumerate (Sample.paging (.afterTail (Sample.bytes 32 2).toList)) (Sample.drawing 4)]

open DurableUpdateStore in
/-- The child reads the three updates, in two windows and three pages, and could repeat itself. -/
theorem enumeration_pass_exact_sample :
    let s := (initial.run Sample.sha256 Sample.accepting).step Sample.sha256
      (.enumerate (Sample.paging .origin) (Sample.drawing 1))
    let reader := s.follow Sample.sha256 (Sample.paging .origin)
      (.start (Sample.drawing 1).now ⟨2, by decide⟩ ⟨true, 1, [(Sample.updateOf 1).metadata]⟩
        (Sample.bytes 32 1).toList) Sample.reading
    let s' := s.run Sample.sha256 Sample.reading
    reader.finished.length = 1 ∧ reader.mode = .afterTail ∧
      reader.read = s'.tables.window Sample.document .origin reader.current.upper ∧
      (reader.read.map UpdateMetadata.updateId).Nodup ∧
      ∃ response, (s'.enumerateAuthorized Sample.sha256
        (Sample.paging (.afterTail (Sample.bytes 32 2).toList)) Sample.moment).1 =
          .ok (.authorized response) := by
  intro s reader s'
  have hview : ((initial.run Sample.sha256 Sample.accepting).enumerateAuthorized Sample.sha256
        (Sample.paging .origin) (Sample.drawing 1)).1 =
          .ok (.authorized ⟨⟨true, 1, [(Sample.updateOf 1).metadata]⟩,
            some (Sample.bytes 32 1).toList⟩) ∧
      highWaterSequenceIn (initial.run Sample.sha256 Sample.accepting).tables Sample.document =
        some ⟨2, by decide⟩ ∧
      s.LeavesAll Sample.sha256 (Sample.paging .origin)
        (.start (Sample.drawing 1).now ⟨2, by decide⟩ ⟨true, 1, [(Sample.updateOf 1).metadata]⟩
          (Sample.bytes 32 1).toList) Sample.reading ∧
      reader.finished.length = 1 ∧ reader.mode = .afterTail ∧
      authorizeDocument Sample.sha256 s'.tables Sample.document Sample.child
        (Sample.secret 3) .read = .authorized ∧
      Sample.moment.now < reader.expiresAt ∧
      reader.last.any (fun last ↦ decide (last.1 = .afterTail) &&
        decide (last.2.1 = (Sample.bytes 32 2).toList)) = true := by decide +kernel
  obtain ⟨hreply, htwo, hleaves, hfinished, hmode, hauth, hnow, hlast⟩ := hview
  obtain ⟨terminal, hterminal, h⟩ := enumeration_pass_exact Sample.sha256 Sample.accepting
    (Sample.paging .origin) (Sample.drawing 1) _ _ rfl hreply
  obtain rfl : terminal = ⟨2, by decide⟩ := Option.some_inj.mp (hterminal.symm.trans htwo)
  obtain ⟨-, -, htail, hnodup, hnext⟩ := h Sample.reading hleaves
  obtain ⟨⟨mode, token, response⟩, hlast, htoken⟩ := (Option.any_eq_true _ _).mp hlast
  simp only [Bool.and_eq_true, decide_eq_true_eq] at htoken
  obtain ⟨rfl, rfl⟩ := htoken
  exact ⟨hfinished, hmode, htail hmode, hnodup, response,
    (hnext (Sample.paging (.afterTail (Sample.bytes 32 2).toList)) Sample.moment
      ⟨rfl, rfl, rfl⟩ hauth hnow).1 .afterTail _ response hlast rfl⟩

end Renee
