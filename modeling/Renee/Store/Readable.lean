import Renee.Store.EnumerationReader
import Renee.Store.VectorReader
import Renee.Wire.UpdateMessagesSpec

/-!
# Pages that can be delivered

A page is *deliverable* when its encoder accepts it: its entries leave room for the continuation,
there are not too many of them, and the continuation is there exactly when the format wants it.
Pages are cut to that measure (`enumerateIn_fits`, `vectorBackfillIn_fits`), so the question is what
a pass keeps: a response stored for a client that did not see it must be deliverable too, and a pass
must stand at a position from which a page can be cut.

`Readable` says this of every pass of a store.  It holds in every store whose pagination requests
were all served with room for one entry of the longest kind (`readable_run`), and then a request is
answered with a page unless its token is not honoured or a bound is met: `enumeratePasses_answer`
and `vectorBackfillPasses_answer`.
-/

set_option autoImplicit false

namespace Renee

open ByteString TokenRegistry Wire

/-! ## Pages fit -/

/-- The entries of a page are short enough, and few enough. -/
structure EntriesFit (limit : ℕ) (updates : List UpdateMetadata) : Prop where
  length : metadataLength updates ≤ limit
  count : updates.length ≤ 64
  payload : ∀ m ∈ updates, m.encryptedPayloadLength < 2 ^ 32

theorem entriesFit_nil (limit : ℕ) : EntriesFit limit [] :=
  ⟨Nat.zero_le _, Nat.zero_le _, fun _ h ↦ absurd h List.not_mem_nil⟩

theorem metadataLength_cons (m : UpdateMetadata) (updates : List UpdateMetadata) :
    metadataLength (m :: updates) =
      22 + 16 * m.publicLoroRanges.ranges.length + metadataLength updates := by
  rw [metadataLength, List.map_cons, List.sum_cons]
  rfl

theorem encryptedPayloadLength_lt {update : ImmutableUpdate} {entry : UpdateMetadata}
    (h : metadata update = .ok entry) : entry.encryptedPayloadLength < 2 ^ 32 := by
  rw [metadata] at h
  split at h
  · rename_i hlt
    rw [← Except.ok.inj h]
    exact hlt
  · exact absurd h (by simp)

/-- The length that is counted for an entry is the one it has. -/
theorem pageEntry_fits {t : Tables} {d : DocumentId} {lower ordinal length : ℕ}
    {entry : UpdateMetadata} (h : pageEntry t d lower ordinal = .ok (entry, length)) :
    length = 22 + 16 * entry.publicLoroRanges.ranges.length ∧
      entry.encryptedPayloadLength < 2 ^ 32 := by
  rw [pageEntry] at h
  split at h
  · exact absurd h (by simp)
  split at h
  · exact absurd h (by simp)
  split at h
  · exact absurd h (by simp)
  split at h
  · exact absurd h (by simp)
  split at h
  · exact absurd h (by simp)
  split at h
  · exact absurd h (by simp)
  rename_i update _ _ entry' hentry
  rw [metadataEncodedLength_eq] at h
  simp only [Except.ok.injEq, Prod.mk.injEq] at h
  obtain ⟨rfl, rfl⟩ := h
  exact ⟨rfl, encryptedPayloadLength_lt hentry⟩

theorem enumerateFrom_fits {t : Tables} {d : DocumentId} {lower limit n ordinal used next : ℕ}
    {updates : List UpdateMetadata} (hused : used ≤ limit)
    (h : enumerateFrom t d lower limit n ordinal used = .ok (next, updates)) :
    used + metadataLength updates ≤ limit ∧ updates.length ≤ n ∧
      ∀ m ∈ updates, m.encryptedPayloadLength < 2 ^ 32 := by
  induction n generalizing ordinal used next updates with
  | zero =>
    rw [enumerateFrom, Except.ok.injEq, Prod.mk.injEq] at h
    obtain ⟨-, rfl⟩ := h
    exact ⟨hused, le_refl _, fun _ hm ↦ absurd hm List.not_mem_nil⟩
  | succ n ih =>
    have hstop : ∀ {updates : List UpdateMetadata}, [] = updates →
        used + metadataLength updates ≤ limit ∧ updates.length ≤ n + 1 ∧
          ∀ m ∈ updates, m.encryptedPayloadLength < 2 ^ 32 := by
      rintro _ rfl
      exact ⟨hused, Nat.zero_le _, fun _ hm ↦ absurd hm List.not_mem_nil⟩
    rw [enumerateFrom] at h
    split at h
    · exact absurd h (by simp)
    rename_i entry length hentry
    obtain ⟨hlength, hpayload⟩ := pageEntry_fits hentry
    split at h
    · exact hstop (Prod.mk.inj (Except.ok.inj h)).2
    rename_i used' hadd
    rw [checkedAdd] at hadd
    split at hadd
    on_goal 2 => exact absurd hadd (by simp)
    obtain rfl := Option.some_inj.mp hadd
    split at h
    · exact hstop (Prod.mk.inj (Except.ok.inj h)).2
    rename_i hlimit
    split at h
    · exact absurd h (by simp)
    split at h
    · exact absurd h (by simp)
    rename_i next' rest hrest
    obtain ⟨hsum, hcount, hall⟩ := ih (by omega) hrest
    obtain rfl := (Prod.mk.inj (Except.ok.inj h)).2
    refine ⟨?_, by rw [List.length_cons]; omega, ?_⟩
    · rw [metadataLength_cons]
      omega
    · intro m hm
      rcases List.mem_cons.mp hm with rfl | hm
      · exact hpayload
      · exact hall m hm

/-- **An enumeration page fits its limit.** -/
theorem enumerateIn_fits {t : Tables} {d : DocumentId} {lower terminal : AcceptanceSequence}
    {n limit : ℕ} {page : StoredUpdatePage}
    (h : enumerateIn t d lower terminal n limit = .ok page) : EntriesFit limit page.updates := by
  rw [enumerateIn] at h
  split at h
  · exact absurd h (by simp)
  simp only at h
  split at h
  · exact absurd h (by simp)
  split at h
  · exact absurd h (by simp)
  rename_i next updates hfrom
  obtain ⟨hsum, hcount, hall⟩ := enumerateFrom_fits (Nat.zero_le _) hfrom
  have hlength : metadataLength updates ≤ limit := by omega
  have hfew : updates.length ≤ n + maxEnumerationScanRecords - n :=
    hcount.trans (Nat.sub_le_sub_right ((Nat.min_le_left _ _).trans (Nat.min_le_left _ _)) n)
  rw [Nat.add_sub_cancel_left] at hfew
  rw [← Except.ok.inj h]
  exact ⟨hlength, hfew, hall⟩

theorem vectorBackfillFrom_fits {d : DocumentId} {v : LoroOplogVersion} {limit : ℕ}
    {rows : List UpdateRow} {used scanned : ℕ} {last : Option AcceptanceSequence}
    {page : StoredVectorBackfillPage} (hused : used ≤ limit)
    (hscanned : scanned ≤ maxVectorScanRecords)
    (h : vectorBackfillFrom d v limit rows used last scanned = .ok page) :
    used + metadataLength page.updates ≤ limit ∧
      scanned + page.updates.length ≤ maxVectorScanRecords ∧
      ∀ m ∈ page.updates, m.encryptedPayloadLength < 2 ^ 32 := by
  have hstop : ∀ {hasMore : Bool} {last : Option AcceptanceSequence} {used scanned : ℕ}
      {page : StoredVectorBackfillPage}, used ≤ limit → scanned ≤ maxVectorScanRecords →
      (.ok ⟨hasMore, last, []⟩ : Except StoreError StoredVectorBackfillPage) = .ok page →
      used + metadataLength page.updates ≤ limit ∧
        scanned + page.updates.length ≤ maxVectorScanRecords ∧
        ∀ m ∈ page.updates, m.encryptedPayloadLength < 2 ^ 32 := by
    intro _ _ _ _ page hu hs hpage
    obtain rfl := Except.ok.inj hpage
    exact ⟨hu, hs, fun _ hm ↦ absurd hm List.not_mem_nil⟩
  induction rows generalizing used scanned last page with
  | nil => exact hstop hused hscanned h
  | cons row rows ih =>
    rw [vectorBackfillFrom] at h
    split at h
    · exact hstop hused hscanned h
    rename_i hfull
    split at h
    · exact absurd h (by simp)
    rename_i update _
    split at h
    · exact absurd h (by simp)
    split at h
    on_goal 2 =>
      obtain ⟨hsum, hcount, hall⟩ := ih hused (by omega) h
      exact ⟨hsum, by omega, hall⟩
    split at h
    · exact absurd h (by simp)
    rename_i entry hentry
    rw [metadataEncodedLength_eq] at h
    simp only at h
    split at h
    · exact hstop hused hscanned h
    rename_i used' hadd
    rw [checkedAdd] at hadd
    split at hadd
    on_goal 2 => exact absurd hadd (by simp)
    obtain rfl := Option.some_inj.mp hadd
    split at h
    · exact hstop hused hscanned h
    rename_i hlimit
    split at h
    · exact absurd h (by simp)
    rename_i rest hrest
    obtain ⟨hsum, hcount, hall⟩ := ih (by omega) (by omega) hrest
    obtain rfl := Except.ok.inj h
    refine ⟨?_, by rw [List.length_cons]; omega, ?_⟩
    · rw [metadataLength_cons]
      omega
    · intro m hm
      rcases List.mem_cons.mp hm with rfl | hm
      · exact encryptedPayloadLength_lt hentry
      · exact hall m hm

/-- **A vector-backfill page fits its limit.** -/
theorem vectorBackfillIn_fits {t : Tables} {d : DocumentId} {position terminal : AcceptanceSequence}
    {v : LoroOplogVersion} {limit : ℕ} {page : StoredVectorBackfillPage}
    (h : vectorBackfillIn t d position terminal v limit = .ok page) :
    EntriesFit limit page.updates := by
  have hmax : maxVectorScanRecords = 64 := rfl
  rw [vectorBackfillIn] at h
  split at h
  · exact absurd h (by simp)
  split at h
  · exact absurd h (by simp)
  obtain ⟨hsum, hcount, hall⟩ := vectorBackfillFrom_fits (Nat.zero_le _) (Nat.zero_le _) h
  exact ⟨by omega, by omega, hall⟩

/-! ## Enumeration -/

/-- The format of an enumeration page has room for a response. -/
structure AuthorizedStoredUpdatePage.Deliverable (response : AuthorizedStoredUpdatePage) :
    Prop where
  fits : EntriesFit maxEnumerableMetadataLength response.page.updates
  hasMore : response.page.hasMore = true → response.page.updates ≠ []
  cursor : response.nextCursor.isSome = true ↔ response.page.updates ≠ []
  length : ∀ bytes ∈ response.nextCursor, bytes.length = enumerationContinuationLength

theorem deliverable_emptyStoredUpdatePage :
    AuthorizedStoredUpdatePage.Deliverable ⟨emptyStoredUpdatePage, none⟩ :=
  ⟨entriesFit_nil _, fun h ↦ absurd h (by simp [emptyStoredUpdatePage]),
    by simp [emptyStoredUpdatePage], fun _ h ↦ absurd h (by simp)⟩

/-- A pass stands inside its window, and keeps a response that can be delivered. -/
structure EnumerationPass.Readable (t : Tables) (pass : EnumerationPass) : Prop where
  terminal_pos : 0 < pass.terminalSequence.get
  terminal_le : pass.terminalSequence.get ≤ (t.log pass.documentId).length
  inside : pass.current.mode = .continuation →
    pass.current.nextOrdinal < pass.terminalSequence.get - pass.lowerSequenceExclusive.get
  retry : ∀ retry, pass.retry = some retry →
    retry.response.Deliverable ∧ retry.response.page.updates ≠ []

/-- The window that a request asks for has no records: the document has none, or none after the
tail. -/
def EnumerateRequest.WindowEmpty (r : EnumerateRequest) (t : Tables) (generation : StoreGeneration)
    (now : ℕ) (passes : List EnumerationPass) : Prop :=
  match r.start with
  | .origin => t.log r.documentId = []
  | .continuation _ => False
  | .afterTail encoded => ∃ pass ∈ passes, r.Holds generation now pass ∧
      pass.current.mode = .afterTail ∧ pass.current.token.toList = encoded ∧
      pass.terminalSequence.get = (t.log r.documentId).length

/-- What a request whose authority is in order is answered. -/
inductive EnumerationAnswer (t : Tables) (generation : StoreGeneration) (r : EnumerateRequest)
    (m : Moment enumerationContinuationLength) (passes : List EnumerationPass) :
    Except StoreError StoreEnumerateOutcome → Prop
  /-- A page that can be delivered, and has an update unless there is none in the window. -/
  | page {response : AuthorizedStoredUpdatePage} (hdeliverable : response.Deliverable)
    (hempty : response.page.updates = [] → r.WindowEmpty t generation m.now passes) :
    EnumerationAnswer t generation r m passes (.ok (.authorized response))
  /-- No pass that the request is entitled to answers to its token. -/
  | invalid {mode : EnumerationTokenMode} {encoded : List UInt8}
    (hstart : r.start.token? = some (mode, encoded))
    (hnone : ∀ pass ∈ passes, r.Holds generation m.now pass → ∀ token : EnumerationToken,
      token.toList = encoded → enumerationPassContainsToken pass token mode = false) :
    EnumerationAnswer t generation r m passes (.ok .invalidContinuation)
  /-- There is no room for another pass, or four draws in a row returned tokens in use. -/
  | backpressure
    (hbound : r.start = .origin ∧ canAdmitEnumerationPass (r.others passes) r.channel.id
        r.documentId r.capabilityId = false ∨
      ∀ i < 4, ∃ token, m.draw i = some token ∧ ∃ pass ∈ passes, token ∈ pass.tokens) :
    EnumerationAnswer t generation r m passes (.ok .backpressure)
  /-- The random source has failed. -/
  | entropy {i : ℕ} (hdraw : m.draw i = none) :
    EnumerationAnswer t generation r m passes (.error .entropyUnavailable)

section Enumeration

variable {t t' : Tables} {generation : StoreGeneration} {r : EnumerateRequest}
  {m : Moment enumerationContinuationLength} {passes : List EnumerationPass}
  {pass : EnumerationPass}

/-- The log may grow. -/
theorem EnumerationPass.Readable.mono (h : pass.Readable t)
    (hprefixed : t.log pass.documentId <+: t'.log pass.documentId) : pass.Readable t' :=
  ⟨h.terminal_pos, h.terminal_le.trans hprefixed.length_le, h.inside, h.retry⟩

/-- What the current token of a pass selects lies in the log and is not empty. -/
theorem EnumerationPass.Readable.select (h : pass.Readable t) (hw : UpdatesWellFormed t) :
    (pass.current.mode = .afterTail ∧
      pass.terminalSequence.get = (t.log pass.documentId).length ∧
      selectEnumerationWindow t pass.documentId pass pass.current.mode = .atTail) ∨
    ∃ lower upper n, selectEnumerationWindow t pass.documentId pass pass.current.mode =
        .window lower upper n ∧
      upper.get ≤ (t.log pass.documentId).length ∧ n < upper.get - lower.get := by
  have hpos := h.terminal_pos
  have hle := h.terminal_le
  cases hmode : pass.current.mode with
  | continuation => exact Or.inr ⟨_, _, _, rfl, hle, h.inside hmode⟩
  | afterTail =>
    obtain ⟨highWater, hhighWater⟩ :
        ∃ highWater, highWaterSequenceIn t pass.documentId = some highWater := by
      refine Option.ne_none_iff_exists'.mp fun hnone ↦ ?_
      rw [UpdatesWellFormed.highWaterSequenceIn_eq_none_iff] at hnone
      rw [hnone, List.length_nil] at hle
      omega
    have hlength := (hw.highWaterSequenceIn_eq_some_iff.mp hhighWater).2
    simp only [selectEnumerationWindow, hhighWater]
    rw [if_neg (by rw [AcceptanceSequence.lt_def]; omega)]
    by_cases htail : highWater = pass.terminalSequence
    · rw [if_pos htail]
      exact Or.inl ⟨trivial, by rw [← hlength, htail], rfl⟩
    · rw [if_neg htail]
      refine Or.inr ⟨_, _, _, rfl, by omega, ?_⟩
      have hne : highWater.get ≠ pass.terminalSequence.get := fun heq ↦
        htail (AcceptanceSequence.ext heq)
      omega

/-- **A page cut from inside a window can be delivered**, whatever token follows it. -/
theorem enumerateIn_deliverable (hw : UpdatesWellFormed t) {d : DocumentId}
    (lower : AcceptanceSequence) {upper : AcceptanceSequence} (n : ℕ)
    (hupper : upper.get ≤ (t.log d).length) (hn : n < upper.get - lower.get) :
    ∃ page, enumerateIn t d lower upper n maxEnumerableMetadataLength = .ok page ∧
      page.updates ≠ [] ∧
      (page.nextMode = .continuation → page.nextOrdinal < upper.get - lower.get) ∧
      ∀ token : EnumerationToken,
        AuthorizedStoredUpdatePage.Deliverable ⟨page, some token.toList⟩ := by
  obtain ⟨k, hk, -, hpage, hpos⟩ := hw.enumerateIn_spec maxEnumerableMetadataLength hupper hn
  have hkpos := hpos le_rfl
  have hne : ((t.window d lower upper).drop n).take k ≠ [] := by
    rw [← List.length_pos_iff, List.length_take, List.length_drop, length_window hw lower hupper]
    omega
  refine ⟨_, hpage, hne, fun hmode ↦ ?_, fun token ↦ ⟨enumerateIn_fits hpage, fun _ ↦ hne, ?_, ?_⟩⟩
  · by_contra hnot
    rw [StoredUpdatePage.nextMode, if_neg (by simpa using hnot)] at hmode
    exact absurd hmode (by simp)
  · exact ⟨fun _ ↦ hne, fun _ ↦ rfl⟩
  · intro bytes hbytes
    rw [← Option.some_inj.mp (Option.mem_def.mp hbytes)]
    exact token.length_eq

/-- A token that no pass of the request answers to is not honoured. -/
theorem enumerateToken_invalid {mode : EnumerationTokenMode} {encoded : List UInt8}
    (hnone : ∀ pass ∈ passes, r.Holds generation m.now pass → ∀ token : EnumerationToken,
      token.toList = encoded → enumerationPassContainsToken pass token mode = false) :
    (enumerateToken t generation r m mode encoded passes).1 = .ok .invalidContinuation := by
  simp only [enumerateToken]
  split
  · rfl
  rename_i token htoken
  split
  · rfl
  rename_i index hfind
  split
  · rfl
  rename_i pass hindex
  obtain ⟨hpass, hcontains⟩ := answers_of_findIdx? hfind hindex
  refine congrArg Prod.fst (if_pos (by_contra fun hcontext ↦ ?_))
  simp only [not_or, not_not, not_le] at hcontext
  rw [hnone pass hpass ⟨hcontext.1, hcontext.2.1, hcontext.2.2⟩ token
    (Bytes.ofList?_eq_some_iff.mp htoken)] at hcontains
  exact absurd hcontains (by simp)

/-- The answer where a token is drawn for a page. -/
theorem EnumerationAnswer.of_mint {others : List EnumerationPass} (hsub : ∀ pass ∈ others,
    pass ∈ passes) {page : StoredUpdatePage} (hne : page.updates ≠ [])
    (hdeliverable : ∀ token : EnumerationToken,
      AuthorizedStoredUpdatePage.Deliverable ⟨page, some token.toList⟩)
    {result : Except StoreError StoreEnumerateOutcome}
    (hresult : result = match mintEnumerationToken m.draw others with
      | .error e => .error e
      | .ok none => .ok .backpressure
      | .ok (some next) => .ok (.authorized ⟨page, some next.toList⟩)) :
    EnumerationAnswer t generation r m passes result := by
  subst hresult
  split
  · rename_i e hmint
    obtain ⟨rfl, i, hdraw⟩ := draw_of_mint_eq_error hmint
    exact .entropy hdraw
  · rename_i hmint
    refine .backpressure (Or.inr fun i hi ↦ ?_)
    obtain ⟨token, hdraw, pass, hpass, htoken⟩ :=
      DurableUpdateStore.exists_of_mintEnumerationToken_eq_none hmint i hi
    exact ⟨token, hdraw, pass, hsub pass hpass, htoken⟩
  · rename_i next _
    exact .page (hdeliverable next) fun hempty ↦ absurd hempty hne

theorem enumerateOrigin_answer (hw : UpdatesWellFormed t)
    (hlimit : r.metadataByteLimit = maxEnumerableMetadataLength) (hstart : r.start = .origin) :
    EnumerationAnswer t generation r m passes (enumerateOrigin t generation r m passes).1 := by
  have hsub : ∀ pass ∈ r.others passes, pass ∈ passes := fun pass hpass ↦
    (List.mem_filter.mp hpass).1
  simp only [enumerateOrigin]
  split
  · rename_i hnone
    refine .page deliverable_emptyStoredUpdatePage fun _ ↦ ?_
    rw [EnumerateRequest.WindowEmpty, hstart]
    exact UpdatesWellFormed.highWaterSequenceIn_eq_none_iff.mp hnone
  rename_i terminal hterminal
  obtain ⟨hpos, hlength⟩ := hw.highWaterSequenceIn_eq_some_iff.mp hterminal
  obtain ⟨page, hpage, hne, -, hdeliverable⟩ := enumerateIn_deliverable hw .origin 0
    (le_of_eq hlength) (by rw [AcceptanceSequence.get_origin]; omega)
  rw [hlimit, hpage]
  simp only
  rw [if_neg hne]
  split
  · rename_i hfull
    rw [Bool.not_eq_true'] at hfull
    exact .backpressure (Or.inl ⟨hstart, hfull⟩)
  · refine .of_mint hsub hne hdeliverable ?_
    rw [EnumerateRequest.others]
    cases mintEnumerationToken m.draw (passes.filter fun pass ↦ ¬r.owns pass) with
    | error e => rfl
    | ok next => cases next <;> rfl

theorem enumerateToken_answer (hw : UpdatesWellFormed t)
    (hpasses : EnumerationPassesWellFormed passes)
    (hreadable : ∀ pass ∈ passes, pass.Readable t)
    (hlimit : r.metadataByteLimit = maxEnumerableMetadataLength) {mode : EnumerationTokenMode}
    {encoded : List UInt8} (hstart : r.start.token? = some (mode, encoded)) :
    EnumerationAnswer t generation r m passes
      (enumerateToken t generation r m mode encoded passes).1 := by
  by_cases hheld : ∃ pass ∈ passes, r.Holds generation m.now pass ∧ ∃ token : EnumerationToken,
      token.toList = encoded ∧ enumerationPassContainsToken pass token mode = true
  · obtain ⟨pass, hpass, hholds, token, rfl, hcontains⟩ := hheld
    rw [enumerationPassContainsToken, Bool.or_eq_true, decide_eq_true_eq, Option.any_eq_true]
      at hcontains
    have h := hreadable pass hpass
    rcases hcontains with ⟨rfl, rfl⟩ | ⟨retry, hretry, hmatch⟩
    · rw [enumerateToken_current hpasses hpass hholds, ← hholds.owns.2.1]
      rcases h.select hw with ⟨hmode, htail, hselect⟩ | ⟨lower, upper, n, hselect, hupper, hn⟩
      · rw [hselect]
        refine .page deliverable_emptyStoredUpdatePage fun _ ↦ ?_
        cases hs : r.start with
        | origin => rw [hs] at hstart; exact absurd hstart (by simp [StoreEnumerateStart.token?])
        | continuation encoded =>
          rw [hs, StoreEnumerateStart.token?, hmode] at hstart
          exact absurd (Prod.mk.inj (Option.some_inj.mp hstart)).1 (by simp)
        | afterTail encoded =>
          rw [hs, StoreEnumerateStart.token?, hmode] at hstart
          rw [EnumerateRequest.WindowEmpty, hs]
          refine ⟨pass, hpass, hholds, hmode, ?_, ?_⟩
          · exact (Prod.mk.inj (Option.some_inj.mp hstart)).2.symm
          · rw [← hholds.owns.2.1]
            exact htail
      · obtain ⟨page, hpage, hne, -, hdeliverable⟩ := enumerateIn_deliverable hw _ _ hupper hn
        rw [hselect]
        simp only
        rw [hlimit, hpage]
        simp only
        rw [if_neg hne]
        exact .of_mint (fun _ h ↦ h) hne hdeliverable rfl
    · obtain ⟨rfl, rfl⟩ := of_decide_eq_true hmatch
      rw [enumerateToken_retry hpasses hpass hholds hretry]
      obtain ⟨hdeliverable, hne⟩ := h.retry retry hretry
      exact .page hdeliverable fun hempty ↦ absurd hempty hne
  · have hnone : ∀ pass ∈ passes, r.Holds generation m.now pass → ∀ token : EnumerationToken,
        token.toList = encoded → enumerationPassContainsToken pass token mode = false :=
      fun pass hpass hholds token htoken ↦ by
        refine Bool.eq_false_iff.mpr fun hcontains ↦ hheld ?_
        exact ⟨pass, hpass, hholds, token, htoken, hcontains⟩
    rw [enumerateToken_invalid hnone]
    exact .invalid hstart hnone

/-- **An enumeration request is answered.** -/
theorem enumeratePasses_answer (hw : UpdatesWellFormed t)
    (hpasses : EnumerationPassesWellFormed passes) (hreadable : ∀ pass ∈ passes, pass.Readable t)
    (hlimit : r.metadataByteLimit = maxEnumerableMetadataLength) :
    EnumerationAnswer t generation r m passes (enumeratePasses t generation r m passes).1 := by
  rw [enumeratePasses]
  split
  · rename_i hstart
    exact enumerateOrigin_answer hw hlimit hstart
  · rename_i encoded hstart
    exact enumerateToken_answer hw hpasses hreadable hlimit (by rw [hstart]; rfl)
  · rename_i encoded hstart
    exact enumerateToken_answer hw hpasses hreadable hlimit (by rw [hstart]; rfl)

/-- **Passes stay readable.** -/
theorem EnumerationEffect.readable {result : Except StoreError StoreEnumerateOutcome}
    {passes' : List EnumerationPass} (h : EnumerationEffect t generation r m passes result passes')
    (hw : UpdatesWellFormed t) (hlimit : r.metadataByteLimit = maxEnumerableMetadataLength)
    (hreadable : ∀ pass ∈ passes, pass.Readable t) : ∀ pass ∈ passes', pass.Readable t := by
  cases h with
  | cleared => exact fun pass hpass ↦ hreadable pass (List.mem_filter.mp hpass).1
  | @started terminal page token _ hterminal hpage =>
    intro pass hpass
    rcases List.mem_append.mp hpass with hold | hnew
    · exact hreadable pass (List.mem_filter.mp hold).1
    rw [List.mem_singleton.mp hnew]
    obtain ⟨hpos, hlength⟩ := hw.highWaterSequenceIn_eq_some_iff.mp hterminal
    obtain ⟨page', hpage', -, hinside, -⟩ := enumerateIn_deliverable hw .origin 0
      (le_of_eq hlength) (by rw [AcceptanceSequence.get_origin]; omega)
    rw [hlimit, hpage'] at hpage
    obtain rfl := Except.ok.inj hpage
    exact ⟨hlength ▸ hpos, le_of_eq hlength, hinside, fun retry hretry ↦ absurd hretry (by simp
      [EnumerateRequest.newPass])⟩
  | refused => exact hreadable
  | repeated => exact hreadable
  | atTail => exact hreadable
  | removed _ hindex =>
    exact fun pass hpass ↦ hreadable pass ((perm_cons_eraseIdx hindex).mem_iff.mpr
      (List.mem_cons_of_mem _ ((swapRemove_perm hindex).mem_iff.mp hpass)))
  | @advanced index pass lower terminal nextOrdinal page next _ hindex hholds hselect hpage hne =>
    intro other hother
    rcases List.mem_cons.mp ((set_perm hindex _).mem_iff.mp hother) with rfl | hold
    · have hpass := hreadable pass (List.mem_of_getElem? hindex)
      have hdocument := hholds.owns.2.1
      rw [← hdocument] at hselect hpage
      rcases hpass.select hw with ⟨-, -, htail⟩ | ⟨lower', upper', n', hselect', hupper, hn⟩
      · exact absurd (htail.symm.trans hselect) (by simp)
      rw [hselect'] at hselect
      obtain ⟨rfl, rfl, rfl⟩ := EnumerationSelection.window.inj hselect
      obtain ⟨page', hpage', -, hinside, hdeliverable⟩ := enumerateIn_deliverable hw _ _ hupper hn
      rw [hlimit, hpage'] at hpage
      obtain rfl := Except.ok.inj hpage
      refine ⟨by simp only [EnumerationPass.advance]; omega, hupper, hinside, fun retry hretry ↦ ?_⟩
      rw [← Option.some_inj.mp hretry]
      exact ⟨hdeliverable next, hne⟩
    · exact hreadable other ((perm_cons_eraseIdx hindex).mem_iff.mpr (List.mem_cons_of_mem _ hold))

end Enumeration

/-! ## Vector backfill -/

/-- The format of a vector-backfill page has room for a response. -/
structure AuthorizedVectorBackfillPage.Deliverable (response : AuthorizedVectorBackfillPage) :
    Prop where
  fits : EntriesFit maxEnumerableMetadataLength response.page.updates
  cursor : response.page.hasMore = response.nextCursor.isSome
  length : ∀ bytes ∈ response.nextCursor, bytes.length = vectorContinuationLength

/-- A page that has moved past at least one record from a position on, and shows what the version
selects of those. -/
def StoredVectorBackfillPage.MovesPast (page : StoredVectorBackfillPage) (t : Tables)
    (d : DocumentId) (v : LoroOplogVersion) (position : ℕ) : Prop :=
  ∃ k, 0 < k ∧ page.examined = position + k ∧ position + k ≤ (t.log d).length ∧
    page.updates = v.select (((t.metadataLog d).drop position).take k)

/-- A pass stands inside its snapshot, and keeps a response that can be delivered. -/
structure VectorBackfillPass.Readable (t : Tables) (pass : VectorBackfillPass) : Prop where
  terminal_le : pass.terminalSequence.get ≤ (t.log pass.documentId).length
  inside : ∀ current, pass.current = some current →
    current.position.get < pass.terminalSequence.get
  retry : ∀ retry, pass.retry = some retry → retry.response.Deliverable ∧
    ∃ position, retry.response.page.MovesPast t pass.documentId pass.oplogVersion position

/-- The position from which a request reads: the beginning, or where the pass stands whose current
token it presents.  A response that is repeated has read from an earlier position of its pass. -/
def VectorBackfillRequest.ReadsFrom (r : VectorBackfillRequest) (now : ℕ)
    (passes : List VectorBackfillPass) (position : ℕ) : Prop :=
  match r.start with
  | .origin => position = 0
  | .continuation encoded => ∃ pass ∈ passes, r.Holds now pass ∧
      ((∃ current, pass.current = some current ∧ current.token.toList = encoded ∧
          current.position.get = position) ∨
        ∃ retry, pass.retry = some retry ∧ retry.token.toList = encoded)

/-- What a request whose authority is in order is answered. -/
inductive VectorAnswer (t : Tables) (r : VectorBackfillRequest)
    (m : Moment vectorContinuationLength) (passes : List VectorBackfillPass) :
    Except StoreError StoreVectorBackfillOutcome → Prop
  /-- A page that can be delivered, and has moved on unless the document has no updates. -/
  | page {response : AuthorizedVectorBackfillPage} (hdeliverable : response.Deliverable)
    (hmoves : t.log r.documentId ≠ [] → ∃ position, r.ReadsFrom m.now passes position ∧
      response.page.MovesPast t r.documentId r.oplogVersion position)
    (hempty : t.log r.documentId = [] → response = ⟨⟨false, none, []⟩, none⟩) :
    VectorAnswer t r m passes (.ok (.authorized response))
  /-- No pass that the request is entitled to answers to its token. -/
  | invalid {encoded : List UInt8} (hstart : r.start.token? = some encoded)
    (hnone : ∀ pass ∈ passes, r.Holds m.now pass → ∀ token : VectorToken,
      token.toList = encoded → vectorPassContainsToken pass token = false) :
    VectorAnswer t r m passes (.ok .invalidContinuation)
  /-- There is no room for another pass, or four draws in a row returned tokens in use. -/
  | backpressure
    (hbound : r.start = .origin ∧ canAdmitVectorPass (r.others passes) r.channel.id
        r.documentId r.capabilityId = false ∨
      ∀ i < 4, ∃ token, m.draw i = some token ∧ ∃ pass ∈ passes, token ∈ pass.tokens) :
    VectorAnswer t r m passes (.ok .backpressure)
  /-- The random source has failed. -/
  | entropy {i : ℕ} (hdraw : m.draw i = none) :
    VectorAnswer t r m passes (.error .entropyUnavailable)

section VectorBackfill

variable {t t' : Tables} {d : DocumentId} {v : LoroOplogVersion} {r : VectorBackfillRequest}
  {m : Moment vectorContinuationLength} {passes : List VectorBackfillPass}
  {pass : VectorBackfillPass}

theorem StoredVectorBackfillPage.MovesPast.mono {page : StoredVectorBackfillPage} {position : ℕ}
    (h : page.MovesPast t d v position) (hw : UpdatesWellFormed t)
    (hprefixed : t.log d <+: t'.log d) : page.MovesPast t' d v position := by
  obtain ⟨k, hk, hexamined, hle, hupdates⟩ := h
  refine ⟨k, hk, hexamined, hle.trans hprefixed.length_le, ?_⟩
  rw [hupdates, List.take_drop, List.take_drop, take_metadataLog hw hprefixed hle]

/-- The log may grow. -/
theorem VectorBackfillPass.Readable.mono (h : pass.Readable t) (hw : UpdatesWellFormed t)
    (hprefixed : t.log pass.documentId <+: t'.log pass.documentId) : pass.Readable t' where
  terminal_le := h.terminal_le.trans hprefixed.length_le
  inside := h.inside
  retry := fun retry hretry ↦ by
    obtain ⟨hdeliverable, position, hmoves⟩ := h.retry retry hretry
    exact ⟨hdeliverable, position, hmoves.mono hw hprefixed⟩

/-- **A page cut from inside a snapshot fits, and moves on.** -/
theorem vectorBackfillIn_deliverable (hw : UpdatesWellFormed t) (v : LoroOplogVersion)
    (position : AcceptanceSequence) {upper : AcceptanceSequence}
    (hupper : upper.get ≤ (t.log d).length)
    (hlt : position.get < upper.get) :
    ∃ page, vectorBackfillIn t d position upper v maxEnumerableMetadataLength = .ok page ∧
      EntriesFit maxEnumerableMetadataLength page.updates ∧
      page.MovesPast t d v position.get ∧
      ∃ sequence, page.lastExaminedSequence = some sequence ∧
        (page.hasMore = true → sequence.get < upper.get) := by
  obtain ⟨k, hk, -, last, hpage, -, hlast, hpos⟩ := hw.vectorBackfillIn_spec v
    maxEnumerableMetadataLength (Nat.lt_of_le_of_lt (Nat.zero_le _) hlt) hupper (le_of_lt hlt)
  have hkpos := hpos le_rfl hlt
  obtain ⟨sequence, rfl, hsequence⟩ := hlast hkpos
  refine ⟨_, hpage, vectorBackfillIn_fits hpage, ⟨k, hkpos, hsequence, hk.trans hupper, rfl⟩,
    sequence, rfl, fun hmore ↦ ?_⟩
  rw [hsequence]
  exact of_decide_eq_true hmore

/-- A page that is followed by a token exactly when there is more can be delivered. -/
theorem deliverable_of_entriesFit {page : StoredVectorBackfillPage}
    (hfits : EntriesFit maxEnumerableMetadataLength page.updates) (token : Option VectorToken)
    (hmore : page.hasMore = token.isSome) :
    AuthorizedVectorBackfillPage.Deliverable ⟨page, token.map Bytes.toList⟩ := by
  refine ⟨hfits, by rw [hmore, Option.isSome_map], fun bytes hbytes ↦ ?_⟩
  obtain ⟨token, -, rfl⟩ := Option.map_eq_some_iff.mp hbytes
  exact token.length_eq

/-- A token that no pass of the request answers to is not honoured. -/
theorem vectorBackfillToken_invalid {encoded : List UInt8}
    (hnone : ∀ pass ∈ passes, r.Holds m.now pass → ∀ token : VectorToken,
      token.toList = encoded → vectorPassContainsToken pass token = false) :
    (vectorBackfillToken t r m encoded passes).1 = .ok .invalidContinuation := by
  simp only [vectorBackfillToken]
  split
  · rfl
  rename_i token htoken
  split
  · rfl
  rename_i index hfind
  split
  · rfl
  rename_i pass hindex
  obtain ⟨hpass, hcontains⟩ := answers_of_findIdx? hfind hindex
  refine congrArg Prod.fst (if_pos (by_contra fun hcontext ↦ ?_))
  simp only [not_or, not_not, not_le] at hcontext
  rw [hnone pass hpass ⟨hcontext.1, hcontext.2⟩ token
    (Bytes.ofList?_eq_some_iff.mp htoken)] at hcontains
  exact absurd hcontains (by simp)

/-- Where no token is free, four have been drawn that are in use. -/
theorem VectorAnswer.of_mint_eq_none {others : List VectorBackfillPass}
    (hsub : ∀ pass ∈ others, pass ∈ passes) (hmint : mintVectorToken m.draw others = .ok none) :
    VectorAnswer t r m passes (.ok .backpressure) := by
  refine .backpressure (Or.inr fun i hi ↦ ?_)
  obtain ⟨token, hdraw, pass, hpass, htoken⟩ :=
    DurableUpdateStore.exists_of_mintVectorToken_eq_none hmint i hi
  exact ⟨token, hdraw, pass, hsub pass hpass, htoken⟩

theorem vectorBackfillOrigin_answer (hw : UpdatesWellFormed t)
    (hlimit : r.metadataByteLimit = maxEnumerableMetadataLength) (hstart : r.start = .origin) :
    VectorAnswer t r m passes (vectorBackfillOrigin t r m passes).1 := by
  have hsub : ∀ pass ∈ r.others passes, pass ∈ passes := fun pass hpass ↦
    (List.mem_filter.mp hpass).1
  simp only [vectorBackfillOrigin]
  split
  · rename_i hnone
    have hempty := UpdatesWellFormed.highWaterSequenceIn_eq_none_iff.mp hnone
    exact .page (deliverable_of_entriesFit (entriesFit_nil _) none rfl)
      (fun hne ↦ absurd hempty hne) fun _ ↦ rfl
  rename_i terminal hterminal
  obtain ⟨hpos, hlength⟩ := hw.highWaterSequenceIn_eq_some_iff.mp hterminal
  have hne : t.log r.documentId ≠ [] := List.length_pos_iff.mp hpos
  have hfrom : r.ReadsFrom m.now passes 0 := by rw [VectorBackfillRequest.ReadsFrom, hstart]
  obtain ⟨page, hpage, hfits, hmoves, sequence, hsequence, -⟩ := vectorBackfillIn_deliverable hw
    r.oplogVersion .origin (le_of_eq hlength) (by
      rw [AcceptanceSequence.get_origin]; omega)
  rw [hlimit, hpage]
  simp only
  split
  swap
  · rename_i hmore
    exact .page (deliverable_of_entriesFit hfits none (Bool.eq_false_iff.mpr hmore))
      (fun _ ↦ ⟨0, hfrom, hmoves⟩) fun hempty ↦ absurd hempty hne
  rename_i hmore
  rw [hsequence]
  simp only
  split
  · rename_i hfull
    rw [Bool.not_eq_true'] at hfull
    exact .backpressure (Or.inl ⟨hstart, hfull⟩)
  · split
    · rename_i e hmint
      obtain ⟨rfl, i, hdraw⟩ := draw_of_mint_eq_error hmint
      exact .entropy hdraw
    · rename_i hmint
      exact .of_mint_eq_none hsub hmint
    · rename_i token _
      exact .page (deliverable_of_entriesFit hfits (some token) hmore)
        (fun _ ↦ ⟨0, hfrom, hmoves⟩) fun hempty ↦ absurd hempty hne

theorem vectorBackfillToken_answer (hw : UpdatesWellFormed t)
    (hpasses : VectorPassesWellFormed passes) (hreadable : ∀ pass ∈ passes, pass.Readable t)
    (hlimit : r.metadataByteLimit = maxEnumerableMetadataLength) {encoded : List UInt8}
    (hstart : r.start = .continuation encoded) :
    VectorAnswer t r m passes (vectorBackfillToken t r m encoded passes).1 := by
  by_cases hheld : ∃ pass ∈ passes, r.Holds m.now pass ∧ ∃ token : VectorToken,
      token.toList = encoded ∧ vectorPassContainsToken pass token = true
  · obtain ⟨pass, hpass, hholds, token, rfl, hcontains⟩ := hheld
    rw [vectorPassContainsToken, Bool.or_eq_true, Option.any_eq_true, Option.any_eq_true]
      at hcontains
    have h := hreadable pass hpass
    obtain ⟨-, hdocument, -, hversion⟩ := hholds.owns
    have hreads : ∀ position : ℕ, ((∃ current, pass.current = some current ∧
          current.token.toList = token.toList ∧ current.position.get = position) ∨
        ∃ retry, pass.retry = some retry ∧ retry.token.toList = token.toList) →
        r.ReadsFrom m.now passes position := fun position hor ↦ by
      rw [VectorBackfillRequest.ReadsFrom, hstart]
      exact ⟨pass, hpass, hholds, hor⟩
    rcases hcontains with ⟨current, hcurrent, hmatch⟩ | ⟨retry, hretry, hmatch⟩
    · obtain rfl := of_decide_eq_true hmatch
      have hlt := h.inside current hcurrent
      have hle := h.terminal_le
      rw [hdocument] at hle
      have hne : t.log r.documentId ≠ [] := fun hempty ↦ by
        rw [hempty, List.length_nil] at hle
        omega
      obtain ⟨page, hpage, hfits, hmoves, sequence, hsequence, -⟩ :=
        vectorBackfillIn_deliverable hw r.oplogVersion _ hle hlt
      rw [vectorBackfillToken_current hpasses hpass hholds hcurrent, hlimit, hpage]
      simp only
      have hfrom := hreads _ (Or.inl ⟨current, hcurrent, rfl, rfl⟩)
      cases hnext : nextVectorPosition m passes page with
      | error e =>
        rw [nextVectorPosition, hsequence] at hnext
        split at hnext
        on_goal 2 => exact absurd hnext (by simp)
        simp only at hnext
        split at hnext
        · rename_i hmint
          obtain rfl := Except.error.inj hnext
          obtain ⟨rfl, i, hdraw⟩ := draw_of_mint_eq_error hmint
          exact .entropy hdraw
        · exact absurd hnext (by simp)
        · exact absurd hnext (by simp)
      | ok next =>
        cases next with
        | none =>
          rw [nextVectorPosition, hsequence] at hnext
          split at hnext
          on_goal 2 => exact absurd hnext (by simp)
          simp only at hnext
          split at hnext
          · exact absurd hnext (by simp)
          · rename_i hmint
            exact .of_mint_eq_none (fun _ h ↦ h) hmint
          · exact absurd hnext (by simp)
        | some next =>
          simp only
          have hdeliverable := deliverable_of_entriesFit hfits
            (next.map VectorPassPosition.token) (by
              rw [Option.isSome_map]
              rcases nextVectorPosition_eq_ok_iff.mp hnext with
                ⟨hmore, rfl⟩ | ⟨hmore, _, _, -, -, rfl⟩
              · exact hmore
              · exact hmore)
          rw [Option.map_map] at hdeliverable
          exact .page hdeliverable (fun _ ↦ ⟨_, hfrom, hmoves⟩) fun hempty ↦ absurd hempty hne
    · obtain rfl := of_decide_eq_true hmatch
      rw [vectorBackfillToken_retry hpasses hpass hholds hretry]
      obtain ⟨hdeliverable, position, hmoves⟩ := h.retry retry hretry
      rw [hdocument, hversion] at hmoves
      have hfrom := hreads position (Or.inr ⟨retry, hretry, rfl⟩)
      obtain ⟨k, hk, -, hle, -⟩ := id hmoves
      refine .page hdeliverable (fun _ ↦ ⟨position, hfrom, hmoves⟩) fun hempty ↦ ?_
      rw [hempty, List.length_nil] at hle
      omega
  · have hnone : ∀ pass ∈ passes, r.Holds m.now pass → ∀ token : VectorToken,
        token.toList = encoded → vectorPassContainsToken pass token = false :=
      fun pass hpass hholds token htoken ↦ by
        refine Bool.eq_false_iff.mpr fun hcontains ↦ hheld ?_
        exact ⟨pass, hpass, hholds, token, htoken, hcontains⟩
    rw [vectorBackfillToken_invalid hnone]
    exact .invalid (by rw [hstart]; rfl) hnone

/-- **A vector-backfill request is answered.** -/
theorem vectorBackfillPasses_answer (hw : UpdatesWellFormed t)
    (hpasses : VectorPassesWellFormed passes) (hreadable : ∀ pass ∈ passes, pass.Readable t)
    (hlimit : r.metadataByteLimit = maxEnumerableMetadataLength) :
    VectorAnswer t r m passes (vectorBackfillPasses t r m passes).1 := by
  rw [vectorBackfillPasses]
  split
  · rename_i hstart
    exact vectorBackfillOrigin_answer hw hlimit hstart
  · rename_i encoded hstart
    exact vectorBackfillToken_answer hw hpasses hreadable hlimit hstart

/-- **Passes stay readable.** -/
theorem VectorEffect.readable {result : Except StoreError StoreVectorBackfillOutcome}
    {passes' : List VectorBackfillPass} (h : VectorEffect t r m passes result passes')
    (hw : UpdatesWellFormed t) (hlimit : r.metadataByteLimit = maxEnumerableMetadataLength)
    (hreadable : ∀ pass ∈ passes, pass.Readable t) : ∀ pass ∈ passes', pass.Readable t := by
  cases h with
  | vacant => exact hreadable
  | complete => exact hreadable
  | failed => exact hreadable
  | cleared => exact fun pass hpass ↦ hreadable pass (List.mem_filter.mp hpass).1
  | @started terminal position page token _ hterminal hpage hmore hposition =>
    intro pass hpass
    rcases List.mem_append.mp hpass with hold | hnew
    · exact hreadable pass (List.mem_filter.mp hold).1
    rw [List.mem_singleton.mp hnew]
    obtain ⟨hpos, hlength⟩ := hw.highWaterSequenceIn_eq_some_iff.mp hterminal
    obtain ⟨page', hpage', -, -, sequence, hsequence, hlt⟩ := vectorBackfillIn_deliverable hw
      r.oplogVersion .origin (le_of_eq hlength) (by
        rw [AcceptanceSequence.get_origin]; omega)
    rw [hlimit, hpage'] at hpage
    obtain rfl := Except.ok.inj hpage
    obtain rfl := Option.some_inj.mp (hsequence.symm.trans hposition)
    refine ⟨le_of_eq hlength, fun current hcurrent ↦ ?_, fun retry hretry ↦ absurd hretry (by simp
      [VectorBackfillRequest.newPass])⟩
    rw [← Option.some_inj.mp hcurrent]
    exact hlt hmore
  | refused => exact hreadable
  | repeated => exact hreadable
  | removed _ hindex =>
    exact fun pass hpass ↦ hreadable pass ((perm_cons_eraseIdx hindex).mem_iff.mpr
      (List.mem_cons_of_mem _ ((swapRemove_perm hindex).mem_iff.mp hpass)))
  | @advanced index pass current page next _ hindex hholds hcurrent hpage hnext =>
    intro other hother
    rcases List.mem_cons.mp ((set_perm hindex _).mem_iff.mp hother) with rfl | hold
    · have hpass := hreadable pass (List.mem_of_getElem? hindex)
      obtain ⟨-, hdocument, -, hversion⟩ := hholds.owns
      rw [← hdocument, ← hversion] at hpage
      obtain ⟨page', hpage', hfits, hmoves, sequence, hsequence, hlt⟩ :=
        vectorBackfillIn_deliverable hw pass.oplogVersion _ hpass.terminal_le
          (hpass.inside current hcurrent)
      rw [hlimit, hpage'] at hpage
      obtain rfl := Except.ok.inj hpage
      have hnext' := nextVectorPosition_eq_ok_iff.mp hnext
      refine ⟨hpass.terminal_le, fun position hposition ↦ ?_, fun retry hretry ↦ ?_⟩
      · rcases hnext' with ⟨-, rfl⟩ | ⟨hmore, position', token, hlast, -, rfl⟩
        · exact absurd hposition (by simp [VectorBackfillPass.advance])
        · obtain rfl := Option.some_inj.mp (hsequence.symm.trans hlast)
          rw [← Option.some_inj.mp hposition]
          exact hlt hmore
      · rw [← Option.some_inj.mp hretry]
        refine ⟨?_, current.position.get, hmoves⟩
        have hdeliverable := deliverable_of_entriesFit hfits
          (next.map VectorPassPosition.token) (by
            rw [Option.isSome_map]
            rcases hnext' with ⟨hmore, rfl⟩ | ⟨hmore, _, _, -, -, rfl⟩
            · exact hmore
            · exact hmore)
        rw [Option.map_map] at hdeliverable
        exact hdeliverable
    · exact hreadable other ((perm_cons_eraseIdx hindex).mem_iff.mpr (List.mem_cons_of_mem _ hold))

end VectorBackfill

/-! ## Runs -/

/-- A pagination request leaves room for one entry of the longest kind, and no more. -/
def Request.Roomy : Request → Prop
  | .enumerate r _ => r.metadataByteLimit = maxEnumerableMetadataLength
  | .vectorBackfill r _ => r.metadataByteLimit = maxEnumerableMetadataLength
  | _ => True

namespace DurableUpdateStore

variable {sha256 : List UInt8 → Bytes verifierLength} {s : DurableUpdateStore}

/-- Every pass of the store can be read on. -/
structure Readable (s : DurableUpdateStore) : Prop where
  enumeration : ∀ pass ∈ s.enumerationPasses, pass.Readable s.tables
  vector : ∀ pass ∈ s.vectorPasses, pass.Readable s.tables

theorem readable_initial : Readable initial :=
  ⟨fun _ h ↦ absurd h List.not_mem_nil, fun _ h ↦ absurd h List.not_mem_nil⟩

/-- Passes are as readable after a request as before. -/
theorem Readable.mono (h : s.Readable) (hw : WellFormed s.tables)
    (sha256 : List UInt8 → Bytes verifierLength) (request : Request) :
    (∀ pass ∈ s.enumerationPasses, pass.Readable (s.step sha256 request).tables) ∧
      ∀ pass ∈ s.vectorPasses, pass.Readable (s.step sha256 request).tables :=
  ⟨fun pass hpass ↦ (h.enumeration pass hpass).mono (log_step hw request _),
    fun pass hpass ↦ (h.vector pass hpass).mono hw.log (log_step hw request _)⟩

theorem Readable.step (h : s.Readable) (hw : WellFormed s.tables) {request : Request}
    (hroomy : request.Roomy) : (s.step sha256 request).Readable := by
  obtain ⟨henumeration, hvector⟩ := h.mono hw sha256 request
  by_cases henumerate : ∃ r m, request = .enumerate r m
  · obtain ⟨r, m, rfl⟩ := henumerate
    rcases enumerate_step sha256 s r m with ⟨_, -, -, he⟩ | ⟨-, -, result, passes, he, heffect⟩
    · rw [step_eq he]
      exact h
    · rw [step_eq he]
      exact ⟨heffect.readable hw.log hroomy fun pass hpass ↦
        h.enumeration pass (List.mem_filter.mp hpass).1, h.vector⟩
  by_cases hbackfill : ∃ r m, request = .vectorBackfill r m
  · obtain ⟨r, m, rfl⟩ := hbackfill
    rcases vectorBackfill_step sha256 s r m with ⟨_, -, -, he⟩ | ⟨-, -, result, passes, he, heffect⟩
    · rw [step_eq he]
      exact h
    · rw [step_eq he]
      exact ⟨h.enumeration, heffect.readable hw.log hroomy fun pass hpass ↦
        h.vector pass (List.mem_filter.mp hpass).1⟩
  · obtain ⟨he, hv⟩ := @passes_step sha256 s request
      (fun r m heq ↦ henumerate ⟨r, m, heq⟩) fun r m heq ↦ hbackfill ⟨r, m, heq⟩
    constructor
    · rw [he]
      exact fun pass hpass ↦ henumeration pass (List.mem_filter.mp hpass).1
    · rw [hv]
      exact fun pass hpass ↦ hvector pass (List.mem_filter.mp hpass).1

/-- **Every pass of a reachable store can be read on.** -/
theorem readable_run (sha256 : List UInt8 → Bytes verifierLength) {requests : List Request}
    (hroomy : ∀ request ∈ requests, request.Roomy) : (initial.run sha256 requests).Readable := by
  induction requests using List.reverseRecOn with
  | nil => exact readable_initial
  | append_singleton requests request ih =>
    rw [run_concat]
    refine (ih fun other hother ↦ hroomy other (List.mem_append_left _ hother)).step
      (wellFormed_runRequests wellFormed_initial requests) (hroomy request ?_)
    exact List.mem_append_right _ (List.mem_singleton_self _)

end DurableUpdateStore

end Renee
