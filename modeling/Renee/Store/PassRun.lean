import Renee.Store.Ending

/-!
# Passes in every run

The lists of passes are in order in every reachable store (`passesWellFormed_run`), and a token is
honoured for what it was issued for.

What a token was issued for is read off the trace: `enumerationIssues` and `vectorIssues` list the
tokens that have been handed out, the newest first, each with the channel, the document, the
capability, and the mode or the version it goes with.  The random source may return a token again
once no pass answers to it any more, so it is the last issue that counts.  `enumerationIssued_run`
and `vectorIssued_run` say that the tickets of the passes agree with these lists, and
`pagination_unambiguous` draws the conclusions.
-/

set_option autoImplicit false

namespace Renee

open ByteString TokenRegistry

/-! ## What has been issued -/

/-- What an enumeration token is good for. -/
@[ext] structure EnumerationTicket where
  channel : BrokerChannel
  documentId : DocumentId
  capabilityId : CapabilityId
  mode : EnumerationTokenMode

/-- What a vector-backfill token is good for. -/
@[ext] structure VectorTicket where
  channel : BrokerChannel
  documentId : DocumentId
  capabilityId : CapabilityId
  oplogVersion : LoroOplogVersion

/-- The token a reply hands out for enumeration. -/
def enumerationIssue : Request × Reply → Option (List UInt8 × EnumerationTicket)
  | (.enumerate r _, .enumerated (.ok (.authorized response))) =>
    response.nextCursor.map fun encoded ↦
      (encoded, ⟨r.channel, r.documentId, r.capabilityId, response.page.nextMode⟩)
  | _ => none

/-- The token a reply hands out for vector backfill. -/
def vectorIssue : Request × Reply → Option (List UInt8 × VectorTicket)
  | (.vectorBackfill r _, .backfilled (.ok (.authorized response))) =>
    response.nextCursor.map fun encoded ↦
      (encoded, ⟨r.channel, r.documentId, r.capabilityId, r.oplogVersion⟩)
  | _ => none

/-- The enumeration tokens handed out, the newest first. -/
def enumerationIssues (trace : List (Request × Reply)) : List (List UInt8 × EnumerationTicket) :=
  (trace.filterMap enumerationIssue).reverse

/-- The vector-backfill tokens handed out, the newest first. -/
def vectorIssues (trace : List (Request × Reply)) : List (List UInt8 × VectorTicket) :=
  (trace.filterMap vectorIssue).reverse

theorem enumerationIssues_concat (trace : List (Request × Reply)) (event : Request × Reply) :
    enumerationIssues (trace ++ [event]) =
      (enumerationIssue event).toList ++ enumerationIssues trace := by
  rw [enumerationIssues, List.filterMap_append, List.reverse_append, enumerationIssues]
  cases h : enumerationIssue event <;> simp [h]

theorem vectorIssues_concat (trace : List (Request × Reply)) (event : Request × Reply) :
    vectorIssues (trace ++ [event]) = (vectorIssue event).toList ++ vectorIssues trace := by
  rw [vectorIssues, List.filterMap_append, List.reverse_append, vectorIssues]
  cases h : vectorIssue event <;> simp [h]

/-- The tickets of a pass. -/
def EnumerationPass.tickets (broker : ℕ) (pass : EnumerationPass) :
    List (List UInt8 × EnumerationTicket) :=
  let ticket := EnumerationTicket.mk ⟨broker, pass.channelId⟩ pass.documentId pass.capabilityId
  (pass.current.token.toList, ticket pass.current.mode) ::
    (pass.retry.map fun retry ↦ (retry.token.toList, ticket retry.mode)).toList

/-- The tickets of a pass. -/
def VectorBackfillPass.tickets (broker : ℕ) (pass : VectorBackfillPass) :
    List (List UInt8 × VectorTicket) :=
  let ticket := VectorTicket.mk ⟨broker, pass.channelId⟩ pass.documentId pass.capabilityId
    pass.oplogVersion
  (pass.current.map fun current ↦ (current.token.toList, ticket)).toList ++
    (pass.retry.map fun retry ↦ (retry.token.toList, ticket)).toList

/-! ## One enumeration request -/

section Enumeration

variable {t : Tables} {generation : StoreGeneration} {r : EnumerateRequest}
  {m : Moment enumerationContinuationLength} {passes passes' : List EnumerationPass}
  {result : Except StoreError StoreEnumerateOutcome} {broker : ℕ} {pass : EnumerationPass}
  {log : List (List UInt8 × EnumerationTicket)}

theorem EnumerationPass.exists_of_mem_tickets {ticket : List UInt8 × EnumerationTicket}
    (h : ticket ∈ pass.tickets broker) : ∃ token ∈ pass.tokens, ticket.1 = token.toList := by
  rcases List.mem_cons.mp h with rfl | hretry
  · exact ⟨_, List.mem_cons_self .., rfl⟩
  · rw [Option.mem_toList] at hretry
    obtain ⟨retry, hsome, rfl⟩ := Option.map_eq_some_iff.mp hretry
    refine ⟨retry.token, List.mem_cons_of_mem _ ?_, rfl⟩
    rw [hsome]
    exact List.mem_singleton_self _

/-- A minted token is on no ticket. -/
theorem fresh_of_mintEnumerationToken {draw : ℕ → Option EnumerationToken}
    {token : EnumerationToken} (h : mintEnumerationToken draw passes = .ok (some token)) :
    ∀ e ∈ passes, ∀ ticket ∈ e.tickets broker, ticket.1 ≠ token.toList := by
  intro e he ticket ht heq
  obtain ⟨other, hother, hticket⟩ := EnumerationPass.exists_of_mem_tickets ht
  obtain rfl : other = token := Bytes.ext (hticket.symm.trans heq)
  exact not_mem_tokens_of_mintEnumerationToken h e he hother

theorem EnumerationPass.current_mem_tickets : (pass.current.token.toList,
    (⟨⟨broker, pass.channelId⟩, pass.documentId, pass.capabilityId, pass.current.mode⟩ :
      EnumerationTicket)) ∈ pass.tickets broker := List.mem_cons_self ..

theorem EnumerationPass.retry_mem_tickets {retry : EnumerationPassRetry}
    (h : pass.retry = some retry) : (retry.token.toList,
      (⟨⟨broker, pass.channelId⟩, pass.documentId, pass.capabilityId, retry.mode⟩ :
        EnumerationTicket)) ∈ pass.tickets broker := by
  rw [tickets, h]
  exact List.mem_cons_of_mem _ (List.mem_singleton_self _)

/-- What a request presents names the context of its own passes. -/
theorem EnumerateRequest.ticket_eq (hbroker : r.channel.broker = broker) (howns : r.owns pass)
    (mode : EnumerationTokenMode) :
    (⟨⟨broker, pass.channelId⟩, pass.documentId, pass.capabilityId, mode⟩ : EnumerationTicket) =
      ⟨r.channel, r.documentId, r.capabilityId, mode⟩ := by
  obtain ⟨hchannel, hdocument, hcapability⟩ := howns
  rw [hchannel, hdocument, hcapability, ← hbroker]

/-- Only an authorized response hands a token out. -/
theorem enumerationIssue_of_ne (hresult : ∀ response, result ≠ .ok (.authorized response)) :
    enumerationIssue (.enumerate r m, .enumerated result) = none := by
  rcases result with e | outcome
  · rfl
  cases outcome with
  | authorized response => exact absurd rfl (hresult response)
  | _ => rfl

/-- The response kept for the token consumed last hands out the current one. -/
def EnumerationPass.KeepsResponse (pass : EnumerationPass) : Prop :=
  ∀ retry, pass.retry = some retry →
    retry.response.nextCursor = some pass.current.token.toList ∧
      retry.response.page.nextMode = pass.current.mode

theorem EnumerationEffect.keepsResponse
    (h : EnumerationEffect t generation r m passes result passes')
    (hkeeps : ∀ pass ∈ passes, pass.KeepsResponse) : ∀ pass ∈ passes', pass.KeepsResponse := by
  intro pass hpass
  cases h with
  | cleared => exact hkeeps pass (List.mem_filter.mp hpass).1
  | started =>
    rcases List.mem_append.mp hpass with hold | hnew
    · exact hkeeps pass (List.mem_filter.mp hold).1
    · rw [List.mem_singleton.mp hnew]
      exact fun retry hretry ↦ absurd hretry (by simp [EnumerateRequest.newPass])
  | refused => exact hkeeps pass hpass
  | repeated => exact hkeeps pass hpass
  | atTail => exact hkeeps pass hpass
  | removed _ hindex => exact hkeeps pass (mem_of_mem_swapRemove hindex hpass)
  | advanced _ hindex =>
    rcases List.mem_or_eq_of_mem_set hpass with hold | rfl
    · exact hkeeps pass hold
    · intro retry hretry
      rw [← Option.some_inj.mp hretry]
      exact ⟨rfl, rfl⟩

/-- **The tickets of the passes stay the last ones issued.** -/
theorem EnumerationEffect.issued (h : EnumerationEffect t generation r m passes result passes')
    (hbroker : r.channel.broker = broker) (hkeeps : ∀ pass ∈ passes, pass.KeepsResponse)
    (hissued : Issued (EnumerationPass.tickets broker) log passes) :
    Issued (EnumerationPass.tickets broker)
      ((enumerationIssue (.enumerate r m, .enumerated result)).toList ++ log) passes' := by
  cases h with
  | cleared hstart hresult =>
    have hnone : enumerationIssue (.enumerate r m, .enumerated result) = none := by
      rcases result with e | outcome
      · rfl
      cases outcome with
      | authorized response =>
        rw [(hresult response rfl).2]
        rfl
      | _ => rfl
    rw [hnone]
    exact hissued.mono fun e he ↦ (List.mem_filter.mp he).1
  | started _ _ _ _ _ hmint =>
    refine (hissued.mono fun e he ↦ (List.mem_filter.mp he).1).concat
      (fresh_of_mintEnumerationToken hmint) fun ticket ht ↦ ?_
    rw [List.mem_singleton.mp ht, ← hbroker]
    rfl
  | refused hstart hresult =>
    rw [enumerationIssue_of_ne hresult]
    exact hissued
  | @repeated pass retry _ hpass hholds hretry =>
    obtain ⟨hcursor, hmode⟩ := hkeeps pass hpass retry hretry
    simp only [enumerationIssue, hcursor, hmode, Option.map_some, Option.toList_some]
    refine hissued.again ?_
    rw [← EnumerateRequest.ticket_eq hbroker hholds.owns]
    exact hissued pass hpass _ EnumerationPass.current_mem_tickets
  | atTail => exact hissued
  | removed _ hindex => exact hissued.mono fun e he ↦ mem_of_mem_swapRemove hindex he
  | @advanced index pass lower terminal nextOrdinal page next _ hindex hholds _ _ _ hmint =>
    refine hissued.set hindex (fresh_of_mintEnumerationToken hmint) fun ticket ht ↦ ?_
    rcases List.mem_cons.mp ht with rfl | hretry
    · exact Or.inl (Prod.ext rfl (EnumerateRequest.ticket_eq hbroker hholds.owns _))
    · rw [List.mem_singleton.mp hretry]
      exact Or.inr EnumerationPass.current_mem_tickets

/-- **A token is honoured for what it was last issued for.** -/
theorem EnumerationEffect.lookup_of_authorized {mode : EnumerationTokenMode}
    {encoded : List UInt8} {response : AuthorizedStoredUpdatePage}
    (h : EnumerationEffect t generation r m passes (.ok (.authorized response)) passes')
    (hbroker : r.channel.broker = broker)
    (hissued : Issued (EnumerationPass.tickets broker) log passes)
    (hstart : r.start.token? = some (mode, encoded)) :
    log.lookup encoded = some ⟨r.channel, r.documentId, r.capabilityId, mode⟩ := by
  have horigin : r.start ≠ .origin := fun heq ↦ by
    rw [heq] at hstart
    exact absurd hstart (by simp [StoreEnumerateStart.token?])
  generalize hresult : (Except.ok (StoreEnumerateOutcome.authorized response) :
    Except StoreError StoreEnumerateOutcome) = result at h
  cases h with
  | cleared heq => exact absurd heq horigin
  | started heq => exact absurd heq horigin
  | refused _ hne => exact absurd hresult.symm (hne response)
  | @repeated pass retry heq hpass hholds hretry =>
    obtain ⟨rfl, rfl⟩ := Prod.mk_inj.mp (Option.some_inj.mp (hstart.symm.trans heq))
    rw [← EnumerateRequest.ticket_eq hbroker hholds.owns]
    exact hissued pass hpass _ (EnumerationPass.retry_mem_tickets hretry)
  | @atTail pass heq hpass hholds =>
    obtain ⟨rfl, rfl⟩ := Prod.mk_inj.mp (Option.some_inj.mp (hstart.symm.trans heq))
    rw [← EnumerateRequest.ticket_eq hbroker hholds.owns]
    exact hissued pass hpass _ EnumerationPass.current_mem_tickets
  | removed => exact absurd hresult (by simp)
  | @advanced index pass lower terminal nextOrdinal page next heq hindex hholds =>
    obtain ⟨rfl, rfl⟩ := Prod.mk_inj.mp (Option.some_inj.mp (hstart.symm.trans heq))
    rw [← EnumerateRequest.ticket_eq hbroker hholds.owns]
    exact hissued pass (List.mem_of_getElem? hindex) _ EnumerationPass.current_mem_tickets

end Enumeration

/-! ## One vector-backfill request -/

section VectorBackfill

variable {t : Tables} {r : VectorBackfillRequest} {m : Moment vectorContinuationLength}
  {passes passes' : List VectorBackfillPass}
  {result : Except StoreError StoreVectorBackfillOutcome} {broker : ℕ} {pass : VectorBackfillPass}
  {log : List (List UInt8 × VectorTicket)}

theorem VectorBackfillPass.exists_of_mem_tickets {ticket : List UInt8 × VectorTicket}
    (h : ticket ∈ pass.tickets broker) : ∃ token ∈ pass.tokens, ticket.1 = token.toList := by
  rcases List.mem_append.mp h with hcurrent | hretry
  · rw [Option.mem_toList] at hcurrent
    obtain ⟨current, hsome, rfl⟩ := Option.map_eq_some_iff.mp hcurrent
    refine ⟨current.token, List.mem_append_left _ ?_, rfl⟩
    rw [hsome]
    exact List.mem_singleton_self _
  · rw [Option.mem_toList] at hretry
    obtain ⟨retry, hsome, rfl⟩ := Option.map_eq_some_iff.mp hretry
    refine ⟨retry.token, List.mem_append_right _ ?_, rfl⟩
    rw [hsome]
    exact List.mem_singleton_self _

/-- A minted token is on no ticket. -/
theorem fresh_of_mintVectorToken {draw : ℕ → Option VectorToken} {token : VectorToken}
    (h : mintVectorToken draw passes = .ok (some token)) :
    ∀ e ∈ passes, ∀ ticket ∈ e.tickets broker, ticket.1 ≠ token.toList := by
  intro e he ticket ht heq
  obtain ⟨other, hother, hticket⟩ := VectorBackfillPass.exists_of_mem_tickets ht
  obtain rfl : other = token := Bytes.ext (hticket.symm.trans heq)
  exact not_mem_tokens_of_mintVectorToken h e he hother

theorem VectorBackfillPass.current_mem_tickets {current : VectorPassPosition}
    (h : pass.current = some current) : (current.token.toList,
      (⟨⟨broker, pass.channelId⟩, pass.documentId, pass.capabilityId, pass.oplogVersion⟩ :
        VectorTicket)) ∈ pass.tickets broker := by
  rw [tickets, h]
  exact List.mem_append_left _ (List.mem_singleton_self _)

theorem VectorBackfillPass.retry_mem_tickets {retry : VectorPassRetry}
    (h : pass.retry = some retry) : (retry.token.toList,
      (⟨⟨broker, pass.channelId⟩, pass.documentId, pass.capabilityId, pass.oplogVersion⟩ :
        VectorTicket)) ∈ pass.tickets broker := by
  rw [tickets, h]
  exact List.mem_append_right _ (List.mem_singleton_self _)

/-- What a request presents names the context of its own passes. -/
theorem VectorBackfillRequest.ticket_eq (hbroker : r.channel.broker = broker)
    (howns : r.owns pass) :
    (⟨⟨broker, pass.channelId⟩, pass.documentId, pass.capabilityId, pass.oplogVersion⟩ :
      VectorTicket) = ⟨r.channel, r.documentId, r.capabilityId, r.oplogVersion⟩ := by
  obtain ⟨hchannel, hdocument, hcapability, hversion⟩ := howns
  rw [hchannel, hdocument, hcapability, hversion, ← hbroker]

/-- Only an authorized response hands a token out. -/
theorem vectorIssue_of_ne (hresult : ∀ response, result ≠ .ok (.authorized response)) :
    vectorIssue (.vectorBackfill r m, .backfilled result) = none := by
  rcases result with e | outcome
  · rfl
  cases outcome with
  | authorized response => exact absurd rfl (hresult response)
  | _ => rfl

/-- The response kept for the token consumed last hands out the current one, if there is one. -/
def VectorBackfillPass.KeepsResponse (pass : VectorBackfillPass) : Prop :=
  ∀ retry, pass.retry = some retry →
    retry.response.nextCursor = pass.current.map fun current ↦ current.token.toList

theorem VectorEffect.keepsResponse (h : VectorEffect t r m passes result passes')
    (hkeeps : ∀ pass ∈ passes, pass.KeepsResponse) : ∀ pass ∈ passes', pass.KeepsResponse := by
  intro pass hpass
  cases h with
  | vacant => exact hkeeps pass hpass
  | complete => exact hkeeps pass hpass
  | failed => exact hkeeps pass hpass
  | cleared => exact hkeeps pass (List.mem_filter.mp hpass).1
  | started =>
    rcases List.mem_append.mp hpass with hold | hnew
    · exact hkeeps pass (List.mem_filter.mp hold).1
    · rw [List.mem_singleton.mp hnew]
      exact fun retry hretry ↦ absurd hretry (by simp [VectorBackfillRequest.newPass])
  | refused => exact hkeeps pass hpass
  | repeated => exact hkeeps pass hpass
  | removed _ hindex => exact hkeeps pass (mem_of_mem_swapRemove hindex hpass)
  | advanced _ hindex =>
    rcases List.mem_or_eq_of_mem_set hpass with hold | rfl
    · exact hkeeps pass hold
    · intro retry hretry
      rw [← Option.some_inj.mp hretry]
      rfl

/-- **The tickets of the passes stay the last ones issued.** -/
theorem VectorEffect.issued (h : VectorEffect t r m passes result passes')
    (hbroker : r.channel.broker = broker) (hkeeps : ∀ pass ∈ passes, pass.KeepsResponse)
    (hissued : Issued (VectorBackfillPass.tickets broker) log passes) :
    Issued (VectorBackfillPass.tickets broker)
      ((vectorIssue (.vectorBackfill r m, .backfilled result)).toList ++ log) passes' := by
  cases h with
  | vacant => exact hissued
  | complete => exact hissued
  | failed => exact hissued
  | cleared _ _ _ _ _ hresult =>
    rw [vectorIssue_of_ne hresult]
    exact hissued.mono fun e he ↦ (List.mem_filter.mp he).1
  | started _ _ _ _ _ _ hmint =>
    refine (hissued.mono fun e he ↦ (List.mem_filter.mp he).1).concat
      (fresh_of_mintVectorToken hmint) fun ticket ht ↦ ?_
    rw [List.mem_singleton.mp ht, ← hbroker]
    rfl
  | refused hstart hresult =>
    rw [vectorIssue_of_ne hresult]
    exact hissued
  | @repeated pass retry _ hpass hholds hretry =>
    have hcursor := hkeeps pass hpass retry hretry
    cases hcurrent : pass.current with
    | none =>
      rw [hcurrent] at hcursor
      simp only [vectorIssue, hcursor, Option.map_none, Option.toList_none]
      exact hissued
    | some current =>
      rw [hcurrent] at hcursor
      simp only [vectorIssue, hcursor, Option.map_some, Option.toList_some]
      refine hissued.again ?_
      rw [← VectorBackfillRequest.ticket_eq hbroker hholds.owns]
      exact hissued pass hpass _ (VectorBackfillPass.current_mem_tickets hcurrent)
  | removed _ hindex => exact hissued.mono fun e he ↦ mem_of_mem_swapRemove hindex he
  | @advanced index pass current page next _ hindex hholds hcurrent _ hnext =>
    have hold : ∀ ticket ∈ (pass.advance current.token next page
        (m.later + vectorPassIdleTtl)).tickets broker,
        (∃ position, next = some position ∧ ticket = (position.token.toList,
          ⟨r.channel, r.documentId, r.capabilityId, r.oplogVersion⟩)) ∨
        ticket ∈ pass.tickets broker := by
      intro ticket ht
      rcases List.mem_append.mp ht with hnew | hretry
      · rw [Option.mem_toList] at hnew
        obtain ⟨position, hsome, rfl⟩ := Option.map_eq_some_iff.mp hnew
        exact Or.inl ⟨position, hsome,
          Prod.ext rfl (VectorBackfillRequest.ticket_eq hbroker hholds.owns)⟩
      · rw [List.mem_singleton.mp hretry]
        exact Or.inr (VectorBackfillPass.current_mem_tickets hcurrent)
    rcases nextVectorPosition_eq_ok_iff.mp hnext with ⟨-, rfl⟩ | ⟨-, position, token, -, hmint, rfl⟩
    · -- the last page issues no token
      intro e he ticket ht
      rcases List.mem_or_eq_of_mem_set he with hmem | rfl
      · exact hissued e hmem ticket ht
      · rcases hold ticket ht with ⟨position, hsome, -⟩ | hticket
        · exact absurd hsome (by simp)
        · exact hissued pass (List.mem_of_getElem? hindex) ticket hticket
    · refine hissued.set hindex (fresh_of_mintVectorToken hmint) fun ticket ht ↦ ?_
      refine (hold ticket ht).imp_left ?_
      rintro ⟨position, hsome, rfl⟩
      rw [← Option.some_inj.mp hsome]

/-- **A token is honoured for what it was last issued for.** -/
theorem VectorEffect.lookup_of_authorized {encoded : List UInt8}
    {response : AuthorizedVectorBackfillPage}
    (h : VectorEffect t r m passes (.ok (.authorized response)) passes')
    (hbroker : r.channel.broker = broker)
    (hissued : Issued (VectorBackfillPass.tickets broker) log passes)
    (hstart : r.start.token? = some encoded) :
    log.lookup encoded = some ⟨r.channel, r.documentId, r.capabilityId, r.oplogVersion⟩ := by
  have horigin : r.start ≠ .origin := fun heq ↦ by
    rw [heq] at hstart
    exact absurd hstart (by simp [StoreVectorBackfillStart.token?])
  generalize hresult : (Except.ok (StoreVectorBackfillOutcome.authorized response) :
    Except StoreError StoreVectorBackfillOutcome) = result at h
  cases h with
  | vacant heq => exact absurd heq horigin
  | complete heq => exact absurd heq horigin
  | failed heq => exact absurd heq horigin
  | cleared heq => exact absurd heq horigin
  | started heq => exact absurd heq horigin
  | refused _ hne => exact absurd hresult.symm (hne response)
  | @repeated pass retry heq hpass hholds hretry =>
    obtain rfl := Option.some_inj.mp (hstart.symm.trans heq)
    rw [← VectorBackfillRequest.ticket_eq hbroker hholds.owns]
    exact hissued pass hpass _ (VectorBackfillPass.retry_mem_tickets hretry)
  | removed => exact absurd hresult (by simp)
  | @advanced index pass current page next heq hindex hholds hcurrent =>
    obtain rfl := Option.some_inj.mp (hstart.symm.trans heq)
    rw [← VectorBackfillRequest.ticket_eq hbroker hholds.owns]
    exact hissued pass (List.mem_of_getElem? hindex) _
      (VectorBackfillPass.current_mem_tickets hcurrent)

end VectorBackfill

/-! ## Runs -/

namespace DurableUpdateStore

variable {sha256 : List UInt8 → Bytes verifierLength} {s : DurableUpdateStore}

/-- The invariant of the passes of a store, with the trace that has led there. -/
structure PassesWellFormed (s : DurableUpdateStore) (trace : List (Request × Reply)) : Prop where
  enumeration : EnumerationPassesWellFormed s.enumerationPasses
  vector : VectorPassesWellFormed s.vectorPasses
  enumerationKeeps : ∀ pass ∈ s.enumerationPasses, pass.KeepsResponse
  vectorKeeps : ∀ pass ∈ s.vectorPasses, pass.KeepsResponse
  enumerationIssued : Issued (EnumerationPass.tickets s.subscriptions.broker)
    (enumerationIssues trace) s.enumerationPasses
  vectorIssued : Issued (VectorBackfillPass.tickets s.subscriptions.broker) (vectorIssues trace)
    s.vectorPasses

theorem passesWellFormed_initial : PassesWellFormed initial [] where
  enumeration := enumerationPassesWellFormed_nil
  vector := vectorPassesWellFormed_nil
  enumerationKeeps := fun _ h ↦ absurd h List.not_mem_nil
  vectorKeeps := fun _ h ↦ absurd h List.not_mem_nil
  enumerationIssued := issued_nil
  vectorIssued := issued_nil

theorem enumerationIssue_eq_none {request : Request} (h : ∀ r m, request ≠ .enumerate r m)
    (reply : Reply) : enumerationIssue (request, reply) = none := by
  cases request with
  | enumerate r m => exact absurd rfl (h r m)
  | _ => rfl

theorem vectorIssue_eq_none {request : Request} (h : ∀ r m, request ≠ .vectorBackfill r m)
    (reply : Reply) : vectorIssue (request, reply) = none := by
  cases request with
  | vectorBackfill r m => exact absurd rfl (h r m)
  | _ => rfl

theorem execute_eq {request : Request} {reply : Reply} {s' : DurableUpdateStore}
    (h : s.execute sha256 request = (reply, s')) : (s.execute sha256 request).1 = reply := by
  rw [h]

/-- Passes that are kept keep their tickets: the broker changes only where none are. -/
theorem issued_step {π κ : Type} {tickets : ℕ → π → List (List UInt8 × κ)}
    {log : List (List UInt8 × κ)} {passes : List π} {channelId : π → ℕ} {d : π → DocumentId}
    {c : π → CapabilityId} {request : Request}
    (h : Issued (tickets s.subscriptions.broker) log passes) :
    Issued (tickets (s.step sha256 request).subscriptions.broker) log (passes.filter fun pass ↦
      s.spares sha256 request (channelId pass) (d pass) (c pass)) := by
  by_cases hreopen : ∃ p g b, request = .reopen p g b
  · obtain ⟨p, g, b, rfl⟩ := hreopen
    rw [List.filter_eq_nil_iff.mpr fun pass _ ↦ by simp [spares]]
    exact issued_nil
  · rw [broker_step fun p g b heq ↦ hreopen ⟨p, g, b, heq⟩]
    exact h.mono fun pass hpass ↦ (List.mem_filter.mp hpass).1

theorem PassesWellFormed.enumeration_step {trace : List (Request × Reply)}
    (h : s.PassesWellFormed trace) (sha256 : List UInt8 → Bytes verifierLength)
    (request : Request) :
    let s' := s.step sha256 request
    EnumerationPassesWellFormed s'.enumerationPasses ∧
      (∀ pass ∈ s'.enumerationPasses, pass.KeepsResponse) ∧
      Issued (EnumerationPass.tickets s'.subscriptions.broker)
        (enumerationIssues (trace ++ [(request, (s.execute sha256 request).1)]))
        s'.enumerationPasses := by
  intro s'
  by_cases henumerate : ∃ r m, request = .enumerate r m
  · obtain ⟨r, m, rfl⟩ := henumerate
    rw [enumerationIssues_concat]
    rcases enumerate_step sha256 s r m with
      ⟨result, hresult, -, he⟩ | ⟨hr, -, result, passes, he, heffect⟩
    · have hs' : s' = s := step_eq he
      rw [execute_eq he, hs', enumerationIssue_of_ne hresult]
      exact ⟨h.enumeration, h.enumerationKeeps, h.enumerationIssued⟩
    · have hs' : s' = { s with enumerationPasses := passes } := step_eq he
      have hsub : ∀ pass ∈ s.enumerationPasses.filter fun pass ↦ m.now < pass.expiresAt,
          pass ∈ s.enumerationPasses := fun pass hpass ↦ (List.mem_filter.mp hpass).1
      rw [execute_eq he, hs']
      exact ⟨heffect.wellFormed (h.enumeration.filter _),
        heffect.keepsResponse fun pass hpass ↦ h.enumerationKeeps pass (hsub pass hpass),
        heffect.issued (UpdateSubscriptionRegistry.recognizes_iff.mp hr).symm
          (fun pass hpass ↦ h.enumerationKeeps pass (hsub pass hpass))
          (h.enumerationIssued.mono hsub)⟩
  · have hne : ∀ r m, request ≠ .enumerate r m := fun r m heq ↦ henumerate ⟨r, m, heq⟩
    rw [enumerationIssues_concat, enumerationIssue_eq_none hne, Option.toList_none, List.nil_append,
      show s'.enumerationPasses = _ from enumerationPasses_step hne]
    exact ⟨h.enumeration.filter _,
      fun pass hpass ↦ h.enumerationKeeps pass (List.mem_filter.mp hpass).1,
      issued_step h.enumerationIssued⟩

theorem PassesWellFormed.vector_step {trace : List (Request × Reply)}
    (h : s.PassesWellFormed trace) (sha256 : List UInt8 → Bytes verifierLength)
    (request : Request) :
    let s' := s.step sha256 request
    VectorPassesWellFormed s'.vectorPasses ∧
      (∀ pass ∈ s'.vectorPasses, pass.KeepsResponse) ∧
      Issued (VectorBackfillPass.tickets s'.subscriptions.broker)
        (vectorIssues (trace ++ [(request, (s.execute sha256 request).1)])) s'.vectorPasses := by
  intro s'
  by_cases hbackfill : ∃ r m, request = .vectorBackfill r m
  · obtain ⟨r, m, rfl⟩ := hbackfill
    rw [vectorIssues_concat]
    rcases vectorBackfill_step sha256 s r m with
      ⟨result, hresult, -, he⟩ | ⟨hr, -, result, passes, he, heffect⟩
    · have hs' : s' = s := step_eq he
      rw [execute_eq he, hs', vectorIssue_of_ne hresult]
      exact ⟨h.vector, h.vectorKeeps, h.vectorIssued⟩
    · have hs' : s' = { s with vectorPasses := passes } := step_eq he
      have hsub : ∀ pass ∈ s.vectorPasses.filter fun pass ↦ m.now < pass.expiresAt,
          pass ∈ s.vectorPasses := fun pass hpass ↦ (List.mem_filter.mp hpass).1
      rw [execute_eq he, hs']
      exact ⟨heffect.wellFormed (h.vector.filter _),
        heffect.keepsResponse fun pass hpass ↦ h.vectorKeeps pass (hsub pass hpass),
        heffect.issued (UpdateSubscriptionRegistry.recognizes_iff.mp hr).symm
          (fun pass hpass ↦ h.vectorKeeps pass (hsub pass hpass)) (h.vectorIssued.mono hsub)⟩
  · have hne : ∀ r m, request ≠ .vectorBackfill r m := fun r m heq ↦ hbackfill ⟨r, m, heq⟩
    rw [vectorIssues_concat, vectorIssue_eq_none hne, Option.toList_none, List.nil_append,
      show s'.vectorPasses = _ from vectorPasses_step hne]
    exact ⟨h.vector.filter _, fun pass hpass ↦ h.vectorKeeps pass (List.mem_filter.mp hpass).1,
      issued_step h.vectorIssued⟩

theorem PassesWellFormed.step {trace : List (Request × Reply)} (h : s.PassesWellFormed trace)
    (request : Request) : (s.step sha256 request).PassesWellFormed
      (trace ++ [(request, (s.execute sha256 request).1)]) := by
  obtain ⟨henumeration, hkeeps, hissued⟩ := h.enumeration_step sha256 request
  obtain ⟨hvector, hvectorKeeps, hvectorIssued⟩ := h.vector_step sha256 request
  exact ⟨henumeration, hvector, hkeeps, hvectorKeeps, hissued, hvectorIssued⟩

/-- **The passes are in order in every reachable store.** -/
theorem passesWellFormed_run (sha256 : List UInt8 → Bytes verifierLength)
    (requests : List Request) :
    (initial.run sha256 requests).PassesWellFormed (initial.trace sha256 requests) := by
  induction requests using List.reverseRecOn with
  | nil => exact passesWellFormed_initial
  | append_singleton requests request ih =>
    rw [run_concat, trace_concat]
    exact ih.step request

/-! ## What a request is answered -/

/-- An enumeration token that is honoured was last issued for what it is presented for. -/
theorem enumerate_of_authorized {trace : List (Request × Reply)} (h : s.PassesWellFormed trace)
    {r : EnumerateRequest} {m : Moment enumerationContinuationLength}
    {mode : EnumerationTokenMode} {encoded : List UInt8} {response : AuthorizedStoredUpdatePage}
    (hstart : r.start.token? = some (mode, encoded))
    (hreply : (s.enumerateAuthorized sha256 r m).1 = .ok (.authorized response)) :
    (enumerationIssues trace).lookup encoded =
      some ⟨r.channel, r.documentId, r.capabilityId, mode⟩ := by
  have hexecute : (s.execute sha256 (.enumerate r m)).1 =
      .enumerated (s.enumerateAuthorized sha256 r m).1 := rfl
  rcases enumerate_step sha256 s r m with
    ⟨result, hresult, -, he⟩ | ⟨hr, -, result, passes, he, heffect⟩
  · rw [execute_eq he, hreply] at hexecute
    exact absurd (Reply.enumerated.inj hexecute) (hresult response)
  · rw [execute_eq he, hreply] at hexecute
    obtain rfl := Reply.enumerated.inj hexecute
    exact heffect.lookup_of_authorized (UpdateSubscriptionRegistry.recognizes_iff.mp hr).symm
      (h.enumerationIssued.mono fun pass hpass ↦ (List.mem_filter.mp hpass).1) hstart

theorem vectorBackfill_of_authorized {trace : List (Request × Reply)} (h : s.PassesWellFormed trace)
    {r : VectorBackfillRequest} {m : Moment vectorContinuationLength} {encoded : List UInt8}
    {response : AuthorizedVectorBackfillPage} (hstart : r.start.token? = some encoded)
    (hreply : (s.vectorBackfillAuthorized sha256 r m).1 = .ok (.authorized response)) :
    (vectorIssues trace).lookup encoded =
      some ⟨r.channel, r.documentId, r.capabilityId, r.oplogVersion⟩ := by
  have hexecute : (s.execute sha256 (.vectorBackfill r m)).1 =
      .backfilled (s.vectorBackfillAuthorized sha256 r m).1 := rfl
  rcases vectorBackfill_step sha256 s r m with
    ⟨result, hresult, -, he⟩ | ⟨hr, -, result, passes, he, heffect⟩
  · rw [execute_eq he, hreply] at hexecute
    exact absurd (Reply.backfilled.inj hexecute) (hresult response)
  · rw [execute_eq he, hreply] at hexecute
    obtain rfl := Reply.backfilled.inj hexecute
    exact heffect.lookup_of_authorized (UpdateSubscriptionRegistry.recognizes_iff.mp hr).symm
      (h.vectorIssued.mono fun pass hpass ↦ (List.mem_filter.mp hpass).1) hstart

/-- A taken token is one that a pass answers to. -/
theorem exists_of_mintEnumerationToken_eq_none {draw : ℕ → Option EnumerationToken}
    {passes : List EnumerationPass} (h : mintEnumerationToken draw passes = .ok none) :
    ∀ i < 4, ∃ token, draw i = some token ∧ ∃ pass ∈ passes, token ∈ pass.tokens := by
  intro i hi
  obtain ⟨token, hdraw, htaken⟩ := taken_of_mint_eq_none h hi
  rw [Nat.zero_add] at hdraw
  obtain ⟨pass, hpass, hp⟩ := List.any_eq_true.mp htaken
  refine ⟨token, hdraw, pass, hpass, ?_⟩
  simp only [Bool.or_eq_true, decide_eq_true_eq, Option.any_eq_true] at hp
  rcases hp with rfl | ⟨retry, hretry, rfl⟩
  · exact List.mem_cons_self ..
  · rw [EnumerationPass.tokens, hretry]
    exact List.mem_cons_of_mem _ (List.mem_singleton_self _)

theorem exists_of_mintVectorToken_eq_none {draw : ℕ → Option VectorToken}
    {passes : List VectorBackfillPass} (h : mintVectorToken draw passes = .ok none) :
    ∀ i < 4, ∃ token, draw i = some token ∧ ∃ pass ∈ passes, token ∈ pass.tokens := by
  intro i hi
  obtain ⟨token, hdraw, htaken⟩ := taken_of_mint_eq_none h hi
  rw [Nat.zero_add] at hdraw
  obtain ⟨pass, hpass, hp⟩ := List.any_eq_true.mp htaken
  refine ⟨token, hdraw, pass, hpass, ?_⟩
  simp only [vectorPassContainsToken, Bool.or_eq_true, decide_eq_true_eq, Option.any_eq_true] at hp
  rcases hp with ⟨current, hcurrent, rfl⟩ | ⟨retry, hretry, rfl⟩
  · rw [VectorBackfillPass.tokens, hcurrent]
    exact List.mem_append_left _ (List.mem_singleton_self _)
  · rw [VectorBackfillPass.tokens, hretry]
    exact List.mem_append_right _ (List.mem_singleton_self _)

/-- An `Origin` request of a context that has a pass is refused only for want of a fresh token. -/
theorem enumerate_backpressure {trace : List (Request × Reply)} (h : s.PassesWellFormed trace)
    {r : EnumerateRequest} {m : Moment enumerationContinuationLength} {pass : EnumerationPass}
    (hstart : r.start = .origin) (hpass : pass ∈ s.enumerationPasses) (howns : r.owns pass)
    (hunexpired : m.now < pass.expiresAt)
    (hreply : (s.enumerateAuthorized sha256 r m).1 = .ok .backpressure) :
    ∀ i < 4, ∃ token, m.draw i = some token ∧
      ∃ other ∈ s.enumerationPasses, token ∈ other.tokens := by
  have hexecute : (s.execute sha256 (.enumerate r m)).1 =
      .enumerated (s.enumerateAuthorized sha256 r m).1 := rfl
  rcases enumerate_step sha256 s r m with
    ⟨result, -, hresult, he⟩ | ⟨-, -, result, passes, he, heffect⟩
  · rw [execute_eq he, hreply] at hexecute
    exact absurd (Reply.enumerated.inj hexecute) hresult
  rw [execute_eq he, hreply] at hexecute
  have heq := Reply.enumerated.inj hexecute
  have hmem : pass ∈ s.enumerationPasses.filter fun pass ↦ m.now < pass.expiresAt :=
    List.mem_filter.mpr ⟨hpass, decide_eq_true hunexpired⟩
  cases heffect with
  | cleared _ _ hbackpressure =>
    rcases hbackpressure heq with hfull | hmint
    · have hadmitted := canAdmitEnumerationPass_of_owns (h.enumeration.filter _) hmem howns
      exact absurd (hadmitted.symm.trans hfull) (by simp)
    · intro i hi
      obtain ⟨token, hdraw, other, hother, htoken⟩ :=
        exists_of_mintEnumerationToken_eq_none hmint i hi
      have hold := (List.mem_filter.mp (List.mem_filter.mp hother).1).1
      exact ⟨token, hdraw, other, hold, htoken⟩
  | started => exact absurd heq (by simp)
  | refused hne => exact absurd hstart hne
  | repeated => exact absurd heq (by simp)
  | atTail => exact absurd heq (by simp)
  | removed => exact absurd heq (by simp)
  | advanced => exact absurd heq (by simp)

theorem vectorBackfill_backpressure {trace : List (Request × Reply)} (h : s.PassesWellFormed trace)
    {r : VectorBackfillRequest} {m : Moment vectorContinuationLength} {pass : VectorBackfillPass}
    (hstart : r.start = .origin) (hpass : pass ∈ s.vectorPasses) (howns : r.owns pass)
    (hunexpired : m.now < pass.expiresAt)
    (hreply : (s.vectorBackfillAuthorized sha256 r m).1 = .ok .backpressure) :
    ∀ i < 4, ∃ token, m.draw i = some token ∧ ∃ other ∈ s.vectorPasses, token ∈ other.tokens := by
  have hexecute : (s.execute sha256 (.vectorBackfill r m)).1 =
      .backfilled (s.vectorBackfillAuthorized sha256 r m).1 := rfl
  rcases vectorBackfill_step sha256 s r m with
    ⟨result, -, hresult, he⟩ | ⟨-, -, result, passes, he, heffect⟩
  · rw [execute_eq he, hreply] at hexecute
    exact absurd (Reply.backfilled.inj hexecute) hresult
  rw [execute_eq he, hreply] at hexecute
  have heq := Reply.backfilled.inj hexecute
  have hmem : pass ∈ s.vectorPasses.filter fun pass ↦ m.now < pass.expiresAt :=
    List.mem_filter.mpr ⟨hpass, decide_eq_true hunexpired⟩
  cases heffect with
  | vacant => exact absurd heq (by simp)
  | complete => exact absurd heq (by simp)
  | failed => exact absurd heq (by simp)
  | cleared _ _ _ _ _ _ hbackpressure =>
    rcases hbackpressure heq with hfull | hmint
    · have hadmitted := canAdmitVectorPass_of_owns (h.vector.filter _) hmem howns
      exact absurd (hadmitted.symm.trans hfull) (by simp)
    · intro i hi
      obtain ⟨token, hdraw, other, hother, htoken⟩ := exists_of_mintVectorToken_eq_none hmint i hi
      have hold := (List.mem_filter.mp (List.mem_filter.mp hother).1).1
      exact ⟨token, hdraw, other, hold, htoken⟩
  | started => exact absurd heq (by simp)
  | refused hne => exact absurd hstart hne
  | repeated => exact absurd heq (by simp)
  | removed => exact absurd heq (by simp)
  | advanced => exact absurd heq (by simp)

end DurableUpdateStore

open DurableUpdateStore in
/-- **Pagination state is bounded and unambiguous.**  In every reachable store, whatever the clock
and the random source have returned: the quotas of both lists hold and no token is used twice; a
token is honoured only for what it was last issued for; and a context with an unexpired pass is
refused a new start only when four draws in a row return tokens that passes answer to. -/
theorem pagination_unambiguous (sha256 : List UInt8 → Bytes verifierLength)
    (requests : List Request) :
    let s := initial.run sha256 requests
    let trace := initial.trace sha256 requests
    EnumerationPassesWellFormed s.enumerationPasses ∧ VectorPassesWellFormed s.vectorPasses ∧
    (∀ r m mode encoded response, r.start.token? = some (mode, encoded) →
      (s.enumerateAuthorized sha256 r m).1 = .ok (.authorized response) →
      (enumerationIssues trace).lookup encoded =
        some ⟨r.channel, r.documentId, r.capabilityId, mode⟩) ∧
    (∀ r m encoded response, r.start.token? = some encoded →
      (s.vectorBackfillAuthorized sha256 r m).1 = .ok (.authorized response) →
      (vectorIssues trace).lookup encoded =
        some ⟨r.channel, r.documentId, r.capabilityId, r.oplogVersion⟩) ∧
    (∀ r m, ∀ pass ∈ s.enumerationPasses, r.start = .origin → r.owns pass →
      m.now < pass.expiresAt → (s.enumerateAuthorized sha256 r m).1 = .ok .backpressure →
      ∀ i < 4, ∃ token, m.draw i = some token ∧
        ∃ other ∈ s.enumerationPasses, token ∈ other.tokens) ∧
    ∀ r m, ∀ pass ∈ s.vectorPasses, r.start = .origin → r.owns pass →
      m.now < pass.expiresAt → (s.vectorBackfillAuthorized sha256 r m).1 = .ok .backpressure →
      ∀ i < 4, ∃ token, m.draw i = some token ∧
        ∃ other ∈ s.vectorPasses, token ∈ other.tokens := by
  intro s trace
  have h := passesWellFormed_run sha256 requests
  refine ⟨h.enumeration, h.vector, ?_, ?_, ?_, ?_⟩
  · exact fun r m mode encoded response hstart hreply ↦ enumerate_of_authorized h hstart hreply
  · exact fun r m encoded response hstart hreply ↦ vectorBackfill_of_authorized h hstart hreply
  · exact fun r m pass hpass hstart howns hunexpired hreply ↦
      enumerate_backpressure h hstart hpass howns hunexpired hreply
  · exact fun r m pass hpass hstart howns hunexpired hreply ↦
      vectorBackfill_backpressure h hstart hpass howns hunexpired hreply

/-- The child enumerates its update. -/
def Sample.enumerating (start : StoreEnumerateStart) : EnumerateRequest :=
  ⟨Sample.channel, Sample.document, Sample.child, Sample.secret 3, start, 4096⟩

/-- The first draw is a token. -/
def Sample.moment : Moment enumerationContinuationLength := ⟨0, 0, fun _ ↦ some (Sample.bytes _ 1)⟩

open DurableUpdateStore in
/-- The token of the only page is good for the tail. -/
theorem pagination_unambiguous_sample :
    (enumerationIssues (initial.trace Sample.sha256 (Sample.opening ++ [.accept Sample.accept,
      .enumerate (Sample.enumerating .origin) Sample.moment]))).lookup (Sample.bytes 32 1).toList =
      some ⟨Sample.channel, Sample.document, Sample.child, .afterTail⟩ :=
  (pagination_unambiguous Sample.sha256 _).2.2.1
    (Sample.enumerating (.afterTail (Sample.bytes 32 1).toList)) Sample.moment _ _
    ⟨emptyStoredUpdatePage, none⟩ rfl (by decide +kernel)

end Renee
