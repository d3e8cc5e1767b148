import Renee.Store.Broker

/-!
# What a request does to the passes

`EnumerationEffect` and `VectorEffect` list everything a pagination request can do to the passes
that have not expired, with the response it gives; `enumeratePasses_effect` and
`vectorBackfillPasses_effect` say that there is nothing else.

From them follow the invariants of the two lists, `EnumerationPassesWellFormed` and
`VectorPassesWellFormed`: no token is used twice, whatever the random source returns, and no quota
is exceeded — the limits of the source, and one pass for each context.  They hold of every reachable
store (`passesWellFormed_run`).
-/

set_option autoImplicit false

namespace Renee

open ByteString TokenRegistry

/-! ## Enumeration -/

/-- The token a request presents, and how. -/
def StoreEnumerateStart.token? : StoreEnumerateStart → Option (EnumerationTokenMode × List UInt8)
  | .origin => none
  | .continuation encoded => some (.continuation, encoded)
  | .afterTail encoded => some (.afterTail, encoded)

/-- A pass is what the request is entitled to. -/
structure EnumerateRequest.Holds (r : EnumerateRequest) (generation : StoreGeneration) (now : ℕ)
    (pass : EnumerationPass) : Prop where
  owns : r.owns pass
  generation : pass.generation = generation
  unexpired : now < pass.expiresAt

/-- The pass an `Origin` request leaves. -/
def EnumerateRequest.newPass (r : EnumerateRequest) (generation : StoreGeneration) (now : ℕ)
    (terminal : AcceptanceSequence) (page : StoredUpdatePage) (token : EnumerationToken) :
    EnumerationPass where
  capabilityId := r.capabilityId
  channelId := r.channel.id
  current := ⟨page.nextMode, page.nextOrdinal, token⟩
  documentId := r.documentId
  expiresAt := now + enumerationPassIdleTtl
  generation := generation
  lowerSequenceExclusive := .origin
  retry := none
  terminalSequence := terminal

/-- The passes a request leaves alone when it starts over. -/
def EnumerateRequest.others (r : EnumerateRequest) (passes : List EnumerationPass) :
    List EnumerationPass :=
  passes.filter fun pass ↦ ¬r.owns pass

/-- What an enumeration request does to the passes, and what it answers. -/
inductive EnumerationEffect (t : Tables) (generation : StoreGeneration) (r : EnumerateRequest)
    (m : Moment enumerationContinuationLength) (passes : List EnumerationPass) :
    Except StoreError StoreEnumerateOutcome → List EnumerationPass → Prop
  /-- An `Origin` request that leaves no pass. -/
  | cleared {result : Except StoreError StoreEnumerateOutcome} (hstart : r.start = .origin)
    (hresult : ∀ response, result = .ok (.authorized response) →
      highWaterSequenceIn t r.documentId = none ∧ response = ⟨emptyStoredUpdatePage, none⟩)
    (hbackpressure : result = .ok .backpressure →
      canAdmitEnumerationPass (r.others passes) r.channel.id r.documentId r.capabilityId = false ∨
        mintEnumerationToken m.draw (r.others passes) = .ok none) :
    EnumerationEffect t generation r m passes result (r.others passes)
  /-- An `Origin` request that leaves one. -/
  | started {terminal : AcceptanceSequence} {page : StoredUpdatePage} {token : EnumerationToken}
    (hstart : r.start = .origin) (hterminal : highWaterSequenceIn t r.documentId = some terminal)
    (hpage : enumerateIn t r.documentId .origin terminal 0 r.metadataByteLimit = .ok page)
    (hne : page.updates ≠ [])
    (hadmitted : canAdmitEnumerationPass (r.others passes) r.channel.id r.documentId
      r.capabilityId = true)
    (hmint : mintEnumerationToken m.draw (r.others passes) = .ok (some token)) :
    EnumerationEffect t generation r m passes (.ok (.authorized ⟨page, some token.toList⟩))
      (r.others passes ++ [r.newPass generation m.now terminal page token])
  /-- A token that is not honoured. -/
  | refused {result : Except StoreError StoreEnumerateOutcome} (hstart : r.start ≠ .origin)
    (hresult : ∀ response, result ≠ .ok (.authorized response)) :
    EnumerationEffect t generation r m passes result passes
  /-- The token consumed last: the response is repeated. -/
  | repeated {pass : EnumerationPass} {retry : EnumerationPassRetry}
    (hstart : r.start.token? = some (retry.mode, retry.token.toList)) (hpass : pass ∈ passes)
    (hholds : r.Holds generation m.now pass) (hretry : pass.retry = some retry) :
    EnumerationEffect t generation r m passes (.ok (.authorized retry.response)) passes
  /-- The current token, after the tail, with nothing new: it is not consumed. -/
  | atTail {pass : EnumerationPass}
    (hstart : r.start.token? = some (pass.current.mode, pass.current.token.toList))
    (hpass : pass ∈ passes) (hholds : r.Holds generation m.now pass)
    (hselect : selectEnumerationWindow t r.documentId pass pass.current.mode = .atTail) :
    EnumerationEffect t generation r m passes
      (.ok (.authorized ⟨emptyStoredUpdatePage, none⟩)) passes
  /-- The current token of a pass whose position is outside its window. -/
  | removed {index : ℕ} {pass : EnumerationPass} {lower terminal : AcceptanceSequence}
    {nextOrdinal : ℕ}
    (hstart : r.start.token? = some (pass.current.mode, pass.current.token.toList))
    (hindex : passes[index]? = some pass) (hholds : r.Holds generation m.now pass)
    (hselect : selectEnumerationWindow t r.documentId pass pass.current.mode =
      .window lower terminal nextOrdinal)
    (hpage : enumerateIn t r.documentId lower terminal nextOrdinal r.metadataByteLimit =
      .error .invalidCursor) :
    EnumerationEffect t generation r m passes (.ok .invalidContinuation) (swapRemove passes index)
  /-- The current token: it is consumed. -/
  | advanced {index : ℕ} {pass : EnumerationPass} {lower terminal : AcceptanceSequence}
    {nextOrdinal : ℕ} {page : StoredUpdatePage} {next : EnumerationToken}
    (hstart : r.start.token? = some (pass.current.mode, pass.current.token.toList))
    (hindex : passes[index]? = some pass) (hholds : r.Holds generation m.now pass)
    (hselect : selectEnumerationWindow t r.documentId pass pass.current.mode =
      .window lower terminal nextOrdinal)
    (hpage : enumerateIn t r.documentId lower terminal nextOrdinal r.metadataByteLimit = .ok page)
    (hne : page.updates ≠ []) (hmint : mintEnumerationToken m.draw passes = .ok (some next)) :
    EnumerationEffect t generation r m passes (.ok (.authorized ⟨page, some next.toList⟩))
      (passes.set index (pass.advance pass.current.mode pass.current.token next lower terminal page
        (m.later + enumerationPassIdleTtl)))

section Enumeration

variable {t : Tables} {generation : StoreGeneration} {r : EnumerateRequest}
  {m : Moment enumerationContinuationLength} {passes : List EnumerationPass}

theorem enumerateOrigin_effect (hstart : r.start = .origin) :
    EnumerationEffect t generation r m passes (enumerateOrigin t generation r m passes).1
      (enumerateOrigin t generation r m passes).2 := by
  simp only [enumerateOrigin]
  split
  · rename_i hnone
    exact .cleared hstart (fun response h ↦ ⟨hnone, by simpa using h.symm⟩) (by simp)
  rename_i terminal hterminal
  split
  · exact .cleared hstart (by simp) (by simp)
  rename_i page hpage
  split
  · exact .cleared hstart (by simp) (by simp)
  rename_i hne
  split
  · rename_i hfull
    rw [Bool.not_eq_true'] at hfull
    exact .cleared hstart (by simp) fun _ ↦ Or.inl hfull
  rename_i hadmitted
  rw [Bool.not_eq_true', Bool.not_eq_false] at hadmitted
  split
  · exact .cleared hstart (by simp) (by simp)
  · rename_i hmint
    exact .cleared hstart (by simp) fun _ ↦ Or.inr hmint
  · rename_i token hmint
    exact .started hstart hterminal hpage hne hadmitted hmint

theorem enumerateToken_effect {mode : EnumerationTokenMode} {encoded : List UInt8}
    (hstart : r.start.token? = some (mode, encoded)) :
    EnumerationEffect t generation r m passes
      (enumerateToken t generation r m mode encoded passes).1
      (enumerateToken t generation r m mode encoded passes).2 := by
  have hne : r.start ≠ .origin := by
    intro h
    rw [h] at hstart
    exact absurd hstart (by simp [StoreEnumerateStart.token?])
  simp only [enumerateToken]
  split
  · exact .refused hne (by simp)
  rename_i token htoken
  obtain rfl : token.toList = encoded := Bytes.ofList?_eq_some_iff.mp htoken
  split
  · exact .refused hne (by simp)
  rename_i index hfind
  split
  · exact .refused hne (by simp)
  rename_i pass hindex
  split
  · exact .refused hne (by simp)
  rename_i hcontext
  simp only [not_or, not_not, not_le] at hcontext
  have hholds : r.Holds generation m.now pass := ⟨hcontext.1, hcontext.2.1, hcontext.2.2⟩
  split
  · rename_i retry hretry
    obtain ⟨hsome, hp⟩ := Option.filter_eq_some_iff.mp hretry
    obtain ⟨rfl, rfl⟩ := of_decide_eq_true hp
    exact .repeated hstart (List.mem_of_getElem? hindex) hholds hsome
  split
  · exact .refused hne (by simp)
  rename_i hcurrent
  simp only [not_or, not_not] at hcurrent
  obtain ⟨rfl, rfl⟩ := hcurrent
  split
  · exact .refused hne (by simp)
  · rename_i hselect
    exact .atTail hstart (List.mem_of_getElem? hindex) hholds hselect
  rename_i lower terminal nextOrdinal hselect
  split
  · rename_i hpage
    exact .removed hstart hindex hholds hselect hpage
  · exact .refused hne (by simp)
  rename_i page hpage
  split
  · exact .refused hne (by simp)
  rename_i hupdates
  split
  · exact .refused hne (by simp)
  · exact .refused hne (by simp)
  · rename_i next hmint
    exact .advanced hstart hindex hholds hselect hpage hupdates hmint

/-- **An enumeration request has one of the effects.** -/
theorem enumeratePasses_effect (t : Tables) (generation : StoreGeneration) (r : EnumerateRequest)
    (m : Moment enumerationContinuationLength) (passes : List EnumerationPass) :
    EnumerationEffect t generation r m passes (enumeratePasses t generation r m passes).1
      (enumeratePasses t generation r m passes).2 := by
  rw [enumeratePasses]
  split
  · rename_i hstart
    exact enumerateOrigin_effect hstart
  · rename_i encoded hstart
    exact enumerateToken_effect (by rw [hstart]; rfl)
  · rename_i encoded hstart
    exact enumerateToken_effect (by rw [hstart]; rfl)

variable {result : Except StoreError StoreEnumerateOutcome} {passes' : List EnumerationPass}

/-- A pass is an old one or belongs to the context of the request. -/
theorem EnumerationEffect.mem_cases (h : EnumerationEffect t generation r m passes result passes')
    {pass : EnumerationPass} (hmem : pass ∈ passes') : pass ∈ passes ∨ r.owns pass := by
  cases h with
  | cleared => exact Or.inl (List.mem_filter.mp hmem).1
  | started =>
    rcases List.mem_append.mp hmem with hold | hnew
    · exact Or.inl (List.mem_filter.mp hold).1
    · rw [List.mem_singleton.mp hnew]
      exact Or.inr ⟨rfl, rfl, rfl⟩
  | refused => exact Or.inl hmem
  | repeated => exact Or.inl hmem
  | atTail => exact Or.inl hmem
  | removed _ hindex =>
    refine Or.inl ((perm_cons_eraseIdx hindex).mem_iff.mpr (List.mem_cons_of_mem _ ?_))
    exact (swapRemove_perm hindex).mem_iff.mp hmem
  | advanced _ hindex hholds =>
    rcases List.mem_cons.mp ((set_perm hindex _).mem_iff.mp hmem) with rfl | hold
    · exact Or.inr hholds.owns
    · exact Or.inl ((perm_cons_eraseIdx hindex).mem_iff.mpr (List.mem_cons_of_mem _ hold))

/-- The bounds on enumeration passes, and one pass for each context. -/
def enumerationQuotas : List (Quota EnumerationPass) :=
  [⟨fun _ ↦ (), maxEnumerationPasses⟩,
    ⟨EnumerationPass.channelId, maxEnumerationPassesPerChannel⟩,
    ⟨EnumerationPass.documentId, maxEnumerationPassesPerDocument⟩,
    ⟨fun pass ↦ (pass.documentId, pass.capabilityId), maxEnumerationPassesPerAuthority⟩,
    ⟨fun pass ↦ (pass.channelId, pass.documentId, pass.capabilityId), 1⟩]

/-- The invariant of the enumeration passes. -/
structure EnumerationPassesWellFormed (passes : List EnumerationPass) : Prop where
  /-- No token is used twice. -/
  distinct : Distinct EnumerationPass.tokens passes
  /-- No quota is exceeded. -/
  quotas : ∀ q ∈ enumerationQuotas, q.Holds passes

theorem EnumerationPassesWellFormed.filter (h : EnumerationPassesWellFormed passes)
    (p : EnumerationPass → Bool) : EnumerationPassesWellFormed (passes.filter p) :=
  ⟨h.distinct.filter p, fun q hq ↦ (h.quotas q hq).filter p⟩

theorem enumerationPassesWellFormed_nil : EnumerationPassesWellFormed [] :=
  ⟨distinct_nil, fun _ _ ↦ Quota.holds_nil⟩

/-- A minted token is not among those of the passes. -/
theorem not_mem_tokens_of_mintEnumerationToken {draw : ℕ → Option EnumerationToken}
    {token : EnumerationToken} (h : mintEnumerationToken draw passes = .ok (some token)) :
    ∀ pass ∈ passes, token ∉ pass.tokens := by
  intro pass hpass hmem
  have hfree := mint_fresh h
  rw [List.any_eq_false] at hfree
  refine hfree pass hpass ?_
  simp only [Bool.or_eq_true, decide_eq_true_eq]
  rcases List.mem_cons.mp hmem with rfl | hretry
  · exact Or.inl rfl
  · rw [Option.mem_toList] at hretry
    obtain ⟨retry, hsome, rfl⟩ := Option.map_eq_some_iff.mp hretry
    exact Or.inr (by rw [hsome]; simp)

theorem canAdmitEnumerationPass_iff {channelId : ℕ} {d : DocumentId} {c : CapabilityId} :
    canAdmitEnumerationPass passes channelId d c = true ↔
      passes.length < maxEnumerationPasses ∧
      (passes.countP fun pass ↦ pass.channelId = channelId) < maxEnumerationPassesPerChannel ∧
      (passes.countP fun pass ↦ pass.documentId = d) < maxEnumerationPassesPerDocument ∧
      (passes.countP fun pass ↦ pass.documentId = d ∧ pass.capabilityId = c) <
        maxEnumerationPassesPerAuthority := by
  rw [canAdmitEnumerationPass, decide_eq_true_eq]

/-- There is room for a pass that is admitted and has no predecessor. -/
theorem room_of_canAdmitEnumerationPass {pass : EnumerationPass}
    (hadmitted : canAdmitEnumerationPass passes pass.channelId pass.documentId
      pass.capabilityId = true)
    (hfree : ∀ other ∈ passes, ¬(other.channelId = pass.channelId ∧
      other.documentId = pass.documentId ∧ other.capabilityId = pass.capabilityId)) :
    ∀ q ∈ enumerationQuotas, q.count (q.key pass) passes < q.limit := by
  obtain ⟨htotal, hchannel, hdocument, hauthority⟩ := canAdmitEnumerationPass_iff.mp hadmitted
  simp only [enumerationQuotas, List.mem_cons, List.not_mem_nil, or_false, forall_eq_or_imp,
    forall_eq, Quota.count, Prod.mk.injEq]
  refine ⟨?_, hchannel, hdocument, hauthority, ?_⟩
  · simpa using htotal
  · rw [List.countP_eq_zero.mpr]
    · exact Nat.one_pos
    · exact fun other ho ↦ by simpa using hfree other ho

theorem EnumerationEffect.wellFormed
    (h : EnumerationEffect t generation r m passes result passes')
    (hw : EnumerationPassesWellFormed passes) : EnumerationPassesWellFormed passes' := by
  cases h with
  | cleared => exact hw.filter _
  | @started terminal page token _ _ _ _ hadmitted hmint =>
    have hw' : EnumerationPassesWellFormed (r.others passes) := hw.filter _
    refine ⟨hw'.distinct.concat (List.nodup_singleton _) ?_, fun q hq ↦ (hw'.quotas q hq).concat ?_⟩
    · intro x hx other ho
      rw [List.mem_singleton.mp hx]
      exact not_mem_tokens_of_mintEnumerationToken hmint other ho
    · refine room_of_canAdmitEnumerationPass (by exact hadmitted) (fun other ho howns ↦ ?_) q hq
      have hnot := (List.mem_filter.mp ho).2
      rw [decide_eq_true_eq] at hnot
      exact hnot howns
  | refused => exact hw
  | repeated => exact hw
  | atTail => exact hw
  | removed _ hindex =>
    exact ⟨hw.distinct.swapRemove hindex, fun q hq ↦ (hw.quotas q hq).swapRemove hindex⟩
  | @advanced index pass lower terminal nextOrdinal page next _ hindex hholds _ _ _ hmint =>
    have hpass := List.mem_of_getElem? hindex
    have hfresh := not_mem_tokens_of_mintEnumerationToken hmint
    have hcurrent : pass.current.token ∈ pass.tokens := List.mem_cons_self ..
    refine ⟨hw.distinct.set hindex ?_ ?_, fun q hq ↦ (hw.quotas q hq).set hindex ?_⟩
    · -- the new token is not the one it replaces
      refine List.nodup_cons.mpr ⟨fun hmem ↦ hfresh pass hpass ?_, List.nodup_singleton _⟩
      have hsame : next = pass.current.token := List.mem_singleton.mp hmem
      rw [hsame]
      exact hcurrent
    · intro x hx
      rcases List.mem_cons.mp hx with rfl | hx
      · exact Or.inr hfresh
      · rw [List.mem_singleton.mp hx]
        exact Or.inl hcurrent
    · simp only [enumerationQuotas, List.mem_cons, List.not_mem_nil, or_false] at hq
      rcases hq with rfl | rfl | rfl | rfl | rfl <;> rfl

/-! A token that a pass of the context answers to is answered. -/

theorem EnumerationPassesWellFormed.findIdx? (hw : EnumerationPassesWellFormed passes)
    {pass : EnumerationPass} (hpass : pass ∈ passes) (token : EnumerationToken)
    (mode : EnumerationTokenMode) (hp : enumerationPassContainsToken pass token mode = true) :
    ∃ i, passes.findIdx? (fun pass ↦ enumerationPassContainsToken pass token mode) = some i ∧
      passes[i]? = some pass := by
  refine hw.distinct.findIdx? (x := token) hpass hp fun e he ↦ ?_
  rw [enumerationPassContainsToken, Bool.or_eq_true, decide_eq_true_eq, Option.any_eq_true] at he
  rcases he with ⟨rfl, -⟩ | ⟨retry, hretry, hmatch⟩
  · exact List.mem_cons_self ..
  · obtain ⟨rfl, -⟩ := of_decide_eq_true hmatch
    rw [EnumerationPass.tokens, hretry]
    exact List.mem_cons_of_mem _ (List.mem_singleton_self _)

/-- **The token consumed last is answered as before.** -/
theorem enumerateToken_retry (hw : EnumerationPassesWellFormed passes) {pass : EnumerationPass}
    {retry : EnumerationPassRetry} (hpass : pass ∈ passes) (hholds : r.Holds generation m.now pass)
    (hretry : pass.retry = some retry) :
    (enumerateToken t generation r m retry.mode retry.token.toList passes).1 =
      .ok (.authorized retry.response) := by
  obtain ⟨i, hfind, hindex⟩ :=
    hw.findIdx? hpass retry.token retry.mode (by rw [enumerationPassContainsToken, hretry]; simp)
  have hcontext : ¬(¬r.owns pass ∨ pass.generation ≠ generation ∨ pass.expiresAt ≤ m.now) := by
    simp only [not_or, not_not, not_le]
    exact ⟨hholds.owns, hholds.generation, hholds.unexpired⟩
  have hmatch : (pass.retry.filter fun other ↦
      other.token = retry.token ∧ other.mode = retry.mode) = some retry :=
    Option.filter_eq_some_iff.mpr ⟨hretry, decide_eq_true ⟨rfl, rfl⟩⟩
  simp only [enumerateToken, Bytes.ofList?_eq_some_iff.mpr rfl, hfind, hindex, if_neg hcontext,
    hmatch]

/-- **The current token is answered with what it selects.** -/
theorem enumerateToken_current (hw : EnumerationPassesWellFormed passes) {pass : EnumerationPass}
    (hpass : pass ∈ passes) (hholds : r.Holds generation m.now pass) :
    (enumerateToken t generation r m pass.current.mode pass.current.token.toList passes).1 =
      match selectEnumerationWindow t r.documentId pass pass.current.mode with
      | .invalid => .ok .invalidContinuation
      | .atTail => .ok (.authorized ⟨emptyStoredUpdatePage, none⟩)
      | .window lower terminal nextOrdinal =>
        match enumerateIn t r.documentId lower terminal nextOrdinal r.metadataByteLimit with
        | .error .invalidCursor => .ok .invalidContinuation
        | .error e => .error e
        | .ok page =>
          if page.updates = [] then
            .error (.corrupt "advancing enumeration pass produced no record")
          else match mintEnumerationToken m.draw passes with
          | .error e => .error e
          | .ok none => .ok .backpressure
          | .ok (some next) => .ok (.authorized ⟨page, some next.toList⟩) := by
  obtain ⟨i, hfind, hindex⟩ := hw.findIdx? hpass pass.current.token pass.current.mode
    (by rw [enumerationPassContainsToken]; simp)
  have hcontext : ¬(¬r.owns pass ∨ pass.generation ≠ generation ∨ pass.expiresAt ≤ m.now) := by
    simp only [not_or, not_not, not_le]
    exact ⟨hholds.owns, hholds.generation, hholds.unexpired⟩
  -- the token is not also the one consumed last
  have hretry : (pass.retry.filter fun retry ↦
      retry.token = pass.current.token ∧ retry.mode = pass.current.mode) = none := by
    rw [Option.filter_eq_none_iff]
    intro retry hsome hmatch
    have hnodup := hw.distinct.nodup hpass
    rw [EnumerationPass.tokens, hsome, List.nodup_cons] at hnodup
    refine hnodup.1 ?_
    rw [← (of_decide_eq_true hmatch).1]
    exact List.mem_singleton_self _
  simp only [enumerateToken, Bytes.ofList?_eq_some_iff.mpr rfl, hfind, hindex, if_neg hcontext,
    hretry]
  rw [if_neg (by simp)]
  cases selectEnumerationWindow t r.documentId pass pass.current.mode with
  | invalid => rfl
  | atTail => rfl
  | window lower terminal nextOrdinal =>
    simp only
    cases enumerateIn t r.documentId lower terminal nextOrdinal r.metadataByteLimit with
    | error e => cases e <;> rfl
    | ok page =>
      by_cases hupdates : page.updates = []
      · simp only [if_pos hupdates]
      · simp only [if_neg hupdates]
        rcases mintEnumerationToken m.draw passes with e | _ | next <;> rfl

/-- **A context that has a pass is never refused for want of room.** -/
theorem canAdmitEnumerationPass_of_owns (hw : EnumerationPassesWellFormed passes)
    {pass : EnumerationPass} (hpass : pass ∈ passes) (howns : r.owns pass) :
    canAdmitEnumerationPass (r.others passes) r.channel.id r.documentId r.capabilityId = true := by
  obtain ⟨hchannel, hdocument, hcapability⟩ := howns
  have hp : decide (¬r.owns pass) = false :=
    decide_eq_false (not_not.mpr ⟨hchannel, hdocument, hcapability⟩)
  have hroom := fun q hq ↦ (hw.quotas q hq).lt_of_removed hpass
    (fun pass ↦ decide (¬r.owns pass)) hp _ rfl
  simp only [enumerationQuotas, List.mem_cons, List.not_mem_nil, or_false, forall_eq_or_imp,
    forall_eq, Quota.count, Prod.mk.injEq, hchannel, hdocument, hcapability] at hroom
  obtain ⟨htotal, hchannels, hdocuments, hauthority, -⟩ := hroom
  refine canAdmitEnumerationPass_iff.mpr ⟨?_, hchannels, hdocuments, hauthority⟩
  simpa [EnumerateRequest.others] using htotal

end Enumeration

/-! ## Vector backfill -/

/-- The token a request presents. -/
def StoreVectorBackfillStart.token? : StoreVectorBackfillStart → Option (List UInt8)
  | .origin => none
  | .continuation encoded => some encoded

/-- A pass is what the request is entitled to. -/
structure VectorBackfillRequest.Holds (r : VectorBackfillRequest) (now : ℕ)
    (pass : VectorBackfillPass) : Prop where
  owns : r.owns pass
  unexpired : now < pass.expiresAt

/-- The pass an `Origin` request leaves. -/
def VectorBackfillRequest.newPass (r : VectorBackfillRequest) (now : ℕ)
    (position terminal : AcceptanceSequence) (token : VectorToken) : VectorBackfillPass where
  capabilityId := r.capabilityId
  channelId := r.channel.id
  current := some ⟨position, token⟩
  documentId := r.documentId
  expiresAt := now + vectorPassIdleTtl
  oplogVersion := r.oplogVersion
  retry := none
  terminalSequence := terminal

/-- The passes a request leaves alone when it starts over. -/
def VectorBackfillRequest.others (r : VectorBackfillRequest) (passes : List VectorBackfillPass) :
    List VectorBackfillPass :=
  passes.filter fun pass ↦ ¬r.owns pass

/-- What a vector-backfill request does to the passes, and what it answers. -/
inductive VectorEffect (t : Tables) (r : VectorBackfillRequest)
    (m : Moment vectorContinuationLength) (passes : List VectorBackfillPass) :
    Except StoreError StoreVectorBackfillOutcome → List VectorBackfillPass → Prop
  /-- An `Origin` request for a document without updates. -/
  | vacant (hstart : r.start = .origin) (hterminal : highWaterSequenceIn t r.documentId = none) :
    VectorEffect t r m passes (.ok (.authorized ⟨⟨false, none, []⟩, none⟩)) passes
  /-- An `Origin` request whose page is the only one. -/
  | complete {terminal : AcceptanceSequence} {page : StoredVectorBackfillPage}
    (hstart : r.start = .origin) (hterminal : highWaterSequenceIn t r.documentId = some terminal)
    (hpage : vectorBackfillIn t r.documentId .origin terminal r.oplogVersion r.metadataByteLimit =
      .ok page) (hmore : page.hasMore = false) :
    VectorEffect t r m passes (.ok (.authorized ⟨page, none⟩)) passes
  /-- An `Origin` request that fails before it looks at the passes. -/
  | failed {e : StoreError} (hstart : r.start = .origin) :
    VectorEffect t r m passes (.error e) passes
  /-- An `Origin` request that leaves no pass. -/
  | cleared {result : Except StoreError StoreVectorBackfillOutcome}
    {terminal position : AcceptanceSequence} {page : StoredVectorBackfillPage}
    (hstart : r.start = .origin) (hterminal : highWaterSequenceIn t r.documentId = some terminal)
    (hpage : vectorBackfillIn t r.documentId .origin terminal r.oplogVersion r.metadataByteLimit =
      .ok page) (hmore : page.hasMore = true) (hposition :
        page.lastExaminedSequence = some position)
    (hresult : ∀ response, result ≠ .ok (.authorized response))
    (hbackpressure : result = .ok .backpressure →
      canAdmitVectorPass (r.others passes) r.channel.id r.documentId r.capabilityId = false ∨
        mintVectorToken m.draw (r.others passes) = .ok none) :
    VectorEffect t r m passes result (r.others passes)
  /-- An `Origin` request that leaves one. -/
  | started {terminal position : AcceptanceSequence} {page : StoredVectorBackfillPage}
    {token : VectorToken} (hstart : r.start = .origin)
    (hterminal : highWaterSequenceIn t r.documentId = some terminal)
    (hpage : vectorBackfillIn t r.documentId .origin terminal r.oplogVersion r.metadataByteLimit =
      .ok page) (hmore : page.hasMore = true) (hposition :
        page.lastExaminedSequence = some position)
    (hadmitted : canAdmitVectorPass (r.others passes) r.channel.id r.documentId
      r.capabilityId = true)
    (hmint : mintVectorToken m.draw (r.others passes) = .ok (some token)) :
    VectorEffect t r m passes (.ok (.authorized ⟨page, some token.toList⟩))
      (r.others passes ++ [r.newPass m.now position terminal token])
  /-- A token that is not honoured. -/
  | refused {result : Except StoreError StoreVectorBackfillOutcome} (hstart : r.start ≠ .origin)
    (hresult : ∀ response, result ≠ .ok (.authorized response)) :
    VectorEffect t r m passes result passes
  /-- The token consumed last: the response is repeated. -/
  | repeated {pass : VectorBackfillPass} {retry : VectorPassRetry}
    (hstart : r.start.token? = some retry.token.toList) (hpass : pass ∈ passes)
    (hholds : r.Holds m.now pass) (hretry : pass.retry = some retry) :
    VectorEffect t r m passes (.ok (.authorized retry.response)) passes
  /-- The current token of a pass whose position is not in the log. -/
  | removed {index : ℕ} {pass : VectorBackfillPass} {current : VectorPassPosition}
    (hstart : r.start.token? = some current.token.toList) (hindex : passes[index]? = some pass)
    (hholds : r.Holds m.now pass) (hcurrent : pass.current = some current)
    (hpage : vectorBackfillIn t r.documentId current.position pass.terminalSequence r.oplogVersion
      r.metadataByteLimit = .error .invalidCursor) :
    VectorEffect t r m passes (.ok .invalidContinuation) (swapRemove passes index)
  /-- The current token: it is consumed. -/
  | advanced {index : ℕ} {pass : VectorBackfillPass} {current : VectorPassPosition}
    {page : StoredVectorBackfillPage} {next : Option VectorPassPosition}
    (hstart : r.start.token? = some current.token.toList) (hindex : passes[index]? = some pass)
    (hholds : r.Holds m.now pass) (hcurrent : pass.current = some current)
    (hpage : vectorBackfillIn t r.documentId current.position pass.terminalSequence r.oplogVersion
      r.metadataByteLimit = .ok page)
    (hnext : nextVectorPosition m passes page = .ok (some next)) :
    VectorEffect t r m passes
      (.ok (.authorized ⟨page, next.map fun position ↦ position.token.toList⟩))
      (passes.set index (pass.advance current.token next page (m.later + vectorPassIdleTtl)))

/-- The position after a page is the last one it examined, where there is more to come. -/
theorem nextVectorPosition_eq_ok_iff {m : Moment vectorContinuationLength}
    {passes : List VectorBackfillPass} {page : StoredVectorBackfillPage}
    {next : Option VectorPassPosition} :
    nextVectorPosition m passes page = .ok (some next) ↔
      (page.hasMore = false ∧ next = none) ∨
      (page.hasMore = true ∧ ∃ position token, page.lastExaminedSequence = some position ∧
        mintVectorToken m.draw passes = .ok (some token) ∧ next = some ⟨position, token⟩) := by
  rw [nextVectorPosition]
  cases hmore : page.hasMore with
  | false => simp [eq_comm]
  | true =>
    cases hlast : page.lastExaminedSequence with
    | none => simp
    | some position =>
      rcases hmint : mintVectorToken m.draw passes with e | _ | token
      · simp
      · simp
      · simp [eq_comm]

section VectorBackfill

variable {t : Tables} {r : VectorBackfillRequest} {m : Moment vectorContinuationLength}
  {passes : List VectorBackfillPass}

theorem vectorBackfillOrigin_effect (hstart : r.start = .origin) :
    VectorEffect t r m passes (vectorBackfillOrigin t r m passes).1
      (vectorBackfillOrigin t r m passes).2 := by
  simp only [vectorBackfillOrigin]
  split
  · rename_i hnone
    exact .vacant hstart hnone
  rename_i terminal hterminal
  split
  · exact .failed hstart
  rename_i page hpage
  split
  swap
  · rename_i hmore
    exact .complete hstart hterminal hpage (Bool.eq_false_iff.mpr hmore)
  rename_i hmore
  split
  · exact .failed hstart
  rename_i position hposition
  split
  · rename_i hfull
    rw [Bool.not_eq_true'] at hfull
    exact .cleared hstart hterminal hpage hmore hposition (by simp) fun _ ↦ Or.inl hfull
  rename_i hadmitted
  rw [Bool.not_eq_true', Bool.not_eq_false] at hadmitted
  split
  · exact .cleared hstart hterminal hpage hmore hposition (by simp) (by simp)
  · rename_i hmint
    exact .cleared hstart hterminal hpage hmore hposition (by simp) fun _ ↦ Or.inr hmint
  · rename_i token hmint
    exact .started hstart hterminal hpage hmore hposition hadmitted hmint

theorem vectorBackfillToken_effect {encoded : List UInt8} (hstart : r.start.token? = some encoded) :
    VectorEffect t r m passes (vectorBackfillToken t r m encoded passes).1
      (vectorBackfillToken t r m encoded passes).2 := by
  have hne : r.start ≠ .origin := by
    intro h
    rw [h] at hstart
    exact absurd hstart (by simp [StoreVectorBackfillStart.token?])
  simp only [vectorBackfillToken]
  split
  · exact .refused hne (by simp)
  rename_i token htoken
  obtain rfl : token.toList = encoded := Bytes.ofList?_eq_some_iff.mp htoken
  split
  · exact .refused hne (by simp)
  rename_i index hfind
  split
  · exact .refused hne (by simp)
  rename_i pass hindex
  split
  · exact .refused hne (by simp)
  rename_i hcontext
  simp only [not_or, not_not, not_le] at hcontext
  have hholds : r.Holds m.now pass := ⟨hcontext.1, hcontext.2⟩
  split
  · rename_i retry hretry
    obtain ⟨hsome, hp⟩ := Option.filter_eq_some_iff.mp hretry
    obtain rfl := of_decide_eq_true hp
    exact .repeated hstart (List.mem_of_getElem? hindex) hholds hsome
  split
  · exact .refused hne (by simp)
  rename_i current hfilter
  obtain ⟨hcurrent, hp⟩ := Option.filter_eq_some_iff.mp hfilter
  obtain rfl := of_decide_eq_true hp
  split
  · rename_i hpage
    exact .removed hstart hindex hholds hcurrent hpage
  · exact .refused hne (by simp)
  rename_i page hpage
  split
  · exact .refused hne (by simp)
  · exact .refused hne (by simp)
  · rename_i next hnext
    exact .advanced hstart hindex hholds hcurrent hpage hnext

/-- **A vector-backfill request has one of the effects.** -/
theorem vectorBackfillPasses_effect (t : Tables) (r : VectorBackfillRequest)
    (m : Moment vectorContinuationLength) (passes : List VectorBackfillPass) :
    VectorEffect t r m passes (vectorBackfillPasses t r m passes).1
      (vectorBackfillPasses t r m passes).2 := by
  rw [vectorBackfillPasses]
  split
  · rename_i hstart
    exact vectorBackfillOrigin_effect hstart
  · rename_i encoded hstart
    exact vectorBackfillToken_effect (by rw [hstart]; rfl)

variable {result : Except StoreError StoreVectorBackfillOutcome}
  {passes' : List VectorBackfillPass}

/-- A pass is an old one or belongs to the context of the request. -/
theorem VectorEffect.mem_cases (h : VectorEffect t r m passes result passes')
    {pass : VectorBackfillPass} (hmem : pass ∈ passes') : pass ∈ passes ∨ r.owns pass := by
  cases h with
  | vacant => exact Or.inl hmem
  | complete => exact Or.inl hmem
  | failed => exact Or.inl hmem
  | cleared => exact Or.inl (List.mem_filter.mp hmem).1
  | started =>
    rcases List.mem_append.mp hmem with hold | hnew
    · exact Or.inl (List.mem_filter.mp hold).1
    · rw [List.mem_singleton.mp hnew]
      exact Or.inr ⟨rfl, rfl, rfl, rfl⟩
  | refused => exact Or.inl hmem
  | repeated => exact Or.inl hmem
  | removed _ hindex =>
    refine Or.inl ((perm_cons_eraseIdx hindex).mem_iff.mpr (List.mem_cons_of_mem _ ?_))
    exact (swapRemove_perm hindex).mem_iff.mp hmem
  | advanced _ hindex hholds =>
    rcases List.mem_cons.mp ((set_perm hindex _).mem_iff.mp hmem) with rfl | hold
    · exact Or.inr hholds.owns
    · exact Or.inl ((perm_cons_eraseIdx hindex).mem_iff.mpr (List.mem_cons_of_mem _ hold))

/-- The bounds on vector-backfill passes, and one pass for each context. -/
def vectorQuotas : List (Quota VectorBackfillPass) :=
  [⟨fun _ ↦ (), maxVectorPasses⟩,
    ⟨VectorBackfillPass.channelId, maxVectorPassesPerChannel⟩,
    ⟨VectorBackfillPass.documentId, maxVectorPassesPerDocument⟩,
    ⟨fun pass ↦ (pass.documentId, pass.capabilityId), maxVectorPassesPerAuthority⟩,
    ⟨fun pass ↦ (pass.channelId, pass.documentId, pass.capabilityId, pass.oplogVersion), 1⟩]

/-- The invariant of the vector-backfill passes. -/
structure VectorPassesWellFormed (passes : List VectorBackfillPass) : Prop where
  /-- No token is used twice. -/
  distinct : Distinct VectorBackfillPass.tokens passes
  /-- No quota is exceeded. -/
  quotas : ∀ q ∈ vectorQuotas, q.Holds passes

theorem VectorPassesWellFormed.filter (h : VectorPassesWellFormed passes)
    (p : VectorBackfillPass → Bool) : VectorPassesWellFormed (passes.filter p) :=
  ⟨h.distinct.filter p, fun q hq ↦ (h.quotas q hq).filter p⟩

theorem vectorPassesWellFormed_nil : VectorPassesWellFormed [] :=
  ⟨distinct_nil, fun _ _ ↦ Quota.holds_nil⟩

/-- A minted token is not among those of the passes. -/
theorem not_mem_tokens_of_mintVectorToken {draw : ℕ → Option VectorToken} {token : VectorToken}
    (h : mintVectorToken draw passes = .ok (some token)) :
    ∀ pass ∈ passes, token ∉ pass.tokens := by
  intro pass hpass hmem
  have hfree := mint_fresh h
  rw [List.any_eq_false] at hfree
  refine hfree pass hpass ?_
  rw [vectorPassContainsToken, Bool.or_eq_true, Option.any_eq_true, Option.any_eq_true]
  rcases List.mem_append.mp hmem with hcurrent | hretry
  · rw [Option.mem_toList] at hcurrent
    obtain ⟨current, hsome, rfl⟩ := Option.map_eq_some_iff.mp hcurrent
    exact Or.inl ⟨current, hsome, by simp⟩
  · rw [Option.mem_toList] at hretry
    obtain ⟨retry, hsome, rfl⟩ := Option.map_eq_some_iff.mp hretry
    exact Or.inr ⟨retry, hsome, by simp⟩

theorem canAdmitVectorPass_iff {channelId : ℕ} {d : DocumentId} {c : CapabilityId} :
    canAdmitVectorPass passes channelId d c = true ↔
      passes.length < maxVectorPasses ∧
      (passes.countP fun pass ↦ pass.channelId = channelId) < maxVectorPassesPerChannel ∧
      (passes.countP fun pass ↦ pass.documentId = d) < maxVectorPassesPerDocument ∧
      (passes.countP fun pass ↦ pass.documentId = d ∧ pass.capabilityId = c) <
        maxVectorPassesPerAuthority := by
  rw [canAdmitVectorPass, decide_eq_true_eq]

/-- There is room for a pass that is admitted and has no predecessor. -/
theorem room_of_canAdmitVectorPass {pass : VectorBackfillPass}
    (hadmitted : canAdmitVectorPass passes pass.channelId pass.documentId pass.capabilityId = true)
    (hfree : ∀ other ∈ passes, ¬(other.channelId = pass.channelId ∧
      other.documentId = pass.documentId ∧ other.capabilityId = pass.capabilityId ∧
        other.oplogVersion = pass.oplogVersion)) :
    ∀ q ∈ vectorQuotas, q.count (q.key pass) passes < q.limit := by
  obtain ⟨htotal, hchannel, hdocument, hauthority⟩ := canAdmitVectorPass_iff.mp hadmitted
  simp only [vectorQuotas, List.mem_cons, List.not_mem_nil, or_false, forall_eq_or_imp,
    forall_eq, Quota.count, Prod.mk.injEq]
  refine ⟨?_, hchannel, hdocument, hauthority, ?_⟩
  · simpa using htotal
  · rw [List.countP_eq_zero.mpr]
    · exact Nat.one_pos
    · exact fun other ho ↦ by simpa using hfree other ho

theorem VectorEffect.wellFormed (h : VectorEffect t r m passes result passes')
    (hw : VectorPassesWellFormed passes) : VectorPassesWellFormed passes' := by
  cases h with
  | vacant => exact hw
  | complete => exact hw
  | failed => exact hw
  | cleared => exact hw.filter _
  | @started terminal position page token _ _ _ _ _ hadmitted hmint =>
    have hw' : VectorPassesWellFormed (r.others passes) := hw.filter _
    refine ⟨hw'.distinct.concat (List.nodup_singleton _) ?_, fun q hq ↦ (hw'.quotas q hq).concat ?_⟩
    · intro x hx other ho
      rw [List.mem_singleton.mp hx]
      exact not_mem_tokens_of_mintVectorToken hmint other ho
    · refine room_of_canAdmitVectorPass (by exact hadmitted) (fun other ho howns ↦ ?_) q hq
      have hnot := (List.mem_filter.mp ho).2
      rw [decide_eq_true_eq] at hnot
      exact hnot howns
  | refused => exact hw
  | repeated => exact hw
  | removed _ hindex =>
    exact ⟨hw.distinct.swapRemove hindex, fun q hq ↦ (hw.quotas q hq).swapRemove hindex⟩
  | @advanced index pass current page next _ hindex hholds hcurrent _ hnext =>
    have hpass := List.mem_of_getElem? hindex
    have hold : current.token ∈ pass.tokens := by
      rw [VectorBackfillPass.tokens, hcurrent]
      exact List.mem_cons_self ..
    refine ⟨?_, fun q hq ↦ (hw.quotas q hq).set hindex ?_⟩
    · rcases nextVectorPosition_eq_ok_iff.mp hnext with
        ⟨-, rfl⟩ | ⟨-, position, token, -, hmint, rfl⟩
      · refine hw.distinct.set hindex (List.nodup_singleton _) fun x hx ↦ ?_
        rw [List.mem_singleton.mp hx]
        exact Or.inl hold
      · have hfresh := not_mem_tokens_of_mintVectorToken hmint
        refine hw.distinct.set hindex ?_ fun x hx ↦ ?_
        · -- the new token is not the one it replaces
          refine List.nodup_cons.mpr ⟨fun hmem ↦ hfresh pass hpass ?_, List.nodup_singleton _⟩
          have hsame : token = current.token := List.mem_singleton.mp hmem
          rw [hsame]
          exact hold
        · rcases List.mem_cons.mp hx with rfl | hx
          · exact Or.inr hfresh
          · rw [List.mem_singleton.mp hx]
            exact Or.inl hold
    · simp only [vectorQuotas, List.mem_cons, List.not_mem_nil, or_false] at hq
      rcases hq with rfl | rfl | rfl | rfl | rfl <;> rfl

/-! A token that a pass of the context answers to is answered. -/

theorem VectorPassesWellFormed.findIdx? (hw : VectorPassesWellFormed passes)
    {pass : VectorBackfillPass} (hpass : pass ∈ passes) (token : VectorToken)
    (hp : vectorPassContainsToken pass token = true) :
    ∃ i, passes.findIdx? (fun pass ↦ vectorPassContainsToken pass token) = some i ∧
      passes[i]? = some pass := by
  refine hw.distinct.findIdx? (x := token) hpass hp fun e he ↦ ?_
  rw [vectorPassContainsToken, Bool.or_eq_true, Option.any_eq_true, Option.any_eq_true] at he
  rcases he with ⟨current, hcurrent, hmatch⟩ | ⟨retry, hretry, hmatch⟩
  · obtain rfl := of_decide_eq_true hmatch
    rw [VectorBackfillPass.tokens, hcurrent]
    exact List.mem_append_left _ (List.mem_singleton_self _)
  · obtain rfl := of_decide_eq_true hmatch
    rw [VectorBackfillPass.tokens, hretry]
    exact List.mem_append_right _ (List.mem_singleton_self _)

/-- **The token consumed last is answered as before.** -/
theorem vectorBackfillToken_retry (hw : VectorPassesWellFormed passes) {pass : VectorBackfillPass}
    {retry : VectorPassRetry} (hpass : pass ∈ passes) (hholds : r.Holds m.now pass)
    (hretry : pass.retry = some retry) :
    (vectorBackfillToken t r m retry.token.toList passes).1 = .ok (.authorized retry.response) := by
  obtain ⟨i, hfind, hindex⟩ := hw.findIdx? hpass retry.token
    (by rw [vectorPassContainsToken, hretry]; simp)
  have hcontext : ¬(¬r.owns pass ∨ pass.expiresAt ≤ m.now) := by
    simp only [not_or, not_not, not_le]
    exact ⟨hholds.owns, hholds.unexpired⟩
  have hmatch : (pass.retry.filter fun other ↦ other.token = retry.token) = some retry :=
    Option.filter_eq_some_iff.mpr ⟨hretry, decide_eq_true rfl⟩
  simp only [vectorBackfillToken, Bytes.ofList?_eq_some_iff.mpr rfl, hfind, hindex,
    if_neg hcontext, hmatch]

/-- **The current token is answered with the next page.** -/
theorem vectorBackfillToken_current (hw : VectorPassesWellFormed passes)
    {pass : VectorBackfillPass} {current : VectorPassPosition} (hpass : pass ∈ passes)
    (hholds : r.Holds m.now pass) (hcurrent : pass.current = some current) :
    (vectorBackfillToken t r m current.token.toList passes).1 =
      match vectorBackfillIn t r.documentId current.position pass.terminalSequence r.oplogVersion
        r.metadataByteLimit with
      | .error .invalidCursor => .ok .invalidContinuation
      | .error e => .error e
      | .ok page =>
        match nextVectorPosition m passes page with
        | .error e => .error e
        | .ok none => .ok .backpressure
        | .ok (some next) =>
          .ok (.authorized ⟨page, next.map fun position ↦ position.token.toList⟩) := by
  obtain ⟨i, hfind, hindex⟩ := hw.findIdx? hpass current.token
    (by rw [vectorPassContainsToken, hcurrent]; simp)
  have hcontext : ¬(¬r.owns pass ∨ pass.expiresAt ≤ m.now) := by
    simp only [not_or, not_not, not_le]
    exact ⟨hholds.owns, hholds.unexpired⟩
  -- the token is not also the one consumed last
  have hretry : (pass.retry.filter fun retry ↦ retry.token = current.token) = none := by
    rw [Option.filter_eq_none_iff]
    intro retry hsome hmatch
    have hnodup := hw.distinct.nodup hpass
    rw [VectorBackfillPass.tokens, hcurrent, hsome] at hnodup
    refine (List.nodup_cons.mp hnodup).1 ?_
    rw [← of_decide_eq_true hmatch]
    exact List.mem_singleton_self _
  have hmatch : (pass.current.filter fun other ↦ other.token = current.token) = some current :=
    Option.filter_eq_some_iff.mpr ⟨hcurrent, decide_eq_true rfl⟩
  simp only [vectorBackfillToken, Bytes.ofList?_eq_some_iff.mpr rfl, hfind, hindex,
    if_neg hcontext, hretry, hmatch]
  cases vectorBackfillIn t r.documentId current.position pass.terminalSequence r.oplogVersion
    r.metadataByteLimit with
  | error e => cases e <;> rfl
  | ok page =>
    simp only
    cases nextVectorPosition m passes page with
    | error e => rfl
    | ok next => cases next <;> rfl

/-- **A context that has a pass is never refused for want of room.** -/
theorem canAdmitVectorPass_of_owns (hw : VectorPassesWellFormed passes)
    {pass : VectorBackfillPass} (hpass : pass ∈ passes) (howns : r.owns pass) :
    canAdmitVectorPass (r.others passes) r.channel.id r.documentId r.capabilityId = true := by
  have hp : decide (¬r.owns pass) = false := decide_eq_false (not_not.mpr howns)
  obtain ⟨hchannel, hdocument, hcapability, hversion⟩ := howns
  have hroom := fun q hq ↦ (hw.quotas q hq).lt_of_removed hpass
    (fun pass ↦ decide (¬r.owns pass)) hp _ rfl
  simp only [vectorQuotas, List.mem_cons, List.not_mem_nil, or_false, forall_eq_or_imp,
    forall_eq, Quota.count, Prod.mk.injEq, hchannel, hdocument, hcapability, hversion] at hroom
  obtain ⟨htotal, hchannels, hdocuments, hauthority, -⟩ := hroom
  refine canAdmitVectorPass_iff.mpr ⟨?_, hchannels, hdocuments, hauthority⟩
  simpa [VectorBackfillRequest.others] using htotal

end VectorBackfill

end Renee
