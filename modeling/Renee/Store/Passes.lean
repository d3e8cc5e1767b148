import Renee.Library.TokenRegistry
import Renee.Store.Accept

/-!
# Pagination passes

Enumeration and vector backfill as the source has them: a page is cut out of the acceptance log, and
a *pass* kept in memory remembers where the next one starts.

* `enumerateIn` walks a window of acceptance positions, one point lookup each, until 64 records or
  the metadata limit; `vectorBackfillIn` walks a range of the log and keeps what a version selects.
* An `EnumerationPass` answers to two tokens: the current one, which advances it, and the one
  consumed last, whose response is kept for a client that did not see it.  A `VectorBackfillPass` is
  the same, except that its last page has no current token.
* The two requests are written as functions on the list of passes, `enumeratePasses` and
  `vectorBackfillPasses`; what surrounds them, authorization and expiry, is part of the store.

What a request takes from its surroundings, the clock and the random source, is its `Moment`.
-/

set_option autoImplicit false

namespace Renee

open ByteString Relational TokenRegistry

/-! ## Limits -/

def maxVectorPasses : ℕ := 1024
def maxVectorPassesPerAuthority : ℕ := 8
def maxVectorPassesPerChannel : ℕ := 32
def maxVectorPassesPerDocument : ℕ := 32
def maxVectorScanRecords : ℕ := 64
def vectorContinuationLength : ℕ := 32

/-- 300 seconds, in nanoseconds. -/
def vectorPassIdleTtl : ℕ := 300 * 10 ^ 9

def maxEnumerationPasses : ℕ := 1024
def maxEnumerationPassesPerAuthority : ℕ := 8
def maxEnumerationPassesPerChannel : ℕ := 32
def maxEnumerationPassesPerDocument : ℕ := 32
def maxEnumerationScanRecords : ℕ := 64

/-- 300 seconds, in nanoseconds. -/
def enumerationPassIdleTtl : ℕ := 300 * 10 ^ 9

def storeGenerationLength : ℕ := 16

/-- An opaque enumeration token. -/
abbrev EnumerationToken := Bytes enumerationContinuationLength

/-- An opaque vector-backfill token. -/
abbrev VectorToken := Bytes vectorContinuationLength

/-- The random value drawn when a store is opened. -/
abbrev StoreGeneration := Bytes storeGenerationLength

/-- What a request takes from its surroundings.  Instants are nanoseconds. -/
structure Moment (tokenLength : ℕ) where
  /-- The clock when the request has been authorized. -/
  now : ℕ
  /-- The clock when its response is ready. -/
  later : ℕ
  /-- The draws from the random source; a draw may fail. -/
  draw : ℕ → Option (Bytes tokenLength)

/-! ## Pages -/

/-- One bounded page from a frozen acceptance window. -/
@[ext] structure StoredUpdatePage where
  /-- Whether another row exists after this page. -/
  hasMore : Bool
  /-- Next window ordinal, retained only in the pass. -/
  nextOrdinal : ℕ
  /-- Public metadata. -/
  updates : List UpdateMetadata
deriving DecidableEq

/-- One bounded scan window from a stable vector-backfill pass. -/
@[ext] structure StoredVectorBackfillPage where
  /-- Whether another retained record remains in the captured snapshot. -/
  hasMore : Bool
  /-- Last record examined, including one omitted as already covered. -/
  lastExaminedSequence : Option AcceptanceSequence
  /-- Public metadata selected by the supplied version. -/
  updates : List UpdateMetadata
deriving DecidableEq

/-- One authorized finite-window page and the token that follows it. -/
@[ext] structure AuthorizedStoredUpdatePage where
  page : StoredUpdatePage
  /-- Opaque successor or stable-tail token, present for every nonempty page. -/
  nextCursor : Option (List UInt8)
deriving DecidableEq

/-- One authorized vector-selected page and its opaque continuation. -/
@[ext] structure AuthorizedVectorBackfillPage where
  page : StoredVectorBackfillPage
  /-- Opaque next-page continuation, present exactly when `hasMore` is true. -/
  nextCursor : Option (List UInt8)
deriving DecidableEq

def emptyStoredUpdatePage : StoredUpdatePage := ⟨false, 0, []⟩

/-- The public metadata of an update. -/
def metadata (update : ImmutableUpdate) : Except StoreError UpdateMetadata :=
  if update.encryptedPayload.length < 2 ^ 32 then
    .ok ⟨update.encryptedPayload.length, update.publicLoroRanges, update.updateId⟩
  else .error (.corrupt "stored payload length cannot be represented")

/-! ## Cutting an enumeration page -/

/-- The position of the newest update of a document. -/
def highWaterSequenceIn (t : Tables) (d : DocumentId) : Option AcceptanceSequence :=
  (t.log d).getLast?.map UpdateRow.acceptanceSequence

/-- The update a document has at a position. -/
def updateAt? (t : Tables) (d : DocumentId) (sequence : AcceptanceSequence) : Option UpdateRow :=
  t.updates.rows.find? fun row ↦ row.documentId = d ∧ row.acceptanceSequence = sequence

/-- The acceptance position of a window's ordinal. -/
def windowSequence (lower ordinal : ℕ) : Option AcceptanceSequence :=
  if h : lower + ordinal + 1 < 2 ^ 64 then some ⟨lower + ordinal + 1, h⟩ else none

/-- The metadata of the update at a position, with the length it takes up on a page. -/
def pageEntry (t : Tables) (d : DocumentId) (lower ordinal : ℕ) :
    Except StoreError (UpdateMetadata × ℕ) :=
  match windowSequence lower ordinal with
  | none => .error (.corrupt "enumeration sequence overflowed its finite window")
  | some sequence =>
    match updateAt? t d sequence with
    | none => .error (.corrupt "enumeration snapshot contains a missing acceptance position")
    | some row =>
      match decodeUpdateRecord row.encodedRecord with
      | .error _ => .error (.corrupt "stored update record is invalid")
      | .ok update =>
        if update.documentId ≠ d then
          .error (.corrupt "stored update document disagrees with index")
        else if update.updateId ≠ row.updateId then
          .error (.corrupt "stored update identifier disagrees with index")
        else match metadata update with
        | .error e => .error e
        | .ok entry =>
          match metadataEncodedLength entry with
          | .error _ => .error (.corrupt "stored metadata cannot be encoded")
          | .ok length => .ok (entry, length)

/-- The loop of `enumerate_in` from an ordinal on, over at most `n` more records, with `used` bytes
of metadata on the page already.  It returns the ordinal after the last record taken. -/
def enumerateFrom (t : Tables) (d : DocumentId) (lower limit : ℕ) :
    ℕ → ℕ → ℕ → Except StoreError (ℕ × List UpdateMetadata)
  | 0, ordinal, _ => .ok (ordinal, [])
  | n + 1, ordinal, used =>
    match pageEntry t d lower ordinal with
    | .error e => .error e
    | .ok (entry, length) =>
      match checkedAdd 64 used length with
      | none => .ok (ordinal, [])
      | some used =>
        if used > limit then .ok (ordinal, [])
        else match checkedAdd 64 ordinal 1 with
        | none => .error (.corrupt "enumeration ordinal overflowed")
        | some ordinal =>
          match enumerateFrom t d lower limit n ordinal used with
          | .error e => .error e
          | .ok (next, updates) => .ok (next, entry :: updates)

def enumerateIn (t : Tables) (d : DocumentId) (lower terminal : AcceptanceSequence)
    (nextOrdinal limit : ℕ) : Except StoreError StoredUpdatePage :=
  if terminal.get ≤ lower.get then .error .invalidCursor
  else
    let windowLength := terminal.get - lower.get
    if windowLength ≤ nextOrdinal then .error .invalidCursor
    else
      -- the addition saturates
      let scanEnd := min (min (nextOrdinal + maxEnumerationScanRecords) (2 ^ 64 - 1)) windowLength
      match enumerateFrom t d lower.get limit (scanEnd - nextOrdinal) nextOrdinal 0 with
      | .error e => .error e
      | .ok (pageNextOrdinal, updates) =>
        .ok ⟨decide (pageNextOrdinal < windowLength), pageNextOrdinal, updates⟩

/-! ## Cutting a vector-backfill page -/

/-- Whether a version selects an update: one of its ranges ends beyond what the version covers. -/
def LoroOplogVersion.selects (v : LoroOplogVersion) (ranges : PublicLoroRanges) : Bool :=
  ranges.ranges.any fun range ↦ v.endCounterFor range.peerId < range.endCounter

/-- The rows of a scan, one more than it may examine. -/
def vectorRows (t : Tables) (d : DocumentId) (position terminal : AcceptanceSequence) :
    List UpdateRow :=
  ((t.log d).filter fun row ↦
    position < row.acceptanceSequence ∧ row.acceptanceSequence ≤ terminal).take
      (maxVectorScanRecords + 1)

/-- The loop of `vector_backfill_in` over the rows of the scan, `scanned` of which have been
examined, the last one at position `last`. -/
def vectorBackfillFrom (d : DocumentId) (v : LoroOplogVersion) (limit : ℕ) :
    List UpdateRow → ℕ → Option AcceptanceSequence → ℕ → Except StoreError StoredVectorBackfillPage
  | [], _, last, _ => .ok ⟨false, last, []⟩
  | row :: rows, used, last, scanned =>
    if scanned = maxVectorScanRecords then .ok ⟨true, last, []⟩
    else match decodeUpdateRecord row.encodedRecord with
    | .error _ => .error (.corrupt "stored update record is invalid")
    | .ok update =>
      if update.documentId ≠ d then
        .error (.corrupt "stored update document disagrees with index")
      else if v.selects update.publicLoroRanges then
        match metadata update with
        | .error e => .error e
        | .ok entry =>
          match metadataEncodedLength entry with
          | .error _ => .error (.corrupt "stored metadata cannot be encoded")
          | .ok length =>
            match checkedAdd 64 used length with
            | none => .ok ⟨true, last, []⟩
            | some used =>
              if used > limit then .ok ⟨true, last, []⟩
              else match vectorBackfillFrom d v limit rows used (some row.acceptanceSequence)
                  (scanned + 1) with
              | .error e => .error e
              | .ok page => .ok { page with updates := entry :: page.updates }
      else vectorBackfillFrom d v limit rows used (some row.acceptanceSequence) (scanned + 1)

def vectorBackfillIn (t : Tables) (d : DocumentId) (position terminal : AcceptanceSequence)
    (v : LoroOplogVersion) (limit : ℕ) : Except StoreError StoredVectorBackfillPage :=
  if terminal = .origin ∨ terminal < position then .error .invalidCursor
  else if (position ≠ .origin ∧ (updateAt? t d position).isNone) ∨ (updateAt? t d terminal).isNone
  then .error .invalidCursor
  else vectorBackfillFrom d v limit (vectorRows t d position terminal) 0 none 0

/-! ## Enumeration passes -/

/-- How an enumeration token is to be presented. -/
inductive EnumerationTokenMode
  | continuation
  | afterTail
deriving DecidableEq

@[ext] structure EnumerationPassPosition where
  mode : EnumerationTokenMode
  nextOrdinal : ℕ
  token : EnumerationToken
deriving DecidableEq

@[ext] structure EnumerationPassRetry where
  mode : EnumerationTokenMode
  response : AuthorizedStoredUpdatePage
  token : EnumerationToken
deriving DecidableEq

@[ext] structure EnumerationPass where
  capabilityId : CapabilityId
  channelId : ℕ
  current : EnumerationPassPosition
  documentId : DocumentId
  expiresAt : ℕ
  generation : StoreGeneration
  lowerSequenceExclusive : AcceptanceSequence
  retry : Option EnumerationPassRetry
  terminalSequence : AcceptanceSequence
deriving DecidableEq

/-- Finite-window start after structural cursor validation. -/
inductive StoreEnumerateStart
  /-- Capture the current high water from origin. -/
  | origin
  /-- Continue the exact captured finite window. -/
  | continuation (encoded : List UInt8)
  /-- Capture a new high water after a completed prior window. -/
  | afterTail (encoded : List UInt8)
deriving DecidableEq

/-- Authorization-preserving enumeration result. -/
inductive StoreEnumerateOutcome
  | authorized (response : AuthorizedStoredUpdatePage)
  | authorizationDenied
  | retiredDocument
  | invalidContinuation
  | backpressure
deriving DecidableEq

/-- One in-process session-channel lease: the broker that issued it, and its number there. -/
@[ext] structure BrokerChannel where
  broker : ℕ
  id : ℕ
deriving DecidableEq

/-- The arguments of `enumerate_authorized`. -/
structure EnumerateRequest where
  channel : BrokerChannel
  documentId : DocumentId
  capabilityId : CapabilityId
  authenticator : Authenticator
  start : StoreEnumerateStart
  metadataByteLimit : ℕ

/-- The tokens a pass answers to. -/
def EnumerationPass.tokens (pass : EnumerationPass) : List EnumerationToken :=
  pass.current.token :: (pass.retry.map EnumerationPassRetry.token).toList

def enumerationPassContainsToken (pass : EnumerationPass) (token : EnumerationToken)
    (mode : EnumerationTokenMode) : Bool :=
  decide (pass.current.token = token ∧ pass.current.mode = mode) ||
    pass.retry.any fun retry ↦ decide (retry.token = token ∧ retry.mode = mode)

def canAdmitEnumerationPass (passes : List EnumerationPass) (channelId : ℕ) (d : DocumentId)
    (c : CapabilityId) : Bool :=
  passes.length < maxEnumerationPasses ∧
  (passes.countP fun pass ↦ pass.channelId = channelId) < maxEnumerationPassesPerChannel ∧
  (passes.countP fun pass ↦ pass.documentId = d) < maxEnumerationPassesPerDocument ∧
  (passes.countP fun pass ↦ pass.documentId = d ∧ pass.capabilityId = c) <
    maxEnumerationPassesPerAuthority

def mintEnumerationToken (draw : ℕ → Option EnumerationToken) (passes : List EnumerationPass) :
    Except StoreError (Option EnumerationToken) :=
  mint .entropyUnavailable
    (fun token ↦ passes.any fun pass ↦ decide (pass.current.token = token) ||
      pass.retry.any fun retry ↦ decide (retry.token = token)) draw 4 0

/-- Whether a pass belongs to the context of a request. -/
def EnumerateRequest.owns (r : EnumerateRequest) (pass : EnumerationPass) : Prop :=
  pass.channelId = r.channel.id ∧ pass.documentId = r.documentId ∧
    pass.capabilityId = r.capabilityId

instance (r : EnumerateRequest) (pass : EnumerationPass) : Decidable (r.owns pass) :=
  inferInstanceAs (Decidable (_ ∧ _ ∧ _))

/-- The mode in which the token after a page is to be presented. -/
def StoredUpdatePage.nextMode (page : StoredUpdatePage) : EnumerationTokenMode :=
  if page.hasMore then .continuation else .afterTail

/-- An `Origin` request: the pass of its context is replaced. -/
def enumerateOrigin (t : Tables) (generation : StoreGeneration) (r : EnumerateRequest)
    (m : Moment enumerationContinuationLength) (passes : List EnumerationPass) :
    Except StoreError StoreEnumerateOutcome × List EnumerationPass :=
  let passes := passes.filter fun pass ↦ ¬r.owns pass
  match highWaterSequenceIn t r.documentId with
  | none => (.ok (.authorized ⟨emptyStoredUpdatePage, none⟩), passes)
  | some terminal =>
    match enumerateIn t r.documentId .origin terminal 0 r.metadataByteLimit with
    | .error e => (.error e, passes)
    | .ok page =>
      if page.updates = [] then
        (.error (.corrupt "nonempty enumeration snapshot produced no first record"), passes)
      else if !canAdmitEnumerationPass passes r.channel.id r.documentId r.capabilityId then
        (.ok .backpressure, passes)
      else match mintEnumerationToken m.draw passes with
      | .error e => (.error e, passes)
      | .ok none => (.ok .backpressure, passes)
      | .ok (some token) =>
        (.ok (.authorized ⟨page, some token.toList⟩),
          passes ++ [{
            capabilityId := r.capabilityId
            channelId := r.channel.id
            current := ⟨page.nextMode, page.nextOrdinal, token⟩
            documentId := r.documentId
            expiresAt := m.now + enumerationPassIdleTtl
            generation := generation
            lowerSequenceExclusive := .origin
            retry := none
            terminalSequence := terminal }])

/-- What the current token of a pass selects. -/
inductive EnumerationSelection
  | invalid
  /-- The completed window is still the newest. -/
  | atTail
  | window (lower terminal : AcceptanceSequence) (nextOrdinal : ℕ)

/-- The window of a continuation, or the one after the tail. -/
def selectEnumerationWindow (t : Tables) (d : DocumentId) (pass : EnumerationPass) :
    EnumerationTokenMode → EnumerationSelection
  | .continuation =>
    .window pass.lowerSequenceExclusive pass.terminalSequence pass.current.nextOrdinal
  | .afterTail =>
    match highWaterSequenceIn t d with
    | none => .invalid
    | some highWater =>
      if highWater < pass.terminalSequence then .invalid
      else if highWater = pass.terminalSequence then .atTail
      else .window pass.terminalSequence highWater 0

/-- A pass that has handed out a page for its current token. -/
def EnumerationPass.advance (pass : EnumerationPass) (mode : EnumerationTokenMode)
    (token next : EnumerationToken) (lower terminal : AcceptanceSequence) (page : StoredUpdatePage)
    (expiresAt : ℕ) : EnumerationPass :=
  { pass with
    current := ⟨page.nextMode, page.nextOrdinal, next⟩
    expiresAt := expiresAt
    lowerSequenceExclusive := lower
    retry := some ⟨mode, ⟨page, some next.toList⟩, token⟩
    terminalSequence := terminal }

/-- A `Continue` or `AfterTail` request. -/
def enumerateToken (t : Tables) (generation : StoreGeneration) (r : EnumerateRequest)
    (m : Moment enumerationContinuationLength) (requestedMode : EnumerationTokenMode)
    (encoded : List UInt8) (passes : List EnumerationPass) :
    Except StoreError StoreEnumerateOutcome × List EnumerationPass :=
  match Bytes.ofList? enumerationContinuationLength encoded with
  | none => (.ok .invalidContinuation, passes)
  | some token =>
    match passes.findIdx? fun pass ↦ enumerationPassContainsToken pass token requestedMode with
    | none => (.ok .invalidContinuation, passes)
    | some passIndex =>
      match passes[passIndex]? with
      | none => (.ok .invalidContinuation, passes) -- the index is in range
      | some pass =>
        if ¬r.owns pass ∨ pass.generation ≠ generation ∨ pass.expiresAt ≤ m.now then
          (.ok .invalidContinuation, passes)
        else match pass.retry.filter fun retry ↦
            retry.token = token ∧ retry.mode = requestedMode with
        | some retry => (.ok (.authorized retry.response), passes)
        | none =>
          if pass.current.token ≠ token ∨ pass.current.mode ≠ requestedMode then
            (.ok .invalidContinuation, passes)
          else match selectEnumerationWindow t r.documentId pass requestedMode with
          | .invalid => (.ok .invalidContinuation, passes)
          | .atTail => (.ok (.authorized ⟨emptyStoredUpdatePage, none⟩), passes)
          | .window lower terminal nextOrdinal =>
            match enumerateIn t r.documentId lower terminal nextOrdinal r.metadataByteLimit with
            | .error .invalidCursor => (.ok .invalidContinuation, swapRemove passes passIndex)
            | .error e => (.error e, passes)
            | .ok page =>
              if page.updates = [] then
                (.error (.corrupt "advancing enumeration pass produced no record"), passes)
              else match mintEnumerationToken m.draw passes with
              | .error e => (.error e, passes)
              | .ok none => (.ok .backpressure, passes)
              | .ok (some next) =>
                (.ok (.authorized ⟨page, some next.toList⟩),
                  passes.set passIndex (pass.advance requestedMode token next lower terminal page
                    (m.later + enumerationPassIdleTtl)))

/-- An enumeration request on the passes that have not expired. -/
def enumeratePasses (t : Tables) (generation : StoreGeneration) (r : EnumerateRequest)
    (m : Moment enumerationContinuationLength) (passes : List EnumerationPass) :
    Except StoreError StoreEnumerateOutcome × List EnumerationPass :=
  match r.start with
  | .origin => enumerateOrigin t generation r m passes
  | .continuation encoded => enumerateToken t generation r m .continuation encoded passes
  | .afterTail encoded => enumerateToken t generation r m .afterTail encoded passes

/-! ## Vector-backfill passes -/

@[ext] structure VectorPassPosition where
  position : AcceptanceSequence
  token : VectorToken
deriving DecidableEq

@[ext] structure VectorPassRetry where
  response : AuthorizedVectorBackfillPage
  token : VectorToken
deriving DecidableEq

@[ext] structure VectorBackfillPass where
  capabilityId : CapabilityId
  channelId : ℕ
  current : Option VectorPassPosition
  documentId : DocumentId
  expiresAt : ℕ
  oplogVersion : LoroOplogVersion
  retry : Option VectorPassRetry
  terminalSequence : AcceptanceSequence
deriving DecidableEq

/-- Start of one stable vector-backfill pass. -/
inductive StoreVectorBackfillStart
  /-- Capture the current immutable-update high water. -/
  | origin
  /-- Resume one opaque, bounded, broker-owned continuation. -/
  | continuation (encoded : List UInt8)
deriving DecidableEq

/-- Authorization-preserving vector-backfill result. -/
inductive StoreVectorBackfillOutcome
  | authorized (response : AuthorizedVectorBackfillPage)
  | authorizationDenied
  | retiredDocument
  | invalidContinuation
  | backpressure
deriving DecidableEq

/-- The arguments of `vector_backfill_authorized`. -/
structure VectorBackfillRequest where
  channel : BrokerChannel
  documentId : DocumentId
  capabilityId : CapabilityId
  authenticator : Authenticator
  oplogVersion : LoroOplogVersion
  start : StoreVectorBackfillStart
  metadataByteLimit : ℕ

/-- The tokens a pass answers to. -/
def VectorBackfillPass.tokens (pass : VectorBackfillPass) : List VectorToken :=
  (pass.current.map VectorPassPosition.token).toList ++
    (pass.retry.map VectorPassRetry.token).toList

def vectorPassContainsToken (pass : VectorBackfillPass) (token : VectorToken) : Bool :=
  (pass.current.any fun current ↦ decide (current.token = token)) ||
    pass.retry.any fun retry ↦ decide (retry.token = token)

def canAdmitVectorPass (passes : List VectorBackfillPass) (channelId : ℕ) (d : DocumentId)
    (c : CapabilityId) : Bool :=
  passes.length < maxVectorPasses ∧
  (passes.countP fun pass ↦ pass.channelId = channelId) < maxVectorPassesPerChannel ∧
  (passes.countP fun pass ↦ pass.documentId = d) < maxVectorPassesPerDocument ∧
  (passes.countP fun pass ↦ pass.documentId = d ∧ pass.capabilityId = c) <
    maxVectorPassesPerAuthority

def mintVectorToken (draw : ℕ → Option VectorToken) (passes : List VectorBackfillPass) :
    Except StoreError (Option VectorToken) :=
  mint .entropyUnavailable (fun token ↦ passes.any fun pass ↦ vectorPassContainsToken pass token)
    draw 4 0

/-- Whether a pass belongs to the context of a request. -/
def VectorBackfillRequest.owns (r : VectorBackfillRequest) (pass : VectorBackfillPass) : Prop :=
  pass.channelId = r.channel.id ∧ pass.documentId = r.documentId ∧
    pass.capabilityId = r.capabilityId ∧ pass.oplogVersion = r.oplogVersion

instance (r : VectorBackfillRequest) (pass : VectorBackfillPass) : Decidable (r.owns pass) :=
  inferInstanceAs (Decidable (_ ∧ _ ∧ _ ∧ _))

/-- An `Origin` request: a page that ends the backfill leaves no pass, and keeps one that is there;
any other replaces it. -/
def vectorBackfillOrigin (t : Tables) (r : VectorBackfillRequest)
    (m : Moment vectorContinuationLength) (passes : List VectorBackfillPass) :
    Except StoreError StoreVectorBackfillOutcome × List VectorBackfillPass :=
  match highWaterSequenceIn t r.documentId with
  | none => (.ok (.authorized ⟨⟨false, none, []⟩, none⟩), passes)
  | some terminal =>
    match vectorBackfillIn t r.documentId .origin terminal r.oplogVersion r.metadataByteLimit with
    | .error e => (.error e, passes)
    | .ok page =>
      if page.hasMore then
        match page.lastExaminedSequence with
        | none =>
          (.error (.corrupt "continuable vector scan omitted its last examined position"), passes)
        | some position =>
          let passes := passes.filter fun pass ↦ ¬r.owns pass
          if !canAdmitVectorPass passes r.channel.id r.documentId r.capabilityId then
            (.ok .backpressure, passes)
          else match mintVectorToken m.draw passes with
          | .error e => (.error e, passes)
          | .ok none => (.ok .backpressure, passes)
          | .ok (some token) =>
            (.ok (.authorized ⟨page, some token.toList⟩),
              passes ++ [{
                capabilityId := r.capabilityId
                channelId := r.channel.id
                current := some ⟨position, token⟩
                documentId := r.documentId
                expiresAt := m.now + vectorPassIdleTtl
                oplogVersion := r.oplogVersion
                retry := none
                terminalSequence := terminal }])
      else (.ok (.authorized ⟨page, none⟩), passes)

/-- The position and the token after a page that has a continuation.  Either may be missing where it
must not be, and the random source may fail. -/
def nextVectorPosition (m : Moment vectorContinuationLength) (passes : List VectorBackfillPass)
    (page : StoredVectorBackfillPage) :
    Except StoreError (Option (Option VectorPassPosition)) :=
  if page.hasMore then
    match page.lastExaminedSequence with
    | none => .error (.corrupt "continuable vector scan omitted its last examined position")
    | some position =>
      match mintVectorToken m.draw passes with
      | .error e => .error e
      | .ok none => .ok none
      | .ok (some token) => .ok (some (some ⟨position, token⟩))
  else .ok (some none)

/-- A pass that has handed out a page for its current token. -/
def VectorBackfillPass.advance (pass : VectorBackfillPass) (token : VectorToken)
    (next : Option VectorPassPosition) (page : StoredVectorBackfillPage) (expiresAt : ℕ) :
    VectorBackfillPass :=
  { pass with
    current := next
    expiresAt := expiresAt
    retry := some ⟨⟨page, next.map fun position ↦ position.token.toList⟩, token⟩ }

/-- A `Continue` request. -/
def vectorBackfillToken (t : Tables) (r : VectorBackfillRequest)
    (m : Moment vectorContinuationLength) (encoded : List UInt8)
    (passes : List VectorBackfillPass) :
    Except StoreError StoreVectorBackfillOutcome × List VectorBackfillPass :=
  match Bytes.ofList? vectorContinuationLength encoded with
  | none => (.ok .invalidContinuation, passes)
  | some token =>
    match passes.findIdx? fun pass ↦ vectorPassContainsToken pass token with
    | none => (.ok .invalidContinuation, passes)
    | some passIndex =>
      match passes[passIndex]? with
      | none => (.ok .invalidContinuation, passes) -- the index is in range
      | some pass =>
        if ¬r.owns pass ∨ pass.expiresAt ≤ m.now then (.ok .invalidContinuation, passes)
        else match pass.retry.filter fun retry ↦ retry.token = token with
        | some retry => (.ok (.authorized retry.response), passes)
        | none =>
          match pass.current.filter fun current ↦ current.token = token with
          | none => (.ok .invalidContinuation, passes)
          | some current =>
            match vectorBackfillIn t r.documentId current.position pass.terminalSequence
              r.oplogVersion r.metadataByteLimit with
            | .error .invalidCursor => (.ok .invalidContinuation, swapRemove passes passIndex)
            | .error e => (.error e, passes)
            | .ok page =>
              match nextVectorPosition m passes page with
              | .error e => (.error e, passes)
              | .ok none => (.ok .backpressure, passes)
              | .ok (some next) =>
                (.ok (.authorized ⟨page, next.map fun position ↦ position.token.toList⟩),
                  passes.set passIndex (pass.advance token next page
                    (m.later + vectorPassIdleTtl)))

/-- A vector-backfill request on the passes that have not expired. -/
def vectorBackfillPasses (t : Tables) (r : VectorBackfillRequest)
    (m : Moment vectorContinuationLength) (passes : List VectorBackfillPass) :
    Except StoreError StoreVectorBackfillOutcome × List VectorBackfillPass :=
  match r.start with
  | .origin => vectorBackfillOrigin t r m passes
  | .continuation encoded => vectorBackfillToken t r m encoded passes

end Renee
