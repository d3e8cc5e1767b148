import Renee.Wire.Frame

/-!
# The read messages

The payloads of the requests that read updates, and of their responses: enumeration, vector backfill
and fetch.

Every message has an encoder, check by check, and a decoder, which is a chain of readers followed by
a check that nothing remains (`decodeExactly`).  The layouts have parts in common: the authority, a
length-prefixed continuation, and a counted list of metadata entries.
-/

set_option autoImplicit false

namespace Renee.Wire

open ByteString ByteString.Reader

/-! ## Message types -/

def enumerateUpdates : U16 := 12

def enumerateUpdatesResponse : U16 := 13

def fetchUpdate : U16 := 14

def fetchUpdateResponse : U16 := 15

def updateError : U16 := 16

def vectorBackfill : U16 := 27

def vectorBackfillResponse : U16 := 28

/-! ## Layout constants -/

def vectorBackfillPayloadVersion : ℕ := 1

/-- Fixed bytes of one vector-backfill continuation. -/
def vectorCursorLength : ℕ := 32

/-- `CARBVV` and two zero bytes. -/
def oplogVersionMagic : List UInt8 := [67, 65, 82, 66, 86, 86, 0, 0]

def oplogVersionFormatVersion : ℕ := 1

def oplogVersionHeaderLength : ℕ := 12

def oplogVersionEntryLength : ℕ := 12

/-! ## Values -/

/-- A capability and the secret that proves it. -/
@[ext] structure CapabilityAuthority where
  capabilityId : CapabilityId
  authenticator : Authenticator
deriving DecidableEq

/-- Starting point for one finite metadata enumeration window. -/
inductive EnumerateStart
  | origin
  | continuation (cursor : List UInt8)
  | afterTail (cursor : List UInt8)
deriving DecidableEq

/-- One metadata enumeration cursor. -/
@[ext] structure EnumerateRequest where
  /-- Capability claiming read authority. -/
  authority : CapabilityAuthority
  /-- Return updates from this document. -/
  documentId : DocumentId
  /-- How this request establishes or resumes its finite read window. -/
  start : EnumerateStart
deriving DecidableEq

/-- One authorized opaque-update fetch request. -/
@[ext] structure FetchRequest where
  authority : CapabilityAuthority
  documentId : DocumentId
  updateId : UpdateId
deriving DecidableEq

/-- One bounded metadata page. -/
@[ext] structure EnumerateResponse where
  /-- Whether another request after the returned cursor can continue. -/
  hasMore : Bool
  /-- Opaque continuation or after-tail token returned with a nonempty page. -/
  nextCursor : Option (List UInt8)
  /-- Public metadata whose delivery order has no protocol meaning. -/
  updates : List UpdateMetadata
deriving DecidableEq

/-- Starting point for one stable vector-backfill pass. -/
inductive VectorBackfillStart
  | origin
  | continuation (cursor : List UInt8)
deriving DecidableEq

/-- One authenticated vector-backfill request. -/
@[ext] structure VectorBackfillRequest where
  authority : CapabilityAuthority
  documentId : DocumentId
  /-- Client's durable canonical Loro oplog version. -/
  oplogVersion : LoroOplogVersion
  start : VectorBackfillStart
deriving DecidableEq

/-- One bounded vector-selected metadata page. -/
@[ext] structure VectorBackfillResponse where
  /-- Whether another request can continue this exact stable pass. -/
  hasMore : Bool
  /-- Opaque broker continuation after the last returned update. -/
  nextCursor : Option (List UInt8)
  /-- Selected public metadata with no causal or acceptance-order claim. -/
  updates : List UpdateMetadata
deriving DecidableEq

/-- Stable minimal update-API error. -/
inductive UpdateErrorCode
  | malformed
  | identifierConflict
  | notFound
  | notNegotiated
  | invalidCursor
  | counterExhausted
  | authorizationDenied
  | backpressure
  | invalidLoroMetadata
  | invalidOrExpiredContinuation
  | limitExceeded
  | retiredDocument
deriving DecidableEq

/-- Encode a stable one-byte update error. -/
def encodeUpdateError : UpdateErrorCode → List UInt8
  | .malformed => [0]
  | .identifierConflict => [1]
  | .notFound => [2]
  | .notNegotiated => [3]
  | .invalidCursor => [4]
  | .counterExhausted => [5]
  | .authorizationDenied => [6]
  | .backpressure => [7]
  | .invalidLoroMetadata => [8]
  | .invalidOrExpiredContinuation => [9]
  | .limitExceeded => [10]
  | .retiredDocument => [11]

/-! ## Common parts -/

/-- Read one value that takes up the whole payload. -/
def decodeExactly {α : Type} (r : Reader UpdateCodecError α) (payload : List UInt8) :
    Except UpdateCodecError α :=
  match r payload with
  | .error e => .error e
  | .ok (value, remaining) => if remaining ≠ [] then .error .trailingBytes else .ok value

def authorityBytes (authority : CapabilityAuthority) : List UInt8 :=
  authority.capabilityId.bytes.toList ++ authority.authenticator.bytes.toList

def readAuthority : Reader UpdateCodecError CapabilityAuthority := do
  let capabilityId ← takeBytes .truncated identifierLength
  let authenticator ← takeBytes .truncated secretLength
  pure ⟨⟨capabilityId⟩, ⟨authenticator⟩⟩

/-- The length of a continuation that has a fixed one. -/
def fixedCursorLength (length : ℕ) : Option (List UInt8) → Except UpdateCodecError ℕ
  | none => .ok 0
  | some cursor => if cursor.length = length then .ok length else .error .invalidCursor

def cursorLength : Option (List UInt8) → Except UpdateCodecError ℕ :=
  fixedCursorLength enumerationContinuationLength

/-- A continuation with its length before it. -/
def cursorBytes (cursor : Option (List UInt8)) : List UInt8 :=
  toBe 2 (cursor.getD []).length ++ cursor.getD []

/-- Read a continuation of a fixed length, or none. -/
def readCursor (length : ℕ) : Reader UpdateCodecError (Option (List UInt8)) := do
  let cursorLength ← takeBe .truncated 2
  if cursorLength = 0 then pure none
  else if cursorLength = length then
    let cursor ← take .truncated length
    pure (some cursor)
  else throw .invalidCursor

/-- `u8::from` of a boolean. -/
def flagBytes (flag : Bool) : List UInt8 := if flag then [1] else [0]

def readFlag : Reader UpdateCodecError Bool := do
  let flag ← takeBe .truncated 1
  if flag = 0 then pure false
  else if flag = 1 then pure true
  else throw .invalidDiscriminant

/-- The bytes of one metadata entry. -/
def metadataBytes (metadata : UpdateMetadata) : List UInt8 :=
  metadata.updateId.bytes.toList ++ (toBe 2 metadata.publicLoroRanges.ranges.length ++
    (metadata.publicLoroRanges.ranges.flatMap rangeBytes ++
      toBe 4 metadata.encryptedPayloadLength))

def readMetadata : Reader UpdateCodecError UpdateMetadata := do
  let updateId ← takeBytes .truncated identifierLength
  let rangeCount ← takeBe .truncated 2
  check (¬(rangeCount = 0 ∨ rangeCount > maxLoroPeers)) .invalidLoroMetadata
  let ranges ← many readRange rangeCount
  let publicLoroRanges ← lift ((PublicLoroRanges.new ranges).mapError fun _ ↦ .invalidLoroMetadata)
  let encryptedPayloadLength ← takeBe .truncated 4
  pure ⟨encryptedPayloadLength, publicLoroRanges, ⟨updateId⟩⟩

/-- The loop that appends the metadata entries of a page. -/
def appendUpdates : List UpdateMetadata → Except UpdateCodecError (List UInt8)
  | [] => .ok []
  | metadata :: updates =>
    if metadata.publicLoroRanges.ranges.length ≥ 2 ^ 16 then .error .integerOutOfRange
    else match appendUpdates updates with
      | .error e => .error e
      | .ok rest => .ok (metadataBytes metadata ++ rest)

/-- The layout of a page. -/
def pageBytes (hasMore : Bool) (nextCursor : Option (List UInt8)) (count : ℕ)
    (entries : List UInt8) : List UInt8 :=
  flagBytes hasMore ++ (cursorBytes nextCursor ++ (toBe 2 count ++ entries))

/-- The last part of both page encoders: the entries, and the limit of the payload. -/
def encodePage (hasMore : Bool) (nextCursor : Option (List UInt8)) (updates : List UpdateMetadata) :
    Except UpdateCodecError (List UInt8) :=
  match appendUpdates updates with
  | .error e => .error e
  | .ok entries =>
    if (pageBytes hasMore nextCursor updates.length entries).length >
        maxApplicationPayloadLength then
      .error .recordTooLong
    else .ok (pageBytes hasMore nextCursor updates.length entries)

/-- The bytes of a page before its entries. -/
def responseBaseLength (cursorLength : ℕ) : Except UpdateCodecError ℕ :=
  match ((checkedAdd 64 1 2).bind (checkedAdd 64 · cursorLength)).bind (checkedAdd 64 · 2) with
  | none => .error .integerOutOfRange
  | some length => .ok length

/-! ## Enumeration -/

/-- The fixed response bytes before metadata entries. -/
def enumerateResponseBaseLength (cursor : Option (List UInt8)) : Except UpdateCodecError ℕ := do
  let cursorLength ← cursorLength cursor
  responseBaseLength cursorLength

/-- Encode a metadata enumeration request. -/
def encodeEnumerateRequest (request : EnumerateRequest) : Except UpdateCodecError (List UInt8) := do
  let (mode, cursor) : ℕ × Option (List UInt8) := match request.start with
    | .origin => (0, none)
    | .continuation cursor => (1, some cursor)
    | .afterTail cursor => (2, some cursor)
  let _ ← cursorLength cursor
  pure (authorityBytes request.authority ++ (request.documentId.bytes.toList ++
    (toBe 1 mode ++ cursorBytes cursor)))

/-- Read the start of an enumeration request. -/
def readEnumerateStart : Reader UpdateCodecError EnumerateStart := do
  let mode ← takeBe .truncated 1
  let cursorLength ← takeBe .truncated 2
  if mode = 0 then
    if cursorLength = 0 then pure .origin else throw .invalidCursor
  else if mode = 1 then
    let cursor ← take .truncated cursorLength
    pure (.continuation cursor)
  else if mode = 2 then
    let cursor ← take .truncated cursorLength
    pure (.afterTail cursor)
  else throw .invalidDiscriminant

/-- Decode a metadata enumeration request. -/
def decodeEnumerateRequest : List UInt8 → Except UpdateCodecError EnumerateRequest :=
  decodeExactly do
    let authority ← readAuthority
    let documentId ← takeBytes .truncated identifierLength
    let start ← readEnumerateStart
    pure ⟨authority, ⟨documentId⟩, start⟩

/-- Encode one complete bounded enumeration page. -/
def encodeEnumerateResponse (response : EnumerateResponse) : Except UpdateCodecError (List UInt8) :=
  if (response.hasMore = true ∧ response.updates = []) ∨
      ¬(response.nextCursor.isSome = true ↔ response.updates ≠ []) then
    .error .invalidCursor
  else if response.updates.length ≥ 2 ^ 16 then .error .integerOutOfRange
  else match cursorLength response.nextCursor with
    | .error e => .error e
    | .ok _ => encodePage response.hasMore response.nextCursor response.updates

/-- Read the fields of an enumeration page. -/
def readEnumerateResponse : Reader UpdateCodecError EnumerateResponse := do
  let hasMore ← readFlag
  let nextCursor ← readCursor enumerationContinuationLength
  let count ← takeBe .truncated 2
  check (¬((hasMore = true ∧ count = 0) ∨ ¬(nextCursor.isSome = true ↔ count ≠ 0))) .invalidCursor
  let updates ← many readMetadata count
  pure ⟨hasMore, nextCursor, updates⟩

/-- Decode one complete bounded enumeration page. -/
def decodeEnumerateResponse (payload : List UInt8) : Except UpdateCodecError EnumerateResponse :=
  if payload.length > maxApplicationPayloadLength then .error .recordTooLong
  else decodeExactly readEnumerateResponse payload

/-! ## Loro versions -/

/-- The bytes of one entry of a version. -/
def entryBytes (entry : LoroOplogVersionEntry) : List UInt8 :=
  toBe 8 entry.peerId ++ toBe 4 entry.endCounter

/-- Encode the canonical durable Loro oplog-version representation. -/
def encodeLoroOplogVersion (version : LoroOplogVersion) : List UInt8 :=
  oplogVersionMagic ++ (toBe 2 oplogVersionFormatVersion ++
    (toBe 2 (min version.entries.length (2 ^ 16 - 1)) ++ version.entries.flatMap entryBytes))

/-- Read one entry of a version. -/
def readEntry : Reader UpdateCodecError LoroOplogVersionEntry := do
  let peerId ← readU64
  let endCounter ← takeBe .truncated 4
  lift ((LoroOplogVersionEntry.new peerId endCounter).mapError fun _ ↦ .invalidLoroMetadata)

/-- The loop over the entries, each of which is a chunk of `oplogVersionEntryLength` bytes. -/
def decodeEntries (count : ℕ) (encoded : List UInt8) :
    Except UpdateCodecError (List LoroOplogVersionEntry) :=
  match many readEntry count encoded with
  | .error e => .error e
  | .ok (entries, _) => .ok entries

/-- Decode and validate one canonical durable Loro oplog version. -/
def decodeLoroOplogVersion (encoded : List UInt8) : Except UpdateCodecError LoroOplogVersion :=
  if encoded.length < oplogVersionHeaderLength ∨
      encoded.take oplogVersionMagic.length ≠ oplogVersionMagic then .error .invalidLoroMetadata
  else match Bytes.slice? 2 encoded 8, Bytes.slice? 2 encoded 10 with
    | some formatVersion, some entryCount =>
      match (checkedMul 64 entryCount.toNat oplogVersionEntryLength).bind
        (checkedAdd 64 oplogVersionHeaderLength) with
      | none => .error .invalidLoroMetadata
      | some expectedLength =>
        if formatVersion.toNat ≠ oplogVersionFormatVersion ∨ entryCount.toNat > maxLoroPeers ∨
            encoded.length ≠ expectedLength then .error .invalidLoroMetadata
        else match decodeEntries entryCount.toNat (encoded.drop oplogVersionHeaderLength) with
          | .error e => .error e
          | .ok entries => (LoroOplogVersion.new entries).mapError fun _ ↦ .invalidLoroMetadata
    | _, _ => .error .invalidLoroMetadata

/-! ## Vector backfill -/

/-- The fixed response bytes before vector-selected metadata entries. -/
def vectorBackfillResponseBaseLength (cursor : Option (List UInt8)) :
    Except UpdateCodecError ℕ := do
  let cursorLength ← fixedCursorLength vectorCursorLength cursor
  responseBaseLength cursorLength

/-- The bytes of a vector-backfill request. -/
def vectorBackfillRequestBytes (request : VectorBackfillRequest) (mode : ℕ)
    (cursor : Option (List UInt8)) : List UInt8 :=
  toBe 2 vectorBackfillPayloadVersion ++ (authorityBytes request.authority ++
    (request.documentId.bytes.toList ++ (toBe 1 mode ++ (cursorBytes cursor ++
      (toBe 2 (encodeLoroOplogVersion request.oplogVersion).length ++
        encodeLoroOplogVersion request.oplogVersion)))))

/-- Encode one bounded, versioned vector-backfill request. -/
def encodeVectorBackfillRequest (request : VectorBackfillRequest) :
    Except UpdateCodecError (List UInt8) := do
  let (mode, cursor) : ℕ × Option (List UInt8) := match request.start with
    | .origin => (0, none)
    | .continuation cursor => (1, some cursor)
  let _ ← fixedCursorLength vectorCursorLength cursor
  if (encodeLoroOplogVersion request.oplogVersion).length ≥ 2 ^ 16 then .error .integerOutOfRange
  else if (vectorBackfillRequestBytes request mode cursor).length > maxApplicationPayloadLength then
    .error .recordTooLong
  else .ok (vectorBackfillRequestBytes request mode cursor)

/-- Read the start of a vector-backfill request. -/
def readVectorBackfillStart : Reader UpdateCodecError VectorBackfillStart := do
  let mode ← takeBe .truncated 1
  let cursorLength ← takeBe .truncated 2
  if mode = 0 ∧ cursorLength = 0 then pure .origin
  else if mode = 1 then
    let cursor ← take .truncated cursorLength
    pure (.continuation cursor)
  else throw .invalidCursor

/-- Read the fields of a vector-backfill request. -/
def readVectorBackfillRequest : Reader UpdateCodecError VectorBackfillRequest := do
  let payloadVersion ← takeBe .truncated 2
  check (payloadVersion = vectorBackfillPayloadVersion) .unsupportedLoroProfile
  let authority ← readAuthority
  let documentId ← takeBytes .truncated identifierLength
  let start ← readVectorBackfillStart
  let vectorLength ← takeBe .truncated 2
  check (¬vectorLength > oplogVersionHeaderLength + maxLoroPeers * oplogVersionEntryLength)
    .invalidLoroMetadata
  let vector ← take .truncated vectorLength
  let oplogVersion ← lift (decodeLoroOplogVersion vector)
  pure ⟨authority, ⟨documentId⟩, oplogVersion, start⟩

/-- Decode one complete vector-backfill request. -/
def decodeVectorBackfillRequest (payload : List UInt8) :
    Except UpdateCodecError VectorBackfillRequest :=
  if payload.length > maxApplicationPayloadLength then .error .recordTooLong
  else decodeExactly readVectorBackfillRequest payload

/-- Encode one complete bounded vector-backfill page. -/
def encodeVectorBackfillResponse (response : VectorBackfillResponse) :
    Except UpdateCodecError (List UInt8) :=
  if ¬(response.hasMore = response.nextCursor.isSome) then .error .invalidCursor
  else if response.updates.length ≥ 2 ^ 16 then .error .integerOutOfRange
  else match fixedCursorLength vectorCursorLength response.nextCursor with
    | .error e => .error e
    | .ok _ => encodePage response.hasMore response.nextCursor response.updates

/-- Read the fields of a vector-backfill page. -/
def readVectorBackfillResponse : Reader UpdateCodecError VectorBackfillResponse := do
  let hasMore ← readFlag
  let nextCursor ← readCursor vectorCursorLength
  check (hasMore = nextCursor.isSome) .invalidCursor
  let count ← takeBe .truncated 2
  let updates ← many readMetadata count
  pure ⟨hasMore, nextCursor, updates⟩

/-- Decode one complete bounded vector-backfill page. -/
def decodeVectorBackfillResponse (payload : List UInt8) :
    Except UpdateCodecError VectorBackfillResponse :=
  if payload.length > maxApplicationPayloadLength then .error .recordTooLong
  else decodeExactly readVectorBackfillResponse payload

/-! ## Fetch -/

/-- Encode one authorized fetch request under the full idempotency key. -/
def encodeFetchRequest (request : FetchRequest) : List UInt8 :=
  authorityBytes request.authority ++ (request.documentId.bytes.toList ++
    request.updateId.bytes.toList)

/-- Decode one authorized fetch request under the full idempotency key. -/
def decodeFetchRequest : List UInt8 → Except UpdateCodecError FetchRequest :=
  decodeExactly do
    let authority ← readAuthority
    let documentId ← takeBytes .truncated identifierLength
    let updateId ← takeBytes .truncated identifierLength
    pure ⟨authority, ⟨documentId⟩, ⟨updateId⟩⟩

/-- Encode the opaque encrypted payload without inspecting it. -/
def encodeFetchResponse (encryptedPayload : List UInt8) : Except UpdateCodecError (List UInt8) :=
  if encryptedPayload = [] then .error .emptyEncryptedPayload
  else if encryptedPayload.length > maxApplicationPayloadLength then .error .recordTooLong
  else .ok encryptedPayload

/-- Decode the opaque encrypted payload without inspecting it. -/
def decodeFetchResponse (payload : List UInt8) : Except UpdateCodecError (List UInt8) :=
  if payload = [] then .error .emptyEncryptedPayload else .ok payload

end Renee.Wire
