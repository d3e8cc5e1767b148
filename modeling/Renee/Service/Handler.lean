import Renee.Store.Broker
import Renee.Wire.UpdateMessagesSpec

/-!
# Serving the requests that read updates

The arms of `handle_request` for enumeration, vector backfill and fetch.  Each decodes the payload
of a request, asks the store, and encodes what it answers into the body of a response under the
correlation identifier of the request; a connection whose request cannot be answered ends with a
`HandlerError`.

The limit on the metadata of a page is not a constant of the store: the handler measures the fixed
part of the response, with room for a continuation, and reserves the rest of the frame for the
entries (`enumerateMetadataByteLimit`, `vectorMetadataByteLimit`).
-/

set_option autoImplicit false

namespace Renee.Service

open ByteString Wire

/-- Why a connection ends instead of answering a request. -/
inductive HandlerError
  | frame (error : FrameError)
  | codec (error : UpdateCodecError)
  | store (error : StoreError)
  | other (message : String)

/-- The body of a response. -/
def response (request : Envelope) (messageType : U16) (payload : List UInt8) :
    Except HandlerError (List UInt8) :=
  (encodeBody ⟨request.correlationId, messageType, payload, version⟩).mapError .frame

/-- The body of a stable error. -/
def errorResponse (request : Envelope) (code : UpdateErrorCode) :
    Except HandlerError (List UInt8) :=
  response request updateError (encodeUpdateError code)

/-- The body of a response whose payload has its own encoder. -/
def encodedResponse (request : Envelope) (messageType : U16)
    (payload : Except UpdateCodecError (List UInt8)) : Except HandlerError (List UInt8) :=
  match payload with
  | .error e => .error (.codec e)
  | .ok payload => response request messageType payload

/-- What a response prefix of a measured length leaves for the entries of a page. -/
def metadataByteLimit (responseOverhead : Except UpdateCodecError ℕ) (message : String) :
    Except HandlerError ℕ :=
  match responseOverhead with
  | .error e => .error (.codec e)
  | .ok responseOverhead =>
    if responseOverhead ≤ maxApplicationPayloadLength then
      .ok (maxApplicationPayloadLength - responseOverhead)
    else .error (.other message)

/-! ## Enumeration -/

/-- The limit that every enumeration request is served with. -/
def enumerateMetadataByteLimit : Except HandlerError ℕ :=
  metadataByteLimit
    (enumerateResponseBaseLength (some (List.replicate enumerationContinuationLength 0)))
    "enumeration response overhead exceeds frame"

def storeEnumerateStart : EnumerateStart → StoreEnumerateStart
  | .origin => .origin
  | .continuation encoded => .continuation encoded
  | .afterTail encoded => .afterTail encoded

/-- The arguments of the store for a decoded request. -/
def enumerateArguments (channel : BrokerChannel) (enumerate : Wire.EnumerateRequest)
    (metadataByteLimit : ℕ) : EnumerateRequest where
  channel := channel
  documentId := enumerate.documentId
  capabilityId := enumerate.authority.capabilityId
  authenticator := enumerate.authority.authenticator
  start := storeEnumerateStart enumerate.start
  metadataByteLimit := metadataByteLimit

/-- The page of a response. -/
def enumerateResponseOf (authorized : AuthorizedStoredUpdatePage) : EnumerateResponse :=
  ⟨authorized.page.hasMore, authorized.nextCursor, authorized.page.updates⟩

/-- The body for what the store answers. -/
def enumerateReply (request : Envelope) :
    Except StoreError StoreEnumerateOutcome → Except HandlerError (List UInt8)
  | .ok (.authorized authorized) =>
    encodedResponse request enumerateUpdatesResponse
      (encodeEnumerateResponse (enumerateResponseOf authorized))
  | .ok .authorizationDenied => errorResponse request .authorizationDenied
  | .ok .retiredDocument => errorResponse request .retiredDocument
  | .ok .invalidContinuation => errorResponse request .invalidOrExpiredContinuation
  | .ok .backpressure => errorResponse request .backpressure
  | .error error => .error (.store error)

/-! ## Vector backfill -/

/-- The limit that every vector-backfill request is served with. -/
def vectorMetadataByteLimit : Except HandlerError ℕ :=
  metadataByteLimit (vectorBackfillResponseBaseLength (some (List.replicate 32 0)))
    "vector response overhead exceeds frame"

def storeVectorBackfillStart : VectorBackfillStart → StoreVectorBackfillStart
  | .origin => .origin
  | .continuation cursor => .continuation cursor

/-- The arguments of the store for a decoded request. -/
def vectorBackfillArguments (channel : BrokerChannel) (backfill : Wire.VectorBackfillRequest)
    (metadataByteLimit : ℕ) : VectorBackfillRequest where
  channel := channel
  documentId := backfill.documentId
  capabilityId := backfill.authority.capabilityId
  authenticator := backfill.authority.authenticator
  oplogVersion := backfill.oplogVersion
  start := storeVectorBackfillStart backfill.start
  metadataByteLimit := metadataByteLimit

/-- The page of a response. -/
def vectorBackfillResponseOf (authorized : AuthorizedVectorBackfillPage) : VectorBackfillResponse :=
  ⟨authorized.page.hasMore, authorized.nextCursor, authorized.page.updates⟩

/-- The body for what the store answers. -/
def vectorBackfillReply (request : Envelope) :
    Except StoreError StoreVectorBackfillOutcome → Except HandlerError (List UInt8)
  | .ok (.authorized authorized) =>
    encodedResponse request vectorBackfillResponse
      (encodeVectorBackfillResponse (vectorBackfillResponseOf authorized))
  | .ok .authorizationDenied => errorResponse request .authorizationDenied
  | .ok .retiredDocument => errorResponse request .retiredDocument
  | .ok .invalidContinuation => errorResponse request .invalidOrExpiredContinuation
  | .ok .backpressure => errorResponse request .backpressure
  | .error error => .error (.store error)

/-! ## Fetch -/

/-- The body for what the store answers. -/
def fetchReply (request : Envelope) :
    Except StoreError (StoreReadOutcome (Option (List UInt8))) → Except HandlerError (List UInt8)
  | .ok (.authorized (some payload)) =>
    encodedResponse request fetchUpdateResponse (encodeFetchResponse payload)
  | .ok (.authorized none) => errorResponse request .notFound
  | .ok .authorizationDenied => errorResponse request .authorizationDenied
  | .error error => .error (.store error)

/-! ## The arms -/

section Hash

variable (sha256 : List UInt8 → Bytes verifierLength)

/-- The `ENUMERATE_UPDATES` arm of `handle_request`. -/
def handleEnumerateUpdates (s : DurableUpdateStore) (channel : BrokerChannel) (request : Envelope)
    (m : Moment enumerationContinuationLength) :
    Except HandlerError (List UInt8) × DurableUpdateStore :=
  match decodeEnumerateRequest request.payload with
  | .error _ => (errorResponse request .malformed, s)
  | .ok enumerate =>
    match enumerateMetadataByteLimit with
    | .error e => (.error e, s)
    | .ok metadataByteLimit =>
      let (read, s) :=
        s.enumerateAuthorized sha256 (enumerateArguments channel enumerate metadataByteLimit) m
      (enumerateReply request read, s)

/-- The `VECTOR_BACKFILL` arm of `handle_request`. -/
def handleVectorBackfill (s : DurableUpdateStore) (channel : BrokerChannel) (request : Envelope)
    (m : Moment vectorContinuationLength) :
    Except HandlerError (List UInt8) × DurableUpdateStore :=
  match decodeVectorBackfillRequest request.payload with
  | .error .invalidLoroMetadata => (errorResponse request .invalidLoroMetadata, s)
  | .error _ => (errorResponse request .malformed, s)
  | .ok backfill =>
    match vectorMetadataByteLimit with
    | .error e => (.error e, s)
    | .ok metadataByteLimit =>
      let (selected, s) := s.vectorBackfillAuthorized sha256
        (vectorBackfillArguments channel backfill metadataByteLimit) m
      (vectorBackfillReply request selected, s)

/-- The `FETCH_UPDATE` arm of `handle_request`. -/
def handleFetchUpdate (s : DurableUpdateStore) (request : Envelope) :
    Except HandlerError (List UInt8) :=
  match decodeFetchRequest request.payload with
  | .error _ => errorResponse request .malformed
  | .ok fetch =>
    fetchReply request (fetchAuthorized sha256 s.tables fetch.documentId fetch.updateId
      fetch.authority.capabilityId fetch.authority.authenticator)

end Hash

/-! ## What the handler computes -/

theorem enumerateMetadataByteLimit_eq :
    enumerateMetadataByteLimit = .ok maxEnumerableMetadataLength := rfl

theorem vectorMetadataByteLimit_eq : vectorMetadataByteLimit = .ok maxEnumerableMetadataLength :=
    rfl

/-- **A payload that fits makes a body that fits**, and it comes back out of the frame. -/
theorem response_eq_ok (request : Envelope) (messageType : U16) {payload : List UInt8}
    (h : payload.length ≤ maxApplicationPayloadLength) :
    ∃ body, response request messageType payload = .ok body ∧ body.length ≤ maxBodyLength ∧
      decodeBody body = .ok ⟨request.correlationId, messageType, payload, version⟩ := by
  have hencode : encodeBody ⟨request.correlationId, messageType, payload, version⟩ = .ok _ :=
    encodeBody_eq_ok h
  exact ⟨_, by rw [response, hencode]; rfl, decodeBody_encodeBody hencode⟩

/-- A stable error always fits. -/
theorem errorResponse_eq_ok (request : Envelope) (code : UpdateErrorCode) :
    ∃ body, errorResponse request code = .ok body ∧ body.length ≤ maxBodyLength ∧
      decodeBody body = .ok ⟨request.correlationId, updateError, encodeUpdateError code, version⟩ :=
  response_eq_ok request updateError (by cases code <;> decide)

end Renee.Service
