import Renee.Service.Handler
import Renee.Wire.MutationMessages
import Renee.Wire.SubscriptionMessages

/-!
# Dispatching requests

`handle_request` with all its arms: those that create documents, grant and revoke capabilities and
accept updates, and those of `Renee.Service.Handler`.  A request is decoded, the store is asked, and
its outcome is put into a response under the correlation identifier of the request.

What a request meets that is not its own is its `Surroundings`: the clock and the random source of a
read, and what has become of the store when a revoke has waited for the emissions of its document.

* `handleRequest_responds`: whatever its type and its payload, a request is answered by one of
  `responseTypes`, none of which is that of an event (`not_event_of_responseType`).
-/

set_option autoImplicit false

namespace Renee.Service

open ByteString Wire

/-! ## Replies -/

/-- The body of a stable capability error. -/
def capabilityErrorResponse (request : Envelope) (code : CapabilityErrorCode) :
    Except HandlerError (List UInt8) :=
  response request capabilityError (encodeCapabilityError code)

/-- The body for what the store answers to a creation. -/
def createReply (request : Envelope) :
    Except StoreError StoreCreateOutcome → Except HandlerError (List UInt8)
  | .ok .inserted =>
    response request createDocumentResponse (encodeCreateDocumentResponse .inserted)
  | .ok .alreadyPresent =>
    response request createDocumentResponse (encodeCreateDocumentResponse .alreadyPresent)
  | .ok .identifierConflict => capabilityErrorResponse request .identifierConflict
  | .ok .authorizationDenied => capabilityErrorResponse request .authorizationDenied
  | .ok .requestConflict => capabilityErrorResponse request .requestConflict
  | .ok .limitExceeded => capabilityErrorResponse request .limitExceeded
  | .error error => .error (.store error)

def controlResponse (request : Envelope) (successMessageType : U16) :
    StoreControlOutcome → Except HandlerError (List UInt8)
  | .inserted => response request successMessageType (encodeControlMutationResponse .inserted)
  | .alreadyPresent =>
    response request successMessageType (encodeControlMutationResponse .alreadyPresent)
  | .authorizationDenied => capabilityErrorResponse request .authorizationDenied
  | .identifierConflict => capabilityErrorResponse request .identifierConflict
  | .requestConflict => capabilityErrorResponse request .requestConflict
  | .counterExhausted => capabilityErrorResponse request .counterExhausted
  | .limitExceeded => capabilityErrorResponse request .limitExceeded

/-- The body for what the store answers to a grant or a revoke. -/
def controlReply (request : Envelope) (successMessageType : U16) :
    Except StoreError StoreControlOutcome → Except HandlerError (List UInt8)
  | .ok outcome => controlResponse request successMessageType outcome
  | .error error => .error (.store error)

/-- The body for what the store answers to an update. -/
def acceptReply (request : Envelope) :
    Except StoreError StoreAcceptOutcome → Except HandlerError (List UInt8)
  | .ok .inserted => response request acceptUpdateResponse (encodeAcceptResponse .inserted)
  | .ok .alreadyPresent =>
    response request acceptUpdateResponse (encodeAcceptResponse .alreadyPresent)
  | .ok .identifierConflict => errorResponse request .identifierConflict
  | .ok .counterExhausted => errorResponse request .counterExhausted
  | .ok .limitExceeded => errorResponse request .limitExceeded
  | .ok .authorizationDenied => errorResponse request .authorizationDenied
  | .error error => .error (.store error)

/-! ## The arms -/

/-- What a request meets that is not its own. -/
structure Surroundings where
  enumerationMoment : Moment enumerationContinuationLength
  vectorMoment : Moment vectorContinuationLength
  /-- What has become of the store when the emissions of a document are excluded; there is none if
  too many wait for that already. -/
  excluded : DurableUpdateStore → Option DurableUpdateStore

def createCommand (create : CreateDocumentRequest) : CreateCommand where
  createAuthorityId := create.createAuthority.createAuthorityId
  createAuthenticator := create.createAuthority.authenticator
  requestId := create.requestId
  documentId := create.documentId
  rootCapabilityId := create.root.capabilityId
  rootAuthenticator := create.root.authenticator

def grantCommand (grant : GrantCapabilityRequest) : GrantCommand where
  documentId := grant.documentId
  issuerCapabilityId := grant.issuer.capabilityId
  issuerAuthenticator := grant.issuer.authenticator
  requestId := grant.requestId
  descendantCapabilityId := grant.descendant.capabilityId
  descendantAuthenticator := grant.descendant.authenticator
  operations := grant.operations

def revokeCommand (revoke : RevokeCapabilityRequest) : RevokeCommand where
  documentId := revoke.documentId
  issuerCapabilityId := revoke.issuer.capabilityId
  issuerAuthenticator := revoke.issuer.authenticator
  requestId := revoke.requestId
  targetCapabilityId := revoke.targetCapabilityId

variable (sha256 : List UInt8 → Bytes verifierLength)

/-- The `CREATE_DOCUMENT` arm. -/
def handleCreateDocument (s : DurableUpdateStore) (request : Envelope) :
    Except HandlerError (List UInt8) × DurableUpdateStore :=
  match decodeCreateDocumentRequest request.payload with
  | .error _ => (capabilityErrorResponse request .malformed, s)
  | .ok create =>
    let (outcome, s) := s.createDocument sha256 (createCommand create)
    (createReply request outcome, s)

/-- The `GRANT_CAPABILITY` arm. -/
def handleGrantCapability (s : DurableUpdateStore) (request : Envelope) :
    Except HandlerError (List UInt8) × DurableUpdateStore :=
  match decodeGrantCapabilityRequest request.payload with
  | .error _ => (capabilityErrorResponse request .malformed, s)
  | .ok grant =>
    let (outcome, s) := s.grantCapability sha256 (grantCommand grant)
    (controlReply request grantCapabilityResponse outcome, s)

/-- The `REVOKE_CAPABILITY` arm.  The store is unlocked between the preflight and the mutation. -/
def handleRevokeCapability (s : DurableUpdateStore) (request : Envelope)
    (excluded : DurableUpdateStore → Option DurableUpdateStore) :
    Except HandlerError (List UInt8) × DurableUpdateStore :=
  match decodeRevokeCapabilityRequest request.payload with
  | .error _ => (capabilityErrorResponse request .malformed, s)
  | .ok revoke =>
    match s.preflightRevokeCapability sha256 (revokeCommand revoke) with
    | .resolved outcome => (controlResponse request revokeCapabilityResponse outcome, s)
    | .requiresMutation =>
      match excluded s with
      | none => (.error (.other "document control emission exclusion is saturated"), s)
      | some s =>
        let (outcome, s) := s.revokeCapability sha256 (revokeCommand revoke)
        (controlReply request revokeCapabilityResponse outcome, s)

/-- The `ACCEPT_UPDATE` arm. -/
def handleAcceptUpdate (s : DurableUpdateStore) (request : Envelope) :
    Except HandlerError (List UInt8) × DurableUpdateStore :=
  match decodeAuthorizedUpdateRequest request.payload with
  | .error _ => (errorResponse request .malformed, s)
  | .ok authorized =>
    match hdecode : decodeUpdateRecord authorized.encodedRecord with
    | .error _ => (errorResponse request .malformed, s)
    | .ok update =>
      let (outcome, s) := s.accept sha256 ⟨authorized.authority.capabilityId,
        authorized.authority.authenticator, update, authorized.encodedRecord, hdecode⟩
      (acceptReply request outcome, s)

def handleRequest (s : DurableUpdateStore) (channel : BrokerChannel) (request : Envelope)
    (surroundings : Surroundings) : Except HandlerError (List UInt8) × DurableUpdateStore :=
  if request.version ≠ version then (errorResponse request .malformed, s)
  else if request.messageType = Wire.createDocument then handleCreateDocument sha256 s request
  else if request.messageType = Wire.grantCapability then handleGrantCapability sha256 s request
  else if request.messageType = Wire.revokeCapability then
    handleRevokeCapability sha256 s request surroundings.excluded
  else if request.messageType = acceptUpdate then handleAcceptUpdate sha256 s request
  else if request.messageType = enumerateUpdates then
    handleEnumerateUpdates sha256 s channel request surroundings.enumerationMoment
  else if request.messageType = vectorBackfill then
    handleVectorBackfill sha256 s channel request surroundings.vectorMoment
  else if request.messageType = fetchUpdate then (handleFetchUpdate sha256 s request, s)
  else (errorResponse request .malformed, s)

/-! ## What a response is -/

/-- The message types of the responses of `handle_request`. -/
def responseTypes : List U16 :=
  [createDocumentResponse, capabilityError, grantCapabilityResponse, revokeCapabilityResponse,
    acceptUpdateResponse, enumerateUpdatesResponse, vectorBackfillResponse, fetchUpdateResponse,
    updateError]

/-- A reply that is a body is a response of one of these types. -/
def Responds (request : Envelope) (reply : Except HandlerError (List UInt8)) : Prop :=
  ∀ body, reply = .ok body → ∃ messageType ∈ responseTypes, ∃ payload,
    response request messageType payload = .ok body

variable {sha256} {request : Envelope}

theorem responds_response {messageType : U16} (h : messageType ∈ responseTypes)
    (payload : List UInt8) : Responds request (response request messageType payload) :=
  fun _ hbody ↦ ⟨messageType, h, payload, hbody⟩

theorem responds_error (error : HandlerError) : Responds request (.error error) :=
  fun _ hbody ↦ absurd hbody (by simp)

theorem responds_errorResponse (code : UpdateErrorCode) :
    Responds request (errorResponse request code) :=
  responds_response (by decide) _

theorem responds_capabilityErrorResponse (code : CapabilityErrorCode) :
    Responds request (capabilityErrorResponse request code) :=
  responds_response (by decide) _

theorem responds_encodedResponse {messageType : U16} (h : messageType ∈ responseTypes)
    (payload : Except UpdateCodecError (List UInt8)) :
    Responds request (encodedResponse request messageType payload) := by
  cases payload with
  | error e => exact responds_error _
  | ok payload => exact responds_response h payload

theorem responds_controlResponse {messageType : U16} (h : messageType ∈ responseTypes)
    (outcome : StoreControlOutcome) :
      Responds request (controlResponse request messageType outcome) := by
  cases outcome with
  | inserted | alreadyPresent => exact responds_response h _
  | _ => exact responds_capabilityErrorResponse _

theorem responds_controlReply {messageType : U16} (h : messageType ∈ responseTypes)
    (result : Except StoreError StoreControlOutcome) :
    Responds request (controlReply request messageType result) := by
  cases result with
  | error error => exact responds_error _
  | ok outcome => exact responds_controlResponse h outcome

theorem responds_createReply (result : Except StoreError StoreCreateOutcome) :
    Responds request (createReply request result) := by
  cases result with
  | error error => exact responds_error _
  | ok outcome =>
    cases outcome with
    | inserted | alreadyPresent => exact responds_response (by decide) _
    | _ => exact responds_capabilityErrorResponse _

theorem responds_acceptReply (result : Except StoreError StoreAcceptOutcome) :
    Responds request (acceptReply request result) := by
  cases result with
  | error error => exact responds_error _
  | ok outcome =>
    cases outcome with
    | inserted | alreadyPresent => exact responds_response (by decide) _
    | _ => exact responds_errorResponse _

theorem responds_enumerateReply (result : Except StoreError StoreEnumerateOutcome) :
    Responds request (enumerateReply request result) := by
  cases result with
  | error error => exact responds_error _
  | ok outcome =>
    cases outcome with
    | authorized authorized => exact responds_encodedResponse (by decide) _
    | _ => exact responds_errorResponse _

theorem responds_vectorBackfillReply (result : Except StoreError StoreVectorBackfillOutcome) :
    Responds request (vectorBackfillReply request result) := by
  cases result with
  | error error => exact responds_error _
  | ok outcome =>
    cases outcome with
    | authorized authorized => exact responds_encodedResponse (by decide) _
    | _ => exact responds_errorResponse _

theorem responds_fetchReply (result : Except StoreError (StoreReadOutcome (Option (List UInt8)))) :
    Responds request (fetchReply request result) := by
  cases result with
  | error error => exact responds_error _
  | ok outcome =>
    match outcome with
    | .authorized (some payload) => exact responds_encodedResponse (by decide) _
    | .authorized none => exact responds_errorResponse _
    | .authorizationDenied => exact responds_errorResponse _

variable (sha256) (s : DurableUpdateStore)

theorem responds_handleRevokeCapability
    (excluded : DurableUpdateStore → Option DurableUpdateStore) :
    Responds request (handleRevokeCapability sha256 s request excluded).1 := by
  rw [handleRevokeCapability]
  split
  · exact responds_capabilityErrorResponse .malformed
  · split
    · exact responds_controlResponse (by decide) _
    · split
      · exact responds_error _
      · exact responds_controlReply (by decide) _

theorem responds_handleAcceptUpdate : Responds request (handleAcceptUpdate sha256 s request).1 := by
  rw [handleAcceptUpdate]
  split
  · exact responds_errorResponse .malformed
  · split
    · exact responds_errorResponse .malformed
    · exact responds_acceptReply _

theorem responds_handleEnumerateUpdates (channel : BrokerChannel)
    (m : Moment enumerationContinuationLength) :
    Responds request (handleEnumerateUpdates sha256 s channel request m).1 := by
  rw [handleEnumerateUpdates]
  split
  · exact responds_errorResponse .malformed
  · split
    · exact responds_error _
    · exact responds_enumerateReply _

theorem responds_handleVectorBackfill (channel : BrokerChannel)
    (m : Moment vectorContinuationLength) :
    Responds request (handleVectorBackfill sha256 s channel request m).1 := by
  rw [handleVectorBackfill]
  split
  · exact responds_errorResponse .invalidLoroMetadata
  · exact responds_errorResponse .malformed
  · split
    · exact responds_error _
    · exact responds_vectorBackfillReply _

/-- **Whatever is requested is answered by a response**, or ends the connection. -/
theorem handleRequest_responds (channel : BrokerChannel) (request : Envelope)
    (surroundings : Surroundings) :
    Responds request (handleRequest sha256 s channel request surroundings).1 := by
  rw [handleRequest]
  split_ifs
  · exact responds_errorResponse .malformed
  · rw [handleCreateDocument]
    split
    · exact responds_capabilityErrorResponse .malformed
    · exact responds_createReply _
  · rw [handleGrantCapability]
    split
    · exact responds_capabilityErrorResponse .malformed
    · exact responds_controlReply (by decide) _
  · exact responds_handleRevokeCapability sha256 s _
  · exact responds_handleAcceptUpdate sha256 s
  · exact responds_handleEnumerateUpdates sha256 s channel _
  · exact responds_handleVectorBackfill sha256 s channel _
  · rw [handleFetchUpdate]
    split
    · exact responds_errorResponse .malformed
    · exact responds_fetchReply _
  · exact responds_errorResponse .malformed

/-- **No response has the type of an event**, nor that of an acknowledgement. -/
theorem not_event_of_responseType :
    ∀ messageType ∈ responseTypes,
      isUpdateSubscriptionEvent messageType = false ∧ messageType ≠ subscribeUpdatesAck := by
  have h : responseTypes.all fun messageType ↦
      !isUpdateSubscriptionEvent messageType && messageType != subscribeUpdatesAck := by decide
  intro messageType hmem
  simpa using List.all_eq_true.mp h messageType hmem

end Renee.Service
