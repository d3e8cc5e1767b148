import Renee.Wire.UpdateMessages

/-!
# Messages that change the store

The payloads by which documents are created, capabilities are granted and revoked, and updates are
submitted, with the responses and the stable errors of these operations, as the service reads and
writes them.
-/

set_option autoImplicit false

namespace Renee.Wire

open ByteString ByteString.Reader

/-! ## Message types -/

/-- Creates one document and its unique full-authority root capability. -/
def createDocument : U16 := 20

/-- Successful idempotent document creation response. -/
def createDocumentResponse : U16 := 21

/-- Stable capability-operation rejection. -/
def capabilityError : U16 := 22

/-- Grants one attenuated descendant capability. -/
def grantCapability : U16 := 23

/-- Successful idempotent grant response. -/
def grantCapabilityResponse : U16 := 24

/-- Revokes one capability subtree. -/
def revokeCapability : U16 := 25

/-- Successful idempotent revoke response. -/
def revokeCapabilityResponse : U16 := 26

/-- Accept one exact encoded immutable-update record. -/
def acceptUpdate : U16 := 10

/-- Successful idempotent accept response. -/
def acceptUpdateResponse : U16 := 11

/-! ## Values -/

/-- Deployment-scoped authority that permits document creation only. -/
@[ext] structure CreateAuthority where
  createAuthorityId : CreateAuthorityId
  authenticator : Authenticator
deriving DecidableEq

/-- Minimal document/root creation request. -/
@[ext] structure CreateDocumentRequest where
  createAuthority : CreateAuthority
  requestId : RequestId
  documentId : DocumentId
  root : CapabilityAuthority
deriving DecidableEq

/-- Authorized immutable-update request. -/
@[ext] structure AuthorizedUpdateRequest where
  authority : CapabilityAuthority
  /-- Exact canonical Carbon update record. -/
  encodedRecord : List UInt8
deriving DecidableEq

/-- Attenuated descendant grant request. -/
@[ext] structure GrantCapabilityRequest where
  documentId : DocumentId
  issuer : CapabilityAuthority
  requestId : RequestId
  descendant : CapabilityAuthority
  operations : OperationSet
deriving DecidableEq

/-- Capability-subtree revoke request. -/
@[ext] structure RevokeCapabilityRequest where
  documentId : DocumentId
  issuer : CapabilityAuthority
  requestId : RequestId
  targetCapabilityId : CapabilityId
deriving DecidableEq

/-- Successful document creation outcome. -/
inductive CreateDocumentOutcome
  | inserted
  | alreadyPresent
deriving DecidableEq

/-- Successful idempotent control mutation outcome. -/
inductive ControlMutationOutcome
  | inserted
  | alreadyPresent
deriving DecidableEq

/-- Outcome of accepting one immutable update. -/
inductive AcceptUpdateOutcome
  | inserted
  | alreadyPresent
deriving DecidableEq

/-- Stable capability API error. -/
inductive CapabilityErrorCode
  | malformed
  | authorizationDenied
  | identifierConflict
  | requestConflict
  | counterExhausted
  | limitExceeded
deriving DecidableEq

/-- Capability payload codec failure. -/
inductive CapabilityCodecError
  | truncated
  | trailingBytes
  | invalidDiscriminant
  | payloadTooLong
deriving DecidableEq

/-! ## Requests -/

/-- `finish`: nothing is left to read. -/
def finishCapability : Reader CapabilityCodecError Unit := fun remaining ↦
  if remaining = [] then .ok ((), []) else .error .trailingBytes

def takeCapabilityAuthority : Reader CapabilityCodecError CapabilityAuthority := do
  let capabilityId ← takeBytes .truncated identifierLength
  let authenticator ← takeBytes .truncated secretLength
  pure ⟨⟨capabilityId⟩, ⟨authenticator⟩⟩

def takeCreateAuthority : Reader CapabilityCodecError CreateAuthority := do
  let createAuthorityId ← takeBytes .truncated identifierLength
  let authenticator ← takeBytes .truncated secretLength
  pure ⟨⟨createAuthorityId⟩, ⟨authenticator⟩⟩

def createAuthorityBytes (authority : CreateAuthority) : List UInt8 :=
  authority.createAuthorityId.bytes.toList ++ authority.authenticator.bytes.toList

/-- Encode one document/root creation request. -/
def encodeCreateDocumentRequest (request : CreateDocumentRequest) : List UInt8 :=
  createAuthorityBytes request.createAuthority ++ (request.requestId.bytes.toList ++
    (request.documentId.bytes.toList ++ authorityBytes request.root))

/-- Decode one complete document/root creation request. -/
def decodeCreateDocumentRequest (encoded : List UInt8) :
    Except CapabilityCodecError CreateDocumentRequest :=
  StateT.run' (s := encoded) do
    let createAuthority ← takeCreateAuthority
    let requestId ← takeBytes .truncated identifierLength
    let documentId ← takeBytes .truncated identifierLength
    let root ← takeCapabilityAuthority
    finishCapability
    pure ⟨createAuthority, ⟨requestId⟩, ⟨documentId⟩, root⟩

/-- Encode authority followed by one exact immutable-update record. -/
def encodeAuthorizedUpdateRequest (request : AuthorizedUpdateRequest) :
    Except CapabilityCodecError (List UInt8) :=
  if request.encodedRecord.length > maxUpdateRecordLength then .error .payloadTooLong
  else match checkedAdd 64 capabilityAuthorityLength request.encodedRecord.length with
    | none => .error .payloadTooLong
    | some length =>
      if length > maxApplicationPayloadLength then .error .payloadTooLong
      else .ok (authorityBytes request.authority ++ request.encodedRecord)

/-- Decode authority followed by one exact immutable-update record. -/
def decodeAuthorizedUpdateRequest (encoded : List UInt8) :
    Except CapabilityCodecError AuthorizedUpdateRequest :=
  match takeCapabilityAuthority encoded with
  | .error e => .error e
  | .ok (authority, remaining) =>
    if remaining = [] then .error .truncated
    else if remaining.length > maxUpdateRecordLength then .error .payloadTooLong
    else .ok ⟨authority, remaining⟩

/-- Encode one attenuated descendant grant request. -/
def encodeGrantCapabilityRequest (request : GrantCapabilityRequest) : List UInt8 :=
  request.documentId.bytes.toList ++ (authorityBytes request.issuer ++
    (request.requestId.bytes.toList ++ (authorityBytes request.descendant ++
      toBe 2 request.operations.bits.toNat)))

/-- Decode one attenuated descendant grant request. -/
def decodeGrantCapabilityRequest (encoded : List UInt8) :
    Except CapabilityCodecError GrantCapabilityRequest :=
  StateT.run' (s := encoded) do
    let documentId ← takeBytes .truncated identifierLength
    let issuer ← takeCapabilityAuthority
    let requestId ← takeBytes .truncated identifierLength
    let descendant ← takeCapabilityAuthority
    let bits ← takeBe .truncated 2
    match (OperationSet.fromBits (BitVec.ofNat 16 bits)).filter (!·.isEmpty) with
    | none => throw .invalidDiscriminant
    | some operations =>
      finishCapability
      pure ⟨⟨documentId⟩, issuer, ⟨requestId⟩, descendant, operations⟩

/-- Encode one capability-subtree revoke request. -/
def encodeRevokeCapabilityRequest (request : RevokeCapabilityRequest) : List UInt8 :=
  request.documentId.bytes.toList ++ (authorityBytes request.issuer ++
    (request.requestId.bytes.toList ++ request.targetCapabilityId.bytes.toList))

/-- Decode one capability-subtree revoke request. -/
def decodeRevokeCapabilityRequest (encoded : List UInt8) :
    Except CapabilityCodecError RevokeCapabilityRequest :=
  StateT.run' (s := encoded) do
    let documentId ← takeBytes .truncated identifierLength
    let issuer ← takeCapabilityAuthority
    let requestId ← takeBytes .truncated identifierLength
    let targetCapabilityId ← takeBytes .truncated identifierLength
    finishCapability
    pure ⟨⟨documentId⟩, issuer, ⟨requestId⟩, ⟨targetCapabilityId⟩⟩

/-! ## Responses -/

/-- Encode a successful document creation response. -/
def encodeCreateDocumentResponse : CreateDocumentOutcome → List UInt8
  | .inserted => [0]
  | .alreadyPresent => [1]

/-- Encode one successful control mutation response. -/
def encodeControlMutationResponse : ControlMutationOutcome → List UInt8
  | .inserted => [0]
  | .alreadyPresent => [1]

/-- Encode a successful accept result. -/
def encodeAcceptResponse : AcceptUpdateOutcome → List UInt8
  | .inserted => [0]
  | .alreadyPresent => [1]

/-- Encode one stable capability error. -/
def encodeCapabilityError : CapabilityErrorCode → List UInt8
  | .malformed => [0]
  | .authorizationDenied => [1]
  | .identifierConflict => [2]
  | .requestConflict => [3]
  | .counterExhausted => [4]
  | .limitExceeded => [5]

end Renee.Wire
