import Renee.Library.OrderedMap
import Renee.Store.Control

/-!
# The capability oracle

`CapabilityModel`, the reference state machine for document capabilities that conformance tests
compare a server with.  It knows nothing of tables or transactions: documents, capabilities and
receipts are ordered maps, and its walks over parent links are loops of 64 iterations of their own.

* `CapabilityModel.authorizes` is its decision, `grant` and `revoke` are its two mutations, and
  `createDocument` starts a document.
* An iteration of `authorizes` looks at one capability, and success is noticed by the iteration
  *after* the root; `issuerHasDescendantCapacity` and `isDescendant` answer within the iteration
  that reaches their goal.
-/

set_option autoImplicit false

namespace Renee

open ByteString

/-! ## State -/

/-- Pure create-document outcome. -/
inductive CreateDocumentOutcome
  | inserted
  | alreadyPresent
  | identifierConflict
deriving DecidableEq

/-- Pure grant/revoke outcome. -/
inductive ControlOutcome
  | inserted
  | alreadyPresent
  | authorizationDenied
  | identifierConflict
  | requestConflict
  | counterExhausted
deriving DecidableEq

/-- A capability of the oracle. -/
@[ext] structure ModelCapability where
  operations : OperationSet
  parent : Option CapabilityId
  revoked : Bool
  verifiers : VerifierPair

/-- What a receipt of the oracle remembers. -/
inductive ReceiptInput
  | grant (descendantId : CapabilityId) (descendantVerifiers : VerifierPair)
      (operations : OperationSet)
  | revoke (targetId : CapabilityId)
deriving DecidableEq

/-- A document of the oracle. -/
structure CapabilityDocument where
  capabilities : OrderedMap CapabilityId ModelCapability
  receipts : OrderedMap (CapabilityId ×ₗ RequestId) ReceiptInput
  revision : ℕ
  rootId : CapabilityId

/-- Deterministic document-capability state machine independent of storage and transport. -/
structure CapabilityModel where
  documents : OrderedMap DocumentId CapabilityDocument

/-! ## Walks -/

/-- Whether the loop of `is_descendant` meets the ancestor within its iterations. -/
def isDescendantFrom (document : CapabilityDocument) (ancestorId : CapabilityId) :
    ℕ → Option CapabilityId → Bool
  | 0, _ => false
  | _ + 1, none => false
  | iterations + 1, some current =>
    if current = ancestorId then true
    else isDescendantFrom document ancestorId iterations
      ((document.capabilities.get? current).bind ModelCapability.parent)

def isDescendant (document : CapabilityDocument) (ancestorId descendantId : CapabilityId) : Bool :=
  isDescendantFrom document ancestorId 64 (some descendantId)

/-- The loop of `issuer_has_descendant_capacity`, at the given node. -/
def hasDescendantCapacityFrom (document : CapabilityDocument) (nodeCount : ℕ) :
    ℕ → CapabilityId → Bool
  | 0, _ => false
  | iterations + 1, current =>
    match document.capabilities.get? current with
    | none => false
    | some capability =>
      match capability.parent with
      | none => nodeCount < 64
      | some parent => hasDescendantCapacityFrom document (nodeCount + 1) iterations parent

def CapabilityDocument.issuerHasDescendantCapacity (document : CapabilityDocument)
    (issuerId : CapabilityId) : Bool :=
  hasDescendantCapacityFrom document 1 64 issuerId

/-- Whether the loop of `authorizes` runs off the root before its iterations do. -/
def authorizesFrom (document : CapabilityDocument) : ℕ → Option CapabilityId → Bool
  | 0, _ => false
  | _ + 1, none => true
  | iterations + 1, some current =>
    match document.capabilities.get? current with
    | none => false
    | some capability =>
      if capability.revoked then false
      else authorizesFrom document iterations capability.parent

/-! ## Transitions -/

section Hash

variable (sha256 : List UInt8 → Bytes verifierLength)

/-- One digest, as the oracle computes it. -/
def modelVerifier (domain : List UInt8) (documentId : DocumentId) (capabilityId : CapabilityId)
    (authenticator : Authenticator) : Bytes verifierLength :=
  sha256 (domain ++ (documentId.bytes.toList ++
    (capabilityId.bytes.toList ++ authenticator.bytes.toList)))

def modelVerifiers (documentId : DocumentId) (capabilityId : CapabilityId)
    (authenticator : Authenticator) : VerifierPair where
  live := modelVerifier sha256 (domainBytes "renee/capability/live-verifier/v1")
    documentId capabilityId authenticator
  receipt := modelVerifier sha256 (domainBytes "renee/capability/receipt-verifier/v1")
    documentId capabilityId authenticator

/-- The oracle and the store digest the same bytes. -/
theorem modelVerifiers_eq_derive : modelVerifiers sha256 = derive sha256 := rfl

/-- What the receipt of a grant remembers. -/
def GrantCommand.receiptInput (r : GrantCommand) : ReceiptInput :=
  .grant r.descendantCapabilityId
    (modelVerifiers sha256 r.documentId r.descendantCapabilityId r.descendantAuthenticator)
    r.operations

namespace CapabilityDocument

/-- The document after a grant. -/
def granted (document : CapabilityDocument) (r : GrantCommand) (nextRevision : ℕ) :
    CapabilityDocument :=
  { document with
    capabilities := document.capabilities.insert r.descendantCapabilityId
      ⟨r.operations, some r.issuerCapabilityId, false,
        modelVerifiers sha256 r.documentId r.descendantCapabilityId r.descendantAuthenticator⟩
    receipts := document.receipts.insert (toLex (r.issuerCapabilityId, r.requestId))
      (r.receiptInput sha256)
    revision := nextRevision }

/-- The document with every capability at or below the target revoked: the loop over its keys. -/
def revokeDescendants (document : CapabilityDocument) (targetId : CapabilityId) :
    CapabilityDocument :=
  document.capabilities.keys.foldl (fun document capabilityId ↦
    if isDescendant document targetId capabilityId then
      { document with
        capabilities := document.capabilities.modify capabilityId
          fun capability ↦ { capability with revoked := true } }
    else document) document

/-- The document after a revocation. -/
def revoked (document : CapabilityDocument) (r : RevokeCommand) (nextRevision : ℕ) :
    CapabilityDocument :=
  let document := document.revokeDescendants r.targetCapabilityId
  { document with
    receipts := document.receipts.insert (toLex (r.issuerCapabilityId, r.requestId))
      (.revoke r.targetCapabilityId)
    revision := nextRevision }

end CapabilityDocument

namespace CapabilityModel

/-- The oracle before anything has been created. -/
def empty : CapabilityModel := ⟨.empty⟩

/-- Create one document with a unique full-operation root capability. -/
def createDocument (m : CapabilityModel) (documentId : DocumentId) (rootId : CapabilityId)
    (authenticator : Authenticator) : CreateDocumentOutcome × CapabilityModel :=
  let verifiers := modelVerifiers sha256 documentId rootId authenticator
  match m.documents.get? documentId with
  | some document =>
    if document.rootId = rootId ∧
        (document.capabilities.get? rootId).any (fun root ↦ root.verifiers = verifiers) then
      (.alreadyPresent, m)
    else (.identifierConflict, m)
  | none =>
    (.inserted, ⟨m.documents.insert documentId
      { capabilities := OrderedMap.empty.insert rootId ⟨.full, none, false, verifiers⟩
        receipts := .empty
        revision := 1
        rootId }⟩)

/-- Whether current authority permits one operation. -/
def authorizes (m : CapabilityModel) (documentId : DocumentId) (capabilityId : CapabilityId)
    (authenticator : Authenticator) (operation : Operation) : Bool :=
  match m.documents.get? documentId with
  | none => false
  | some document =>
    match document.capabilities.get? capabilityId with
    | none => false
    | some presented =>
      if presented.verifiers.live ≠
            (modelVerifiers sha256 documentId capabilityId authenticator).live ∨
          ¬presented.operations.contains operation = true then false
      else authorizesFrom document 64 (some capabilityId)

def isActiveDescendant (m : CapabilityModel) (documentId : DocumentId)
    (issuerId targetId : CapabilityId) : Bool :=
  (m.documents.get? documentId).any fun document ↦
    (document.capabilities.get? targetId).any fun target ↦
      !target.revoked && isDescendant document issuerId targetId

/-- What an earlier receipt answers. -/
def receiptOutcome (m : CapabilityModel) (documentId : DocumentId) (issuerId : CapabilityId)
    (authenticator : Authenticator) (requestId : RequestId) (input : ReceiptInput) :
    Option ControlOutcome :=
  match m.documents.get? documentId with
  | none => none
  | some document =>
    match document.receipts.get? (toLex (issuerId, requestId)) with
    | none => none
    | some stored =>
      match document.capabilities.get? issuerId with
      | none => none
      | some issuer =>
        if issuer.verifiers.receipt ≠
            (modelVerifiers sha256 documentId issuerId authenticator).receipt then
          some .authorizationDenied
        else if stored = input then some .alreadyPresent
        else some .requestConflict

/-- Grant one nonempty attenuated descendant. -/
def grant (m : CapabilityModel) (r : GrantCommand) : ControlOutcome × CapabilityModel :=
  match m.receiptOutcome sha256 r.documentId r.issuerCapabilityId r.issuerAuthenticator
    r.requestId (r.receiptInput sha256) with
  | some outcome => (outcome, m)
  | none =>
    if !m.authorizes sha256 r.documentId r.issuerCapabilityId r.issuerAuthenticator .grant then
      (.authorizationDenied, m)
    else if !(m.documents.get? r.documentId).any
        (fun document ↦ document.issuerHasDescendantCapacity r.issuerCapabilityId) then
      (.authorizationDenied, m)
    else match m.documents.get? r.documentId with
    | none => (.authorizationDenied, m)
    | some document =>
      match document.capabilities.get? r.issuerCapabilityId with
      | none => (.authorizationDenied, m)
      | some issuer =>
        if !issuer.operations.allows r.operations then (.authorizationDenied, m)
        else match checkedAdd 64 document.revision 1 with
        | none => (.counterExhausted, m)
        | some nextRevision =>
          if (document.capabilities.get? r.descendantCapabilityId).isSome then
            (.identifierConflict, m)
          else
            (.inserted, ⟨m.documents.insert r.documentId
              (document.granted sha256 r nextRevision)⟩)

/-- Revoke an issuer capability or one transitive descendant subtree. -/
def revoke (m : CapabilityModel) (r : RevokeCommand) : ControlOutcome × CapabilityModel :=
  match m.receiptOutcome sha256 r.documentId r.issuerCapabilityId r.issuerAuthenticator
    r.requestId (.revoke r.targetCapabilityId) with
  | some outcome => (outcome, m)
  | none =>
    if !m.authorizes sha256 r.documentId r.issuerCapabilityId r.issuerAuthenticator .revoke ||
        !m.isActiveDescendant r.documentId r.issuerCapabilityId r.targetCapabilityId then
      (.authorizationDenied, m)
    else match m.documents.get? r.documentId with
    | none => (.authorizationDenied, m)
    | some document =>
      match checkedAdd 64 document.revision 1 with
      | none => (.counterExhausted, m)
      | some nextRevision =>
        (.inserted, ⟨m.documents.insert r.documentId (document.revoked r nextRevision)⟩)

end CapabilityModel

end Hash

end Renee
