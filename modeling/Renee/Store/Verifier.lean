import Renee.Store.Schema

/-!
# Verifiers

A capability secret is never stored.  What is stored are two digests of it, one under a domain for
live requests and one under a domain for the retrieval of receipts, both bound to the document and
the capability.  A create authority has a pair of its own, bound to the authority.

The hash is a parameter, `sha256`: nothing about it is assumed here, and where a result needs two
particular inputs to have different digests it says so about those inputs.
-/

set_option autoImplicit false

namespace Renee

open ByteString

/-- The bytes of a domain: its name and a zero byte. -/
def domainBytes (name : String) : List UInt8 := name.toUTF8.data.toList ++ [0]

def liveDomain : List UInt8 := domainBytes "renee/capability/live-verifier/v1"
def receiptDomain : List UInt8 := domainBytes "renee/capability/receipt-verifier/v1"
def createLiveDomain : List UInt8 := domainBytes "renee/create-authority/live-verifier/v1"
def createReceiptDomain : List UInt8 := domainBytes "renee/create-authority/receipt-verifier/v1"

/-- Stored live and receipt verifiers derived from one random authenticator. -/
@[ext] structure VerifierPair where
  live : Bytes verifierLength
  receipt : Bytes verifierLength
deriving DecidableEq

/-- What is hashed for a capability. -/
def domainInput (domain : List UInt8) (documentId : DocumentId) (capabilityId : CapabilityId)
    (authenticator : Authenticator) : List UInt8 :=
  domain ++ (documentId.bytes.toList ++ (capabilityId.bytes.toList ++ authenticator.bytes.toList))

/-- What is hashed for a create authority. -/
def createDomainInput (domain : List UInt8) (createAuthorityId : CreateAuthorityId)
    (authenticator : Authenticator) : List UInt8 :=
  domain ++ (createAuthorityId.bytes.toList ++ authenticator.bytes.toList)

/-- Under one domain, the input determines all of its parts. -/
theorem domainInput_injective {domain : List UInt8} {d d' : DocumentId} {c c' : CapabilityId}
    {a a' : Authenticator} (h : domainInput domain d c a = domainInput domain d' c' a') :
    d = d' ∧ c = c' ∧ a = a' := by
  have h₁ := List.append_cancel_left h
  obtain ⟨hd, h₂⟩ := List.append_inj h₁ (by rw [d.bytes.length_eq, d'.bytes.length_eq])
  obtain ⟨hc, ha⟩ := List.append_inj h₂ (by rw [c.bytes.length_eq, c'.bytes.length_eq])
  exact ⟨Identifier.ext (Bytes.ext hd), Identifier.ext (Bytes.ext hc),
    Authenticator.ext (Bytes.ext ha)⟩

theorem createDomainInput_injective {domain : List UInt8} {i i' : CreateAuthorityId}
    {a a' : Authenticator} (h : createDomainInput domain i a = createDomainInput domain i' a') :
    i = i' ∧ a = a' := by
  have h₁ := List.append_cancel_left h
  obtain ⟨hi, ha⟩ := List.append_inj h₁ (by rw [i.bytes.length_eq, i'.bytes.length_eq])
  exact ⟨Identifier.ext (Bytes.ext hi), Authenticator.ext (Bytes.ext ha)⟩

section Hash

variable (sha256 : List UInt8 → Bytes verifierLength)

def deriveDomain (domain : List UInt8) (documentId : DocumentId) (capabilityId : CapabilityId)
    (authenticator : Authenticator) : Bytes verifierLength :=
  sha256 (domainInput domain documentId capabilityId authenticator)

def deriveCreateDomain (domain : List UInt8) (createAuthorityId : CreateAuthorityId)
    (authenticator : Authenticator) : Bytes verifierLength :=
  sha256 (createDomainInput domain createAuthorityId authenticator)

/-- The pair stored for a capability. -/
def derive (documentId : DocumentId) (capabilityId : CapabilityId)
    (authenticator : Authenticator) : VerifierPair where
  live := deriveDomain sha256 liveDomain documentId capabilityId authenticator
  receipt := deriveDomain sha256 receiptDomain documentId capabilityId authenticator

/-- The pair a create authority is provisioned with. -/
def deriveCreate (createAuthorityId : CreateAuthorityId) (authenticator : Authenticator) :
    VerifierPair where
  live := deriveCreateDomain sha256 createLiveDomain createAuthorityId authenticator
  receipt := deriveCreateDomain sha256 createReceiptDomain createAuthorityId authenticator

def verifyLive (expected : Bytes verifierLength) (documentId : DocumentId)
    (capabilityId : CapabilityId) (authenticator : Authenticator) : Bool :=
  expected = deriveDomain sha256 liveDomain documentId capabilityId authenticator

def verifyReceipt (expected : Bytes verifierLength) (documentId : DocumentId)
    (capabilityId : CapabilityId) (authenticator : Authenticator) : Bool :=
  expected = deriveDomain sha256 receiptDomain documentId capabilityId authenticator

def verifyCreateLive (expected : Bytes verifierLength) (createAuthorityId : CreateAuthorityId)
    (authenticator : Authenticator) : Bool :=
  expected = deriveCreateDomain sha256 createLiveDomain createAuthorityId authenticator

def verifyCreateReceipt (expected : Bytes verifierLength) (createAuthorityId : CreateAuthorityId)
    (authenticator : Authenticator) : Bool :=
  expected = deriveCreateDomain sha256 createReceiptDomain createAuthorityId authenticator

variable {sha256} {d : DocumentId} {c : CapabilityId} {i : CreateAuthorityId} {a : Authenticator}

@[simp] theorem verifyLive_derive : verifyLive sha256 (derive sha256 d c a).live d c a = true :=
  decide_eq_true rfl

@[simp] theorem verifyReceipt_derive :
    verifyReceipt sha256 (derive sha256 d c a).receipt d c a = true :=
  decide_eq_true rfl

@[simp] theorem verifyCreateLive_derive :
    verifyCreateLive sha256 (deriveCreate sha256 i a).live i a = true :=
  decide_eq_true rfl

@[simp] theorem verifyCreateReceipt_derive :
    verifyCreateReceipt sha256 (deriveCreate sha256 i a).receipt i a = true :=
  decide_eq_true rfl

end Hash

end Renee
