import Renee.Wire.Frame
import Renee.Wire.UpdateMessages

/-!
# Messages of subscriptions

A subscription is requested, acknowledged and cancelled like anything else; its events come unasked,
each a notification of one update or the end of the subscription.  All name the subscription by an
identity that belongs to the connection.  Events and responses share one stream and are told apart
by their message types (`isUpdateSubscriptionEvent`), although the numbers of these are those of
requests too.

`isEvent`, `concerns` and `acknowledges` read what a body says about subscriptions.
-/

set_option autoImplicit false

namespace Renee.Wire

open ByteString ByteString.Reader

/-! ## Message types -/

/-- Opens one acknowledged document update subscription. -/
def subscribeUpdates : U16 := 17

/-- Confirms that the subscription delivery barrier is established. -/
def subscribeUpdatesAck : U16 := 18

/-- Asynchronous update-ID wakeup for one subscription. -/
def updateNotification : U16 := 19

/-- Terminal indication that a subscription can no longer be complete. -/
def updateSubscriptionOverflow : U16 := 20

/-- Cancels one connection-bound update subscription. -/
def cancelUpdateSubscription : U16 := 21

/-- Confirms cancellation without disclosing subscription topology. -/
def cancelUpdateSubscriptionResponse : U16 := 22

/-- Terminal indication that an acknowledged subscription was invalidated. -/
def updateSubscriptionInvalidated : U16 := 23

/-- Whether a message is an asynchronous subscription event. -/
def isUpdateSubscriptionEvent (messageType : U16) : Bool :=
  messageType = updateNotification ∨ messageType = updateSubscriptionOverflow ∨
    messageType = updateSubscriptionInvalidated

/-! ## Values -/

/-- The version of every subscription payload. -/
def subscriptionPayloadVersion : ℕ := 1

/-- Connection-scoped subscription identity. -/
@[ext] structure UpdateSubscriptionId where
  bytes : Bytes identifierLength
deriving DecidableEq

/-- Request of one document subscription. -/
@[ext] structure SubscribeUpdatesRequest where
  /-- Capability claiming read authority. -/
  authority : CapabilityAuthority
  /-- The one document whose accepted update IDs may wake the subscription. -/
  documentId : DocumentId
deriving DecidableEq

/-- One update-ID notification carrying no ordering or durable progress. -/
@[ext] structure UpdateNotification where
  subscriptionId : UpdateSubscriptionId
  updateId : UpdateId
deriving DecidableEq

/-! ## Payloads -/

def takeSubscriptionVersion : Reader UpdateCodecError Unit := do
  let payloadVersion ← takeBe .truncated 2
  check (payloadVersion = subscriptionPayloadVersion) .unsupportedSubscriptionVersion

/-- Encode one fixed-length, versioned subscription request. -/
def encodeSubscribeUpdatesRequest (request : SubscribeUpdatesRequest) : List UInt8 :=
  toBe 2 subscriptionPayloadVersion ++ (authorityBytes request.authority ++
    request.documentId.bytes.toList)

/-- Decode one complete versioned subscription request before allocating state. -/
def decodeSubscribeUpdatesRequest : List UInt8 → Except UpdateCodecError SubscribeUpdatesRequest :=
  decodeExactly do
    takeSubscriptionVersion
    let authority ← readAuthority
    let documentId ← takeBytes .truncated identifierLength
    pure ⟨authority, ⟨documentId⟩⟩

def encodeSubscriptionIdentity (subscriptionId : UpdateSubscriptionId) : List UInt8 :=
  toBe 2 subscriptionPayloadVersion ++ subscriptionId.bytes.toList

def decodeSubscriptionIdentity : List UInt8 → Except UpdateCodecError UpdateSubscriptionId :=
  decodeExactly do
    takeSubscriptionVersion
    let subscriptionId ← takeBytes .truncated identifierLength
    pure ⟨subscriptionId⟩

/-- Encode an acknowledged connection-scoped subscription identity. -/
def encodeSubscribeUpdatesAck : UpdateSubscriptionId → List UInt8 := encodeSubscriptionIdentity

/-- Encode one update-ID wakeup without a sequence or cursor. -/
def encodeUpdateNotification (notification : UpdateNotification) : List UInt8 :=
  toBe 2 subscriptionPayloadVersion ++ (notification.subscriptionId.bytes.toList ++
    notification.updateId.bytes.toList)

/-- Encode one terminal overflow indication. -/
def encodeUpdateSubscriptionOverflow : UpdateSubscriptionId → List UInt8 :=
    encodeSubscriptionIdentity

/-- Encode one generic terminal invalidation without disclosing its cause. -/
def encodeUpdateSubscriptionInvalidated : UpdateSubscriptionId → List UInt8 :=
  encodeSubscriptionIdentity

/-- Encode one cancellation request or response identity. -/
def encodeCancelUpdateSubscription : UpdateSubscriptionId → List UInt8 := encodeSubscriptionIdentity

/-- Decode one complete cancellation request or response identity. -/
def decodeCancelUpdateSubscription : List UInt8 → Except UpdateCodecError UpdateSubscriptionId :=
  decodeSubscriptionIdentity

/-! ## What a body says -/

/-- A subscription as its messages name it, by the correlation identifier of its request and by its
identity. -/
abbrev SubscriptionKey : Type := Bytes 16 × UpdateSubscriptionId

/-- The subscription that a message names: the identity follows the version of its payload. -/
def namedSubscription (envelope : Envelope) : Option SubscriptionKey :=
  (Bytes.slice? identifierLength envelope.payload 2).map fun bytes ↦
    (envelope.correlationId, ⟨bytes⟩)

/-- Whether a body is that of an event. -/
def isEvent (body : List UInt8) : Bool :=
  match decodeBody body with
  | .ok envelope => isUpdateSubscriptionEvent envelope.messageType
  | .error _ => false

/-- The subscription of an event. -/
def concerns (body : List UInt8) : Option SubscriptionKey :=
  match decodeBody body with
  | .ok envelope =>
    if isUpdateSubscriptionEvent envelope.messageType then namedSubscription envelope else none
  | .error _ => none

/-- The subscription that is acknowledged. -/
def acknowledges (body : List UInt8) : Option SubscriptionKey :=
  match decodeBody body with
  | .ok envelope =>
    if envelope.messageType = subscribeUpdatesAck then namedSubscription envelope else none
  | .error _ => none

/-- A body that is neither an event nor an acknowledgement. -/
def Plain (body : List UInt8) : Prop := isEvent body = false ∧ acknowledges body = none

variable {body : List UInt8} {envelope : Envelope}

theorem isEvent_of_decodeBody (h : decodeBody body = .ok envelope) :
    isEvent body = isUpdateSubscriptionEvent envelope.messageType := by
  rw [isEvent, h]

theorem concerns_of_event (h : decodeBody body = .ok envelope)
    (hevent : isUpdateSubscriptionEvent envelope.messageType = true) :
    concerns body = namedSubscription envelope := by
  rw [concerns, h]
  exact if_pos hevent

theorem acknowledges_of_ack (h : decodeBody body = .ok envelope)
    (hack : envelope.messageType = subscribeUpdatesAck) :
    acknowledges body = namedSubscription envelope := by
  rw [acknowledges, h]
  exact if_pos hack

theorem acknowledges_of_ne (h : decodeBody body = .ok envelope)
    (hack : envelope.messageType ≠ subscribeUpdatesAck) : acknowledges body = none := by
  rw [acknowledges, h]
  exact if_neg hack

theorem plain_of_decodeBody (h : decodeBody body = .ok envelope)
    (htype : isUpdateSubscriptionEvent envelope.messageType = false ∧
      envelope.messageType ≠ subscribeUpdatesAck) : Plain body :=
  ⟨(isEvent_of_decodeBody h).trans htype.1, acknowledges_of_ne h htype.2⟩

/-- Only events concern a subscription. -/
theorem concerns_of_not_event (h : isEvent body = false) : concerns body = none := by
  rw [isEvent] at h
  rw [concerns]
  split
  · rename_i envelope hdecode
    rw [hdecode] at h
    exact if_neg (by simp [h])
  · rfl

/-- No event is an acknowledgement. -/
theorem acknowledges_of_event (h : isEvent body = true) : acknowledges body = none := by
  rw [isEvent] at h
  split at h
  · rename_i envelope hdecode
    refine acknowledges_of_ne hdecode fun hack ↦ ?_
    rw [hack] at h
    exact absurd h (by decide)
  · exact absurd h (by simp)

theorem namedSubscription_eq {subscriptionId : UpdateSubscriptionId} {rest : List UInt8}
    (h : envelope.payload =
      toBe 2 subscriptionPayloadVersion ++ (subscriptionId.bytes.toList ++ rest)) :
    namedSubscription envelope = some (envelope.correlationId, subscriptionId) := by
  have hdrop : envelope.payload.drop 2 = subscriptionId.bytes.toList ++ rest := by
    rw [h]
    exact List.drop_left' (length_toBe 2 _)
  rw [namedSubscription, Bytes.slice?_eq_some _ hdrop]
  rfl

theorem namedSubscription_identity {subscriptionId : UpdateSubscriptionId}
    (h : envelope.payload = encodeSubscriptionIdentity subscriptionId) :
    namedSubscription envelope = some (envelope.correlationId, subscriptionId) := by
  have hpayload : envelope.payload =
      toBe 2 subscriptionPayloadVersion ++ (subscriptionId.bytes.toList ++ []) := by
    rw [h, encodeSubscriptionIdentity, List.append_nil]
  exact namedSubscription_eq hpayload

end Renee.Wire
