import Renee.Service.Dispatch
import Renee.Wire.Pipe

/-!
# A connection of the store

The store serves a connection with one loop, which writes everything that leaves: the responses to
the requests, and the events of subscriptions.  Each subscription has a forwarder, a task that polls
it and puts its events into a queue of the connection; the loop takes them from there.

* `Connection.step` is the connection with its tasks, in any order: the reader of requests, the loop
  with the arms of its `select!`, and the forwarders.  An arm of the loop that awaits something
  other tasks do (`CANCEL_UPDATE_SUBSCRIPTION`) has a phase of its own.
* What a step meets that is not the connection's own comes with the step: the store, which serves
  other connections too, what a subscription observes, whether an emission is authorized, and
  faults.
* `Connection.Moves` says what a step can do to the traffic of the connection (`step_moves`):
  responses are no events, an event names the subscription of its forwarder, and a forwarder is
  there only once its subscription has been acknowledged.

The `select!` is biased towards tasks and events.  An event can still be queued after the loop has
looked for one and before it looks for a request, so a step may take either.
-/

set_option autoImplicit false

namespace Renee.Service

open ByteString Wire
open UpdateSubscriptionRegistry (UpdateSubscriptionPoll)

variable {ε : Type}

/-- How many events, or requests, wait for the loop of a connection at most. -/
def connectionEventQueueCapacity : ℕ := 64

/-- An event that waits for the loop. -/
structure ConnectionEvent where
  body : List UInt8
  /-- Whether it is written only if the emission is authorized. -/
  gated : Bool

inductive ForwarderPhase
  | polling
  /-- The queue was full; the overflow waits for room. -/
  | overflowing
  | returned

/-- The task that forwards the events of a subscription. -/
structure Forwarder where
  subscriptionId : UpdateSubscriptionId
  correlationId : Bytes 16
  /-- Whether its cancellation has been sent. -/
  cancelled : Bool
  phase : ForwarderPhase

/-- Why a connection ends. -/
inductive ConnectionError (ε : Type)
  | read (error : ReadBodyError ε)
  | write (error : WriteFailure ε)
  | handler (error : HandlerError)
  | timedOut (message : String)
  | other (message : String)

/-- Where the loop of a connection is. -/
inductive ConnectionPhase (ε : Type)
  | serving
  /-- It awaits the forwarder of a cancelled subscription. -/
  | cancelling (request : Envelope) (subscriptionId : UpdateSubscriptionId)
  | ended (outcome : Except (ConnectionError ε) Unit)

structure Connection (ε : Type) where
  /-- How many requests have been read. -/
  count : ℕ
  /-- Whether the reader has not returned. -/
  reading : Bool
  requests : List (BodyResult ε)
  events : List ConnectionEvent
  /-- The forwarders that have not been joined. -/
  forwarders : List Forwarder
  active : List UpdateSubscriptionId
  nextSubscriptionId : ℕ
  phase : ConnectionPhase ε
  output : List (List UInt8)
  /-- The responses that have been written; no step reads them. -/
  responses : List (List UInt8)
  /-- The events that have been queued; no step reads them. -/
  produced : List (List UInt8)

namespace Connection

def start : Connection ε := ⟨0, true, [], [], [], [], 1, .serving, [], [], []⟩

def leave (c : Connection ε) (outcome : Except (ConnectionError ε) Unit) : Connection ε :=
  { c with phase := .ended outcome }

/-- Write a response, if it could be made. -/
def reply (c : Connection ε) (fault : Option ε) (reply : Except HandlerError (List UInt8)) :
    Connection ε :=
  match reply with
  | .error error => c.leave (.error (.handler error))
  | .ok body =>
    match writeFrame fault c.output body with
    | .error error => c.leave (.error (.write error))
    | .ok output => { c with output, responses := c.responses ++ [body] }

/-- What the loop does before it waits again: subscriptions whose forwarder has returned are not
active any more. -/
def retain (c : Connection ε) : Connection ε :=
  { c with active := c.active.filter fun subscriptionId ↦ c.forwarders.any fun forwarder ↦
      forwarder.subscriptionId = subscriptionId && !(forwarder.phase matches .returned) }

/-! ## Requests -/

section Requests

variable (sha256 : List UInt8 → Bytes verifierLength)

/-- Acknowledge a subscription, and start to forward its events. -/
def acknowledge (c : Connection ε) (fault : Option ε) (request : Envelope)
    (subscriptionId : UpdateSubscriptionId) : Connection ε :=
  match response request subscribeUpdatesAck (encodeSubscribeUpdatesAck subscriptionId) with
  | .error error => c.leave (.error (.handler error))
  | .ok acknowledgement =>
    match writeFrame fault c.output acknowledgement with
    | .error error => c.leave (.error (.write error))
    | .ok output =>
      { c with
        output
        responses := c.responses ++ [acknowledgement]
        active := c.active ++ [subscriptionId]
        forwarders := c.forwarders ++ [⟨subscriptionId, request.correlationId, false, .polling⟩] }

/-- The `SUBSCRIBE_UPDATES` arm. -/
def subscribe (c : Connection ε) (s : DurableUpdateStore) (channel : BrokerChannel)
    (fault : Option ε) (request : Envelope) : Connection ε :=
  match decodeSubscribeUpdatesRequest request.payload with
  | .error _ => c.reply fault (errorResponse request .malformed)
  | .ok subscribe =>
    if maxUpdateSubscriptionsPerChannel ≤ c.forwarders.length then
      c.reply fault (errorResponse request .backpressure)
    else match checkedAdd 128 c.nextSubscriptionId 1 with
    | none => c.reply fault (errorResponse request .backpressure)
    | some followingSubscriptionId =>
      match (s.subscribeUpdates sha256 channel subscribe.documentId subscribe.authority.capabilityId
        subscribe.authority.authenticator).1 with
      | .authorizationDenied => c.reply fault (errorResponse request .authorizationDenied)
      | .backpressure => c.reply fault (errorResponse request .backpressure)
      | .acknowledged _ =>
        { c with nextSubscriptionId := followingSubscriptionId }.acknowledge fault request
          ⟨.ofNat identifierLength c.nextSubscriptionId⟩

/-- The `CANCEL_UPDATE_SUBSCRIPTION` response. -/
def respondCancelled (c : Connection ε) (fault : Option ε) (request : Envelope)
    (subscriptionId : UpdateSubscriptionId) : Connection ε :=
  c.reply fault (response request cancelUpdateSubscriptionResponse
    (encodeCancelUpdateSubscription subscriptionId))

/-- The `CANCEL_UPDATE_SUBSCRIPTION` arm, up to where it awaits the forwarder. -/
def cancel (c : Connection ε) (fault : Option ε) (request : Envelope) : Connection ε :=
  match decodeCancelUpdateSubscription request.payload with
  | .error _ => c.reply fault (errorResponse request .malformed)
  | .ok subscriptionId =>
    if subscriptionId ∈ c.active then
      { c with
        active := c.active.filter (· ≠ subscriptionId)
        forwarders := c.forwarders.map fun forwarder ↦
          if forwarder.subscriptionId = subscriptionId then { forwarder with cancelled := true }
          else forwarder
        phase := .cancelling request subscriptionId }
    else c.respondCancelled fault request subscriptionId

/-- Serve a request. -/
def serve (c : Connection ε) (s : DurableUpdateStore) (channel : BrokerChannel)
    (surroundings : Surroundings) (fault : Option ε) (request : Envelope) : Connection ε :=
  if request.messageType = subscribeUpdates ∧ request.version = version then
    c.subscribe sha256 s channel fault request
  else if request.messageType = cancelUpdateSubscription ∧ request.version = version then
    c.cancel fault request
  else c.reply fault (handleRequest sha256 s channel request surroundings).1

/-- The arm of the loop that receives a request. -/
def receiveRequest (c : Connection ε) (s : DurableUpdateStore) (channel : BrokerChannel)
    (surroundings : Surroundings) (fault : Option ε) : Option (Connection ε) :=
  match c.requests with
  | [] =>
    if c.reading then none else some (c.leave (.error (.other "connection request queue closed")))
  | .error error :: _ => some (c.leave (.error (.read error)))
  | .ok none :: _ => some (c.leave (.ok ()))
  | .ok (some body) :: requests =>
    let c := { c with requests }
    match decodeBody body with
    | .error _ => some (c.leave (.ok ()))
    | .ok request => some (c.serve sha256 s channel surroundings fault request).retain

/-- The rest of the `CANCEL_UPDATE_SUBSCRIPTION` arm, once the forwarder has finished. -/
def finishCancel (c : Connection ε) (fault : Option ε) : Option (Connection ε) :=
  match c.phase with
  | .cancelling request subscriptionId =>
    if c.forwarders.all fun forwarder ↦
        forwarder.subscriptionId ≠ subscriptionId || (forwarder.phase matches .returned) then
      some ({ c with phase := .serving }.respondCancelled fault request subscriptionId).retain
    else none
  | _ => none

end Requests

/-! ## Events -/

/-- `write_connection_event`. -/
def writeConnectionEvent (c : Connection ε) (authorized stalled : Bool) (fault : Option ε)
    (event : ConnectionEvent) : Connection ε :=
  if event.gated ∧ authorized = false then c
  else if event.gated ∧ stalled then c.leave (.error (.timedOut "subscription emission stalled"))
  else match writeFrame fault c.output event.body with
  | .error error => c.leave (.error (.write error))
  | .ok output => { c with output }

/-- The arm of the loop that receives an event. -/
def receiveEvent (c : Connection ε) (authorized stalled : Bool) (fault : Option ε) :
    Option (Connection ε) :=
  match c.events with
  | [] => none
  | event :: events =>
    some ({ c with events }.writeConnectionEvent authorized stalled fault event).retain

/-- The arm of the loop that joins a forwarder. -/
def joinForwarder (c : Connection ε) (i : ℕ) : Option (Connection ε) :=
  match c.forwarders[i]? with
  | some ⟨_, _, _, .returned⟩ => some { c with forwarders := c.forwarders.eraseIdx i }.retain
  | _ => none

def terminalSubscriptionEvent (ended : UpdateSubscriptionEnd)
    (subscriptionId : UpdateSubscriptionId) : Option (U16 × List UInt8) :=
  match ended with
  | .overflowed =>
    some (updateSubscriptionOverflow, encodeUpdateSubscriptionOverflow subscriptionId)
  | .revoked | .retired =>
    some (updateSubscriptionInvalidated, encodeUpdateSubscriptionInvalidated subscriptionId)
  | .cancelled | .channelLost | .brokerShutdown => none

/-- The message that a forwarder makes of what its subscription observes; there is none if it
returns. -/
def observed (subscriptionId : UpdateSubscriptionId) :
    UpdateSubscriptionPoll → Option (U16 × List UInt8)
  | .notification updateId =>
    some (updateNotification, encodeUpdateNotification ⟨subscriptionId, updateId⟩)
  | .invalidated ended => terminalSubscriptionEvent ended subscriptionId
  -- `next` goes on until there is an observation
  | .pending => none

/-- A forwarder goes on to a phase. -/
def setPhase (c : Connection ε) (i : ℕ) (forwarder : Forwarder) (phase : ForwarderPhase) :
    Connection ε :=
  { c with forwarders := c.forwarders.set i { forwarder with phase } }

/-- A forwarder puts an event into the queue. -/
def send (c : Connection ε) (event : ConnectionEvent) : Connection ε :=
  { c with events := c.events ++ [event], produced := c.produced ++ [event.body] }

/-- How many overflows wait for room. -/
def overflows (c : Connection ε) : ℕ :=
  c.forwarders.countP fun forwarder ↦ forwarder.phase matches .overflowing

/-- The overflow of a forwarder. -/
def overflowEvent (forwarder : Forwarder) : Except FrameError (List UInt8) :=
  encodeBody ⟨forwarder.correlationId, updateSubscriptionOverflow,
    encodeUpdateSubscriptionOverflow forwarder.subscriptionId, version⟩

/-- A forwarder tries to send the event that it has made.  The queue may be `full` although it has
room: its last places may be kept for overflows that have waited for them. -/
def trySend (c : Connection ε) (i : ℕ) (forwarder : Forwarder) (full : Bool)
    (message : U16 × List UInt8) : Option (Connection ε) :=
  match encodeBody ⟨forwarder.correlationId, message.1, message.2, version⟩ with
  | .error _ => some (c.setPhase i forwarder .returned)
  | .ok body =>
    if full then
      if c.events.length + c.overflows < connectionEventQueueCapacity then none
      else match overflowEvent forwarder with
        | .error _ => some (c.setPhase i forwarder .returned)
        | .ok _ => some (c.setPhase i forwarder .overflowing)
    else if connectionEventQueueCapacity ≤ c.events.length then none
    else if message.1 = updateNotification then some (c.send ⟨body, true⟩)
    else some ((c.setPhase i forwarder .returned).send ⟨body, false⟩)

/-- A forwarder meets an observation of its subscription. -/
def forward (c : Connection ε) (i : ℕ) (observation : UpdateSubscriptionPoll) (full : Bool) :
    Option (Connection ε) :=
  match c.forwarders[i]? with
  | some forwarder =>
    match forwarder.phase, observation with
    | .polling, .pending => none
    | .polling, observation =>
      match observed forwarder.subscriptionId observation with
      | none => some (c.setPhase i forwarder .returned)
      | some message => c.trySend i forwarder full message
    | _, _ => none
  | none => none

/-- A forwarder that has waited for room sends its overflow. -/
def sendOverflow (c : Connection ε) (i : ℕ) : Option (Connection ε) :=
  match c.forwarders[i]? with
  | some forwarder =>
    -- what is sent has been encoded before the forwarder began to wait
    match forwarder.phase, overflowEvent forwarder with
    | .overflowing, .ok overflow =>
      if c.events.length < connectionEventQueueCapacity then
        some ((c.setPhase i forwarder .returned).send ⟨overflow, false⟩)
      else none
    | _, _ => none
  | none => none

/-- A forwarder notices that it has been cancelled. -/
def observeCancel (c : Connection ε) (i : ℕ) : Option (Connection ε) :=
  match c.forwarders[i]? with
  | some forwarder => if forwarder.cancelled then some (c.setPhase i forwarder .returned) else none
  | none => none

/-! ## Steps -/

/-- The reader of requests. -/
def read (c : Connection ε) (fault : Option (ReadBodyError ε)) (written : List (List UInt8))
    (closed : Bool) : Option (Connection ε) :=
  if c.reading ∧ c.requests.length < connectionEventQueueCapacity then
    (nextFrame fault written c.count closed).map fun frame ↦
      { c with
        count := readCount c.count frame
        reading := !terminal frame
        requests := c.requests ++ [frame] }
  else none

end Connection

/-- The steps of a connection. -/
inductive ConnectionAction (ε : Type)
  | read (fault : Option (ReadBodyError ε))
  | receiveRequest (s : DurableUpdateStore) (surroundings : Surroundings) (fault : Option ε)
  | receiveEvent (authorized stalled : Bool) (fault : Option ε)
  | joinForwarder (i : ℕ)
  | finishCancel (fault : Option ε)
  | forward (i : ℕ) (observation : UpdateSubscriptionPoll) (full : Bool)
  | sendOverflow (i : ℕ)
  | observeCancel (i : ℕ)

/-- One step of a connection, where `written` is what the session has written so far.  The loop
receives only while it serves; nothing goes on once it has ended. -/
def Connection.step (sha256 : List UInt8 → Bytes verifierLength) (channel : BrokerChannel)
    (written : List (List UInt8)) (closed : Bool) (c : Connection ε) (action : ConnectionAction ε) :
    Option (Connection ε) :=
  match c.phase, action with
  | .ended _, _ => none
  | _, .read fault => c.read fault written closed
  | .serving, .receiveRequest s surroundings fault =>
    c.receiveRequest sha256 s channel surroundings fault
  | .serving, .receiveEvent authorized stalled fault => c.receiveEvent authorized stalled fault
  | .serving, .joinForwarder i => c.joinForwarder i
  | _, .finishCancel fault => c.finishCancel fault
  | _, .forward i observation full => c.forward i observation full
  | _, .sendOverflow i => c.sendOverflow i
  | _, .observeCancel i => c.observeCancel i
  | _, _ => none

/-! ## What a step does -/

/-- What passes through a connection. -/
structure Traffic where
  output : List (List UInt8)
  /-- The events that are queued. -/
  events : List (List UInt8)
  responses : List (List UInt8)
  produced : List (List UInt8)
  nextSubscriptionId : ℕ
  /-- The subscriptions that have a forwarder. -/
  keys : List SubscriptionKey

def Forwarder.key (forwarder : Forwarder) : SubscriptionKey :=
  (forwarder.correlationId, forwarder.subscriptionId)

def Connection.traffic (c : Connection ε) : Traffic where
  output := c.output
  events := c.events.map (·.body)
  responses := c.responses
  produced := c.produced
  nextSubscriptionId := c.nextSubscriptionId
  keys := c.forwarders.map (·.key)

/-- What a step can do to the traffic of a connection. -/
inductive Traffic.Moves (t : Traffic) : Traffic → Prop
  | quiet (nextSubscriptionId : ℕ) (keys : List SubscriptionKey)
      (grows : t.nextSubscriptionId ≤ nextSubscriptionId) (subset : keys ⊆ t.keys) :
      Moves t { t with nextSubscriptionId, keys }
  | withhold (event : List UInt8) (events : List (List UInt8))
    (queued : t.events = event :: events) :
      Moves t { t with events }
  | emit (event : List UInt8) (events : List (List UInt8)) (queued : t.events = event :: events) :
      Moves t { t with events, output := t.output ++ [event] }
  | respond (body : List UInt8) (plain : Plain body) :
      Moves t { t with output := t.output ++ [body], responses := t.responses ++ [body] }
  | acknowledge (body : List UInt8) (key : SubscriptionKey) (response : isEvent body = false)
      (acks : acknowledges body = some key)
      (issued : key.2.bytes = .ofNat identifierLength t.nextSubscriptionId)
      (bounded : t.nextSubscriptionId + 1 < 2 ^ 128) :
      Moves t { t with
        output := t.output ++ [body]
        responses := t.responses ++ [body]
        nextSubscriptionId := t.nextSubscriptionId + 1
        keys := t.keys ++ [key] }
  | produce (body : List UInt8) (key : SubscriptionKey) (keys : List SubscriptionKey)
      (event : isEvent body = true) (named : concerns body = some key) (forwarded : key ∈ t.keys)
      (subset : keys ⊆ t.keys) :
      Moves t { t with events := t.events ++ [body], produced := t.produced ++ [body], keys }

theorem Traffic.Moves.refl (t : Traffic) : t.Moves t := .quiet _ _ le_rfl (List.Subset.refl _)

variable {request : Envelope} {messageType : U16} {payload body : List UInt8}

theorem decodeBody_of_response (h : response request messageType payload = .ok body) :
    decodeBody body = .ok ⟨request.correlationId, messageType, payload, version⟩ :=
  (decodeBody_encodeBody (mapError_eq_ok.mp h)).2

/-- A response is plain unless its type is that of an acknowledgement. -/
theorem plain_of_responds {reply : Except HandlerError (List UInt8)} (h : Responds request reply)
    (hbody : reply = .ok body) : Plain body := by
  obtain ⟨messageType, hmem, payload, hresponse⟩ := h body hbody
  exact plain_of_decodeBody (decodeBody_of_response hresponse)
    (not_event_of_responseType messageType hmem)

namespace Connection

variable {c c' : Connection ε} {fault : Option ε} {subscriptionId : UpdateSubscriptionId}
  {forwarder : Forwarder} {i : ℕ} {phase : ForwarderPhase}

theorem moves_reply {reply : Except HandlerError (List UInt8)}
    (h : ∀ body, reply = .ok body → Plain body) :
      c.traffic.Moves (c.reply fault reply).traffic := by
  rw [Connection.reply.eq_def]
  split
  · exact .refl _
  · rename_i body
    split
    · exact .refl _
    · rename_i output hwrite
      obtain rfl := writeFrame_eq_ok hwrite
      exact .respond body (h body rfl)

theorem moves_errorResponse (code : UpdateErrorCode) :
    c.traffic.Moves (c.reply fault (errorResponse request code)).traffic :=
  moves_reply fun _ ↦ plain_of_responds (responds_errorResponse code)

theorem moves_respondCancelled :
    c.traffic.Moves (c.respondCancelled fault request subscriptionId).traffic :=
  moves_reply fun _ hbody ↦
    plain_of_decodeBody (decodeBody_of_response hbody) (by dsimp only; decide)

theorem moves_acknowledge {following : ℕ}
    (hissued : subscriptionId.bytes = .ofNat identifierLength c.nextSubscriptionId)
    (hnext : checkedAdd 128 c.nextSubscriptionId 1 = some following) :
    c.traffic.Moves ({ c with nextSubscriptionId := following }.acknowledge fault request
      subscriptionId).traffic := by
  obtain ⟨hbounded, rfl⟩ := checkedAdd_eq_some_iff.mp hnext
  rw [acknowledge]
  split
  · exact .quiet _ _ (Nat.le_succ _) (List.Subset.refl _)
  · rename_i body hresponse
    have hdecode := decodeBody_of_response hresponse
    split
    · exact .quiet _ _ (Nat.le_succ _) (List.Subset.refl _)
    · rename_i output hwrite
      obtain rfl := writeFrame_eq_ok hwrite
      have hmoves := Traffic.Moves.acknowledge (t := c.traffic) body (request.correlationId, _)
        (isEvent_of_decodeBody hdecode)
        ((acknowledges_of_ack hdecode rfl).trans (namedSubscription_identity rfl)) hissued
        hbounded
      have hkeys : c.traffic.keys ++ [(request.correlationId, subscriptionId)] = (c.forwarders ++
          [(⟨subscriptionId, request.correlationId, false, .polling⟩ : Forwarder)]).map
            (·.key) := by
        rw [List.map_append]
        rfl
      rw [hkeys] at hmoves
      exact hmoves

theorem moves_subscribe (sha256 : List UInt8 → Bytes verifierLength) (s : DurableUpdateStore)
    (channel : BrokerChannel) :
    c.traffic.Moves (c.subscribe sha256 s channel fault request).traffic := by
  rw [subscribe]
  split
  · exact moves_errorResponse .malformed
  · split
    · exact moves_errorResponse .backpressure
    · split
      · exact moves_errorResponse .backpressure
      · rename_i hnext
        split
        · exact moves_errorResponse .authorizationDenied
        · exact moves_errorResponse .backpressure
        · exact moves_acknowledge rfl hnext

theorem moves_cancel : c.traffic.Moves (c.cancel fault request).traffic := by
  rw [cancel]
  split
  · exact moves_errorResponse .malformed
  · split
    · refine .quiet _ _ le_rfl fun key hkey ↦ ?_
      simp only [List.mem_map] at hkey
      obtain ⟨forwarder, ⟨forwarder', hmem, rfl⟩, rfl⟩ := hkey
      refine List.mem_map.mpr ⟨forwarder', hmem, ?_⟩
      split <;> rfl
    · exact moves_respondCancelled

theorem moves_serve (sha256 : List UInt8 → Bytes verifierLength) (s : DurableUpdateStore)
    (channel : BrokerChannel) (surroundings : Surroundings) :
    c.traffic.Moves (c.serve sha256 s channel surroundings fault request).traffic := by
  rw [serve]
  split_ifs
  · exact moves_subscribe sha256 s channel
  · exact moves_cancel
  · exact moves_reply fun _ ↦ plain_of_responds (handleRequest_responds sha256 s channel request _)

theorem moves_receiveRequest {sha256 : List UInt8 → Bytes verifierLength} {s : DurableUpdateStore}
    {channel : BrokerChannel} {surroundings : Surroundings}
    (h : c.receiveRequest sha256 s channel surroundings fault = some c') :
    c.traffic.Moves c'.traffic := by
  rw [receiveRequest.eq_def] at h
  split at h
  · split at h
    · exact absurd h (by simp)
    · obtain rfl := Option.some_inj.mp h
      exact .refl _
  · obtain rfl := Option.some_inj.mp h
    exact .refl _
  · obtain rfl := Option.some_inj.mp h
    exact .refl _
  · split at h
    · obtain rfl := Option.some_inj.mp h
      exact .refl _
    · rename_i requests _ _ _ _
      obtain rfl := Option.some_inj.mp h
      exact moves_serve (c := { c with requests }) sha256 s channel surroundings

theorem moves_finishCancel (h : c.finishCancel fault = some c') : c.traffic.Moves c'.traffic := by
  rw [finishCancel.eq_def] at h
  split at h
  · split at h
    · obtain rfl := Option.some_inj.mp h
      exact moves_respondCancelled (c := { c with phase := .serving })
    · exact absurd h (by simp)
  · exact absurd h (by simp)

theorem moves_receiveEvent {authorized stalled : Bool}
    (h : c.receiveEvent authorized stalled fault = some c') : c.traffic.Moves c'.traffic := by
  rw [receiveEvent.eq_def] at h
  split at h
  · exact absurd h (by simp)
  · rename_i event events hevents
    have hqueued : c.traffic.events = event.body :: events.map (·.body) :=
      congrArg (List.map _) hevents
    obtain rfl := Option.some_inj.mp h
    rw [writeConnectionEvent.eq_def]
    split_ifs
    · exact .withhold _ _ hqueued
    · exact .withhold _ _ hqueued
    · split
      · exact .withhold _ _ hqueued
      · rename_i output hwrite
        obtain rfl := writeFrame_eq_ok hwrite
        exact .emit _ _ hqueued

theorem moves_joinForwarder (h : c.joinForwarder i = some c') : c.traffic.Moves c'.traffic := by
  rw [joinForwarder.eq_def] at h
  split at h
  · obtain rfl := Option.some_inj.mp h
    exact .quiet _ _ le_rfl ((List.eraseIdx_sublist ..).map _).subset
  · exact absurd h (by simp)

theorem keys_setPhase (h : c.forwarders[i]? = some forwarder) :
    (c.setPhase i forwarder phase).traffic.keys ⊆ c.traffic.keys := by
  intro key hkey
  obtain ⟨forwarder', hmem, rfl⟩ := List.mem_map.mp hkey
  rcases List.mem_or_eq_of_mem_set hmem with hmem | rfl
  · exact List.mem_map_of_mem hmem
  · exact List.mem_map.mpr ⟨forwarder, List.mem_of_getElem? h, rfl⟩

theorem moves_setPhase (h : c.forwarders[i]? = some forwarder) :
    c.traffic.Moves (c.setPhase i forwarder phase).traffic :=
  .quiet _ _ le_rfl (keys_setPhase h)

/-- What a forwarder makes of an observation is an event of its subscription. -/
theorem observed_spec {observation : UpdateSubscriptionPoll} {message : U16 × List UInt8}
    (h : observed subscriptionId observation = some message) (correlationId : Bytes 16) :
    isUpdateSubscriptionEvent message.1 = true ∧
      namedSubscription ⟨correlationId, message.1, message.2, version⟩ =
        some (correlationId, subscriptionId) := by
  cases observation with
  | pending => exact absurd h (by simp [observed])
  | notification updateId =>
    obtain rfl := Option.some_inj.mp h
    exact ⟨rfl, namedSubscription_eq rfl⟩
  | invalidated ended =>
    cases ended with
    | overflowed | revoked | retired =>
      obtain rfl := Option.some_inj.mp h
      exact ⟨rfl, namedSubscription_identity rfl⟩
    | _ => exact absurd h (by simp [observed, terminalSubscriptionEvent])

/-- A forwarder that is in the traffic sends an event of its subscription. -/
theorem moves_send (message : U16 × List UInt8) {gated : Bool}
    (hmem : forwarder.key ∈ c.traffic.keys)
    (hmessage : isUpdateSubscriptionEvent message.1 = true ∧
      namedSubscription ⟨forwarder.correlationId, message.1, message.2, version⟩ =
        some forwarder.key)
    (hencode : encodeBody ⟨forwarder.correlationId, message.1, message.2, version⟩ = .ok body)
    (hsame : c'.traffic = { c.traffic with keys := c'.traffic.keys })
    (hkeys : c'.traffic.keys ⊆ c.traffic.keys) :
    c.traffic.Moves (c'.send ⟨body, gated⟩).traffic := by
  have hdecode := (decodeBody_encodeBody hencode).2
  have hmoves := Traffic.Moves.produce (t := c.traffic) body forwarder.key c'.traffic.keys
    ((isEvent_of_decodeBody hdecode).trans hmessage.1)
    ((concerns_of_event hdecode hmessage.1).trans hmessage.2) hmem hkeys
  have hsend : (c'.send ⟨body, gated⟩).traffic = { c'.traffic with
      events := c'.traffic.events ++ [body], produced := c'.traffic.produced ++ [body] } := by
    simp only [send, traffic, List.map_append, List.map_cons, List.map_nil]
  rw [hsend, hsame]
  exact hmoves

theorem mem_keys (h : c.forwarders[i]? = some forwarder) : forwarder.key ∈ c.traffic.keys :=
  List.mem_map_of_mem (List.mem_of_getElem? h)

theorem moves_trySend {full : Bool} {message : U16 × List UInt8}
    (hforwarder : c.forwarders[i]? = some forwarder)
    (hmessage : isUpdateSubscriptionEvent message.1 = true ∧
      namedSubscription ⟨forwarder.correlationId, message.1, message.2, version⟩ =
        some forwarder.key)
    (h : c.trySend i forwarder full message = some c') : c.traffic.Moves c'.traffic := by
  rw [trySend.eq_def] at h
  split at h
  · obtain rfl := Option.some_inj.mp h
    exact moves_setPhase hforwarder
  · rename_i hencode
    split_ifs at h
    · split at h
      · obtain rfl := Option.some_inj.mp h
        exact moves_setPhase hforwarder
      · obtain rfl := Option.some_inj.mp h
        exact moves_setPhase hforwarder
    · obtain rfl := Option.some_inj.mp h
      exact moves_send _ (mem_keys hforwarder) hmessage hencode rfl (List.Subset.refl _)
    · obtain rfl := Option.some_inj.mp h
      exact moves_send _ (mem_keys hforwarder) hmessage hencode rfl (keys_setPhase hforwarder)

theorem moves_forward {observation : UpdateSubscriptionPoll} {full : Bool}
    (h : c.forward i observation full = some c') : c.traffic.Moves c'.traffic := by
  rw [forward.eq_def] at h
  split at h
  · rename_i forwarder hforwarder
    split at h
    · exact absurd h (by simp)
    · split at h
      · obtain rfl := Option.some_inj.mp h
        exact moves_setPhase hforwarder
      · rename_i hobserved
        exact moves_trySend hforwarder (observed_spec hobserved forwarder.correlationId) h
    · exact absurd h (by simp)
  · exact absurd h (by simp)

theorem moves_sendOverflow (h : c.sendOverflow i = some c') : c.traffic.Moves c'.traffic := by
  rw [sendOverflow.eq_def] at h
  split at h
  · rename_i forwarder hforwarder
    split at h
    · rename_i hencode
      split_ifs at h
      obtain rfl := Option.some_inj.mp h
      exact moves_send (updateSubscriptionOverflow, _) (mem_keys hforwarder)
        ⟨rfl, namedSubscription_identity rfl⟩ hencode rfl (keys_setPhase hforwarder)
    · exact absurd h (by simp)
  · exact absurd h (by simp)

theorem moves_observeCancel (h : c.observeCancel i = some c') : c.traffic.Moves c'.traffic := by
  rw [observeCancel.eq_def] at h
  split at h
  · rename_i hforwarder
    split_ifs at h
    obtain rfl := Option.some_inj.mp h
    exact moves_setPhase hforwarder
  · exact absurd h (by simp)

theorem moves_read {fault : Option (ReadBodyError ε)} {written : List (List UInt8)} {closed : Bool}
    (h : c.read fault written closed = some c') : c'.traffic = c.traffic := by
  rw [read] at h
  split_ifs at h
  obtain ⟨frame, -, rfl⟩ := Option.map_eq_some_iff.mp h
  rfl

/-- **What a step of a connection does to its traffic.** -/
theorem step_moves {sha256 : List UInt8 → Bytes verifierLength} {channel : BrokerChannel}
    {written : List (List UInt8)} {closed : Bool} {action : ConnectionAction ε}
    (h : c.step sha256 channel written closed action = some c') : c.traffic.Moves c'.traffic := by
  rw [step.eq_def] at h
  split at h
  · exact absurd h (by simp)
  · exact moves_read h ▸ .refl _
  · exact moves_receiveRequest h
  · exact moves_receiveEvent h
  · exact moves_joinForwarder h
  · exact moves_finishCancel h
  · exact moves_forward h
  · exact moves_sendOverflow h
  · exact moves_observeCancel h
  · exact absurd h (by simp)

end Connection

/-! ## What holds of the traffic -/

/-- The identities that have been acknowledged. -/
def Traffic.acknowledged (t : Traffic) : List UpdateSubscriptionId :=
  (t.responses.filterMap acknowledges).map Prod.snd

/-- Responses are no events, every event names a subscription, and no two acknowledgements name
one. -/
structure Traffic.Sound (t : Traffic) : Prop where
  queued : ∀ body ∈ t.events, isEvent body = true
  produced : ∀ body ∈ t.produced, isEvent body = true ∧ ∃ key, concerns body = some key
  responses : ∀ body ∈ t.responses, isEvent body = false
  issued : ∀ subscriptionId ∈ t.acknowledged, subscriptionId.bytes.toNat < t.nextSubscriptionId
  distinct : t.acknowledged.Nodup

namespace Traffic

variable {t t' : Traffic}

theorem Sound.start : (Connection.start : Connection ε).traffic.Sound where
  queued := by simp [Connection.start, Connection.traffic]
  produced := by simp [Connection.start, Connection.traffic]
  responses := by simp [Connection.start, Connection.traffic]
  issued := by simp [Connection.start, Connection.traffic, acknowledged]
  distinct := List.nodup_nil

theorem forall_mem_concat {p : List UInt8 → Prop} {bodies : List (List UInt8)}
    (h : ∀ body ∈ bodies, p body) (hbody : p body) : ∀ body' ∈ bodies ++ [body], p body' := by
  intro body' hmem
  rcases List.mem_append.mp hmem with hmem | hmem
  · exact h body' hmem
  · exact List.mem_singleton.mp hmem ▸ hbody

/-- What has been written, sent or produced stays so. -/
theorem Moves.grows (h : t.Moves t') : ∃ output responses produced, t'.output = t.output ++ output ∧
    t'.responses = t.responses ++ responses ∧ t'.produced = t.produced ++ produced := by
  cases h with
  | quiet | withhold => exact ⟨[], [], [], by simp⟩
  | emit event => exact ⟨[event], [], [], by simp⟩
  | respond body | acknowledge body => exact ⟨[body], [body], [], by simp⟩
  | produce body => exact ⟨[], [], [body], by simp⟩

/-- **What a step does to the traffic keeps it sound.** -/
theorem Sound.moves (h : t.Sound) (hmoves : t.Moves t') : t'.Sound := by
  cases hmoves with
  | quiet nextSubscriptionId keys grows subset =>
    exact ⟨h.queued, h.produced, h.responses, fun id hid ↦ (h.issued id hid).trans_le grows,
      h.distinct⟩
  | withhold event events queued | emit event events queued =>
    exact ⟨fun body hbody ↦ h.queued body (queued ▸ List.mem_cons_of_mem _ hbody), h.produced,
      h.responses, h.issued, h.distinct⟩
  | respond body plain =>
    have hsame : (t.responses ++ [body]).filterMap acknowledges =
        t.responses.filterMap acknowledges := by
      rw [List.filterMap_append, List.filterMap_cons_none plain.2, List.filterMap_nil,
        List.append_nil]
    refine ⟨h.queued, h.produced, forall_mem_concat h.responses plain.1, ?_, ?_⟩
    · rw [acknowledged, hsame]
      exact h.issued
    · rw [acknowledged, hsame]
      exact h.distinct
  | acknowledge body key response acks issued bounded =>
    have hnext : key.2.bytes.toNat = t.nextSubscriptionId := by
      rw [issued]
      exact Bytes.toNat_ofNat (by rw [show (256 : ℕ) ^ identifierLength = 2 ^ 128 from rfl]; omega)
    have hmore : ((t.responses ++ [body]).filterMap acknowledges).map Prod.snd =
        t.acknowledged ++ [key.2] := by
      rw [List.filterMap_append, List.filterMap_cons_some acks, List.map_append]
      rfl
    refine ⟨h.queued, h.produced, forall_mem_concat h.responses response, ?_, ?_⟩
    · rw [acknowledged, hmore]
      intro id hid
      rcases List.mem_append.mp hid with hid | hid
      · exact Nat.lt_succ_of_lt (h.issued id hid)
      · rw [List.mem_singleton.mp hid, hnext]
        exact Nat.lt_succ_self _
    · rw [acknowledged, hmore, ← List.concat_eq_append]
      exact h.distinct.concat fun hmem ↦ (h.issued _ hmem).ne hnext
  | produce body key keys event named forwarded subset =>
    exact ⟨forall_mem_concat h.queued event, forall_mem_concat h.produced ⟨event, key, named⟩,
      h.responses, h.issued, h.distinct⟩

end Traffic

end Renee.Service
