import Renee.Service.Connection
import Renee.Subscription.LedgerRun

/-!
# The events of a connection

What `Connection` says of bytes is said here of the messages they encode, with what the loop of a
connection and its forwarders do between two writes: the loop waits for the gate of a document,
checks whether the emission is still authorized, and writes; a forwarder that has found the queue
full, or that has been cancelled, ends its subscription before it goes on.

* `Link.step` is the loop with its forwarders, in any order.  What it takes from the surroundings
  (an observation, the outcome of a check) comes with the step, as in `Connection.step`;
  `Emission.step` is to say what it can be.
* The `k`-th subscription of a connection has the identity `k + 1` on the wire, and a `Frame` about
  it names `k`; an identity that was not given out yet is that of a later `k`.
* `Link.log` records what has been written, and what has been left out because it was not
  authorized.

`connection_simulated` relates the two: the bytes of a connection are those of the frames of a link.
-/

set_option autoImplicit false

namespace Renee.Emission

open ByteString Wire Service
open UpdateSubscriptionRegistry (UpdateSubscriptionPoll)

/-! ## Messages -/

/-- What an event of a subscription says. -/
inductive Message
  | notification (u : UpdateId)
  | overflow
  | invalidated
deriving DecidableEq

namespace Message

/-- Whether it is the last. -/
def terminal : Message → Bool
  | .notification _ => false
  | .overflow | .invalidated => true

/-- The message type and the payload. -/
def encode (subscriptionId : UpdateSubscriptionId) : Message → U16 × List UInt8
  | .notification u => (updateNotification, encodeUpdateNotification ⟨subscriptionId, u⟩)
  | .overflow => (updateSubscriptionOverflow, encodeUpdateSubscriptionOverflow subscriptionId)
  | .invalidated =>
    (updateSubscriptionInvalidated, encodeUpdateSubscriptionInvalidated subscriptionId)

end Message

/-- `terminal_subscription_event`. -/
def terminalMessage : UpdateSubscriptionEnd → Option Message
  | .overflowed => some .overflow
  | .revoked | .retired => some .invalidated
  | .cancelled | .channelLost | .brokerShutdown => none

/-- The message that a forwarder makes of an observation. -/
def message? : UpdateSubscriptionPoll → Option Message
  | .notification u => some (.notification u)
  | .invalidated ended => terminalMessage ended
  | .pending => none

/-- It is the one that a connection encodes. -/
theorem observed_eq (subscriptionId : UpdateSubscriptionId) (poll : UpdateSubscriptionPoll) :
    Connection.observed subscriptionId poll = (message? poll).map
      (Message.encode subscriptionId) := by
  cases poll with
  | notification u | pending => rfl
  | invalidated ended => cases ended <;> rfl

theorem terminal_of_terminalMessage {ended : UpdateSubscriptionEnd} {message : Message}
    (h : terminalMessage ended = some message) : message.terminal = true := by
  cases ended <;> simp only [terminalMessage, Option.some.injEq, reduceCtorEq] at h <;>
    exact h ▸ rfl

/-- What leaves on a connection. -/
inductive Frame
  /-- A response that is about no subscription. -/
  | response
  | acknowledgement (k : ℕ)
  | event (k : ℕ) (message : Message)
  /-- The response to a cancellation. -/
  | cancelled (k : ℕ)
deriving DecidableEq

namespace Frame

/-- It acknowledges the subscription or is an event of it. -/
def about (k : ℕ) : Frame → Bool
  | .acknowledgement k' | .event k' _ => k' = k
  | .response | .cancelled _ => false

/-- The message of an event of the subscription. -/
def message? (k : ℕ) : Frame → Option Message
  | .event k' message => if k' = k then some message else none
  | _ => none

end Frame

/-! ## The loop and its forwarders -/

/-- How far a forwarder is. -/
inductive Stage
  | polling
  /-- The queue was full; it cancels the subscription, and the overflow waits for room. -/
  | overflowing
  /-- It has noticed its cancellation, and cancels the subscription. -/
  | cancelling
  /-- It drops the subscription. -/
  | returning
  | returned
deriving DecidableEq

/-- The task that forwards the events of a subscription. -/
structure Forwarder where
  /-- Which of the receivers it has. -/
  receiver : ℕ
  stage : Stage
  /-- Whether its cancellation has been sent. -/
  cancelled : Bool
  joined : Bool
  /-- The observations that it has dealt with, oldest first. -/
  seen : List UpdateSubscriptionPoll
  /-- Whether the queue was full for the message of the next one. -/
  refused : Bool
  /-- The terminal event that it has put into the queue. -/
  sent : Option Message

namespace Forwarder

def start (receiver : ℕ) : Forwarder := ⟨receiver, .polling, false, false, [], false, none⟩

/-- `is_closed` of its cancellation. -/
def closed (f : Forwarder) : Bool := f.stage = .returning || f.stage = .returned

/-- What it has put into the queue, oldest first. -/
def made (f : Forwarder) : List Message :=
  (notified f.seen).map .notification ++ f.sent.toList

end Forwarder

/-- What the loop does. -/
inductive LinkPhase
  | serving
  /-- It handles a request. -/
  | handling
  /-- It waits for the registration, which has got the mutex after `answers` others. -/
  | subscribing (answers : ℕ)
  /-- It waits for the forwarder that it has cancelled. -/
  | cancelling (k : ℕ)
  /-- It waits for the gate of the document. -/
  | entering (k : ℕ) (u : UpdateId)
  /-- It has the gate. -/
  | checking (k : ℕ) (u : UpdateId)
  /-- It still has the gate, and the emission was authorized. -/
  | writing (k : ℕ) (u : UpdateId)
  | ended
deriving DecidableEq

/-- The notification that the loop has taken from the queue. -/
def LinkPhase.held? : LinkPhase → Option (ℕ × UpdateId)
  | .entering k u | .checking k u | .writing k u => some (k, u)
  | _ => none

structure Link where
  phase : LinkPhase
  events : List (ℕ × Message)
  forwarders : List Forwarder
  /-- `active_subscriptions`. -/
  active : List ℕ
  /-- What has been written, and what has not been since it was not authorized, oldest first. -/
  log : List (Frame × Bool)

inductive LinkAction
  /-- A request comes that the two arms below do not answer, or not with a subscription. -/
  | receive
  | respond
  | subscribe (answers : ℕ)
  | acknowledge (receiver : ℕ)
  | cancel (k : ℕ)
  | finishCancel
  | join (k : ℕ)
  | dequeue
  | enter
  | checked (authorized : Bool)
  | written
  /-- The connection ends, for whatever reason. -/
  | leave
  | handle (k : ℕ) (poll : UpdateSubscriptionPoll) (full : Bool)
  | observeCancel (k : ℕ)
  | sendOverflow (k : ℕ)
  | abandonOverflow (k : ℕ)
  | drop (k : ℕ)
  | finish (k : ℕ)

namespace Link

def start : Link := ⟨.serving, [], [], [], []⟩

/-- What has been written, oldest first. -/
def output (L : Link) : List Frame := (L.log.filter Prod.snd).map Prod.fst

/-- What the loop does before it waits again. -/
def retain (L : Link) : Link :=
  { L with active := L.active.filter fun k ↦ L.forwarders[k]?.any fun f ↦ !f.closed }

/-- The loop is done with a frame, which it has written or not. -/
def settle (L : Link) (frame : Frame) (written : Bool) : Link :=
  { L with phase := .serving, log := L.log ++ [(frame, written)] }.retain

def setForwarder (L : Link) (k : ℕ) (f : Forwarder) : Link :=
  { L with forwarders := L.forwarders.set k f }

/-- A forwarder at a stage goes on, while the connection is open. -/
def task (L : Link) (k : ℕ) (stage : Stage) (next : Forwarder → Option Link) : Option Link :=
  if L.phase = .ended then none
  else (L.forwarders[k]?.filter (·.stage = stage)).bind next

/-- A subscription can be asked for: there are not too many tasks, and there is an identity. -/
def hasRoom (L : Link) : Bool :=
  decide (L.forwarders.countP (!·.joined) < maxUpdateSubscriptionsPerChannel) &&
    (checkedAdd 128 (L.forwarders.length + 1) 1).isSome

/-- How many overflows wait for room. -/
def overflows (L : Link) : ℕ := L.forwarders.countP fun f ↦ f.stage = .overflowing

/-- A forwarder tries to send the message of an observation.  The queue may be `full` although it
has room: its last places may be kept for overflows that have waited for them. -/
def trySend (L : Link) (k : ℕ) (f : Forwarder) (poll : UpdateSubscriptionPoll) (message : Message)
    (full : Bool) : Option Link :=
  if full then
    if L.events.length + L.overflows < connectionEventQueueCapacity then none
    else some (L.setForwarder k { f with stage := .overflowing, refused := true })
  else if connectionEventQueueCapacity ≤ L.events.length then none
  else
    let L := { L with events := L.events ++ [(k, message)] }
    if message.terminal then
      some (L.setForwarder k
        { f with stage := .returning, seen := f.seen ++ [poll], sent := some message })
    else some (L.setForwarder k { f with seen := f.seen ++ [poll] })

/-- A forwarder deals with an observation. -/
def handle (L : Link) (k : ℕ) (f : Forwarder) (poll : UpdateSubscriptionPoll) (full : Bool) :
    Option Link :=
  match poll, message? poll with
  -- `next` goes on until there is an observation
  | .pending, _ => none
  | poll, none => some (L.setForwarder k { f with stage := .returning, seen := f.seen ++ [poll] })
  | poll, some message => L.trySend k f poll message full

/-- The `CANCEL_UPDATE_SUBSCRIPTION` arm, up to where it awaits the forwarder. -/
def cancel (L : Link) (k : ℕ) : Link :=
  if k ∈ L.active then
    { L with
      phase := .cancelling k
      active := L.active.filter (· ≠ k)
      forwarders := L.forwarders.modify k fun f ↦ { f with cancelled := true } }
  else L.settle (.cancelled k) true

/-- The arm of the loop that receives an event. -/
def dequeue (L : Link) : Option Link :=
  match L.events with
  | [] => none
  | (k, .notification u) :: events => some { L with phase := .entering k u, events }
  | (k, message) :: events => some ({ L with events }.settle (.event k message) true)

def step (L : Link) : LinkAction → Option Link
  | .receive => if L.phase = .serving then some { L with phase := .handling } else none
  | .respond =>
    match L.phase with
    | .handling | .subscribing _ => some (L.settle .response true)
    | _ => none
  | .subscribe answers =>
    if L.phase = .serving ∧ L.hasRoom then some { L with phase := .subscribing answers } else none
  | .acknowledge receiver =>
    match L.phase with
    | .subscribing _ => some ({ L with
        forwarders := L.forwarders ++ [Forwarder.start receiver]
        active := L.active ++ [L.forwarders.length] }.settle
          (.acknowledgement L.forwarders.length) true)
    | _ => none
  | .cancel k => if L.phase = .serving then some (L.cancel k) else none
  | .finishCancel =>
    match L.phase with
    | .cancelling k => L.task k .returned fun _ ↦ some (L.settle (.cancelled k) true)
    | _ => none
  | .join k =>
    if L.phase = .serving then L.task k .returned fun f ↦
      some (L.setForwarder k { f with joined := true }).retain
    else none
  | .dequeue => if L.phase = .serving then L.dequeue else none
  | .enter =>
    match L.phase with
    | .entering k u => some { L with phase := .checking k u }
    | _ => none
  | .checked authorized =>
    match L.phase with
    | .checking k u =>
      if authorized then some { L with phase := .writing k u }
      else some (L.settle (.event k (.notification u)) false)
    | _ => none
  | .written =>
    match L.phase with
    | .writing k u => some (L.settle (.event k (.notification u)) true)
    | _ => none
  | .leave => if L.phase = .ended then none else some { L with phase := .ended }
  | .handle k poll full => L.task k .polling fun f ↦ L.handle k f poll full
  | .observeCancel k => L.task k .polling fun f ↦
    if f.cancelled then some (L.setForwarder k { f with stage := .cancelling }) else none
  | .sendOverflow k => L.task k .overflowing fun f ↦
    if L.events.length < connectionEventQueueCapacity then
      some ({ L with events := L.events ++ [(k, Message.overflow)] }.setForwarder k
        { f with stage := .returning, sent := some .overflow })
    else none
  | .abandonOverflow k => L.task k .overflowing fun f ↦
    if f.cancelled then some (L.setForwarder k { f with stage := .returning }) else none
  | .drop k => L.task k .cancelling fun f ↦ some (L.setForwarder k { f with stage := .returning })
  | .finish k => L.task k .returning fun f ↦ some (L.setForwarder k { f with stage := .returned })

end Link

end Renee.Emission
