import Renee.Service.Entitlement
import Renee.Service.ForwardingRun

/-!
# A connection among the users of the store

The loop of a connection and its forwarders, with the store and everybody else who uses it: what
`Link.step` takes from its surroundings is here what is there.

* `System.others` is what the other connections, the owners of other channels and the control plane
  do; they have no hold of the receivers and of the channel of the connection while it is open.
* A revocation is executed while its handler has the gate of the document for itself
  (`with_document_emission_exclusion`); the loop has it for reading while it checks and writes a
  notification (`write_connection_event_after_dequeue`).  A gate belongs to a document, since
  `emission_gate` gives whoever asks the one that is in use.
* A forwarder polls its receiver, and deals with what `next` has returned.
-/

set_option autoImplicit false

namespace Renee.Emission

open ByteString Interference SharedProgram
open UpdateSubscriptionRegistry (UpdateSubscriptionPoll)

/-- `is_authorized`. -/
def authorizedProgram (entry : SubscriptionEntry) : SharedProgram Bool := do
  if !(← upgrade entry.channelId) then
    return false
  return decide ((← load entry.subscriptionId) = active)

structure System where
  shared : SharedStore
  /-- The documents whose gate somebody has for himself. -/
  excluded : List DocumentId
  /-- The document of the revocation that has the mutex. -/
  control : Option DocumentId
  /-- The channel that the connection has opened. -/
  channel : BrokerChannel
  link : Link
  /-- How far `is_authorized` is, while the loop checks. -/
  check : SharedProgram Bool

inductive Action
  /-- Somebody else does something. -/
  | other (action : SharedAction)
  | exclude (d : DocumentId)
  | release (d : DocumentId)
  /-- A subscription is asked for, with authority. -/
  | subscribe (d : DocumentId) (c : CapabilityId) (a : Authenticator)
  /-- The next access of the check. -/
  | look
  /-- A forwarder polls `next`. -/
  | poll (k : ℕ)
  /-- The next access of what a forwarder does with its receiver. -/
  | proceed (k : ℕ)
  /-- A forwarder that has been cancelled gives up a `next` that waits. -/
  | forget (k : ℕ)
  | link (action : LinkAction)

/-- The document of a revocation that takes the mutex. -/
def SharedAction.revoked? : SharedAction → Option DocumentId
  | .request (.revoke r) => some r.documentId
  | _ => none

/-- The forwarder that goes on to something else. -/
def LinkAction.forwarder? : LinkAction → Option ℕ
  | .handle k _ _ | .observeCancel k | .sendOverflow k | .abandonOverflow k | .drop k => some k
  | _ => none

namespace System

/-- What a forwarder polls. -/
def receiver? (m : System) (k : ℕ) : Option Receiver :=
  m.link.forwarders[k]?.bind fun f ↦ m.shared.registry.receivers[f.receiver]?

/-- Which of the receivers a registration has got. -/
def ticket (m : System) (answers : ℕ) : ℕ :=
  (handedOut (m.shared.registry.answered.take answers)).length

/-- The receiver is a forwarder's, or about to be. -/
def owns (m : System) (i : ℕ) : Bool :=
  m.link.forwarders.any (·.receiver = i) ||
    match m.link.phase with
    | .subscribing answers => i = m.ticket answers &&
      m.shared.registry.answered[answers]?.any fun answer ↦ answer.2.registered?.isSome
    | _ => false

/-- The document whose gate the loop has. -/
def guarded (m : System) : Option DocumentId :=
  match m.link.phase with
  | .checking k _ | .writing k _ => (m.receiver? k).map (·.entry.documentId)
  | _ => none

/-! ## The others -/

/-- The action is about something that the connection has for itself. -/
def disturbs (m : System) : SharedAction → Bool
  | .request (.closeChannel channel) => channel = m.channel
  | .user (.dropChannel channelId) => channelId = m.channel.id
  | .user action => action.receiver?.any m.owns
  | _ => false

def permits (m : System) (action : SharedAction) : Bool :=
  (SharedAction.revoked? action).all m.excluded.contains &&
    (decide (m.link.phase = .ended) || !m.disturbs action)

section Hash

variable (sha256 : List UInt8 → Bytes verifierLength)

def others (m : System) (action : SharedAction) : Option System :=
  if m.permits action then
    (m.shared.step sha256 action).map fun shared ↦ { m with
      shared
      control :=
        if shared.registry.holder.isNone && shared.revoking.isNone then none
        else (SharedAction.revoked? action).or m.control }
  else none

/-! ## The connection -/

/-- The connection does something with the receiver of a forwarder. -/
def user (m : System) (k : ℕ) (action : ℕ → RegistryAction) : Option System :=
  m.link.forwarders[k]?.bind fun f ↦
    (m.shared.step sha256 (.user (action f.receiver))).map fun shared ↦ { m with shared }

/-- A subscription is asked for, which the registry hears of. -/
def subscribe (m : System) (d : DocumentId) (c : CapabilityId) (a : Authenticator) :
    Option System :=
  let request := Request.subscribe ⟨m.channel, d, c, a⟩
  if (m.shared.store.registryCall? sha256 request).isSome then
    (m.link.step (.subscribe m.shared.registry.answered.length)).bind fun link ↦
      (m.shared.step sha256 (.request request)).map fun shared ↦ { m with link, shared }
  else none

/-- A forwarder that has dealt with everything that it has observed polls `next`. -/
def poll (m : System) (k : ℕ) : Option System :=
  match m.link.forwarders[k]?, m.receiver? k with
  | some f, some receiver =>
    if m.link.phase ≠ .ended ∧ f.stage = .polling ∧ f.cancelled = false then
      match receiver.phase with
      | .idle => if receiver.returned = f.seen then m.user sha256 k .next else none
      | .waiting => m.user sha256 k .poll
      | _ => none
    else none
  | _, _ => none

/-- A forwarder that has been cancelled gives up a `next` that waits. -/
def forget (m : System) (k : ℕ) : Option System :=
  match m.link.forwarders[k]? with
  | some f =>
    if m.link.phase ≠ .ended ∧ f.stage = .polling ∧ f.cancelled then
      m.user sha256 k .forget else none
  | none => none

end Hash

/-- The next access of the check. -/
def look (m : System) : Option System :=
  match m.link.phase, m.check with
  | .checking _ _, .access o k =>
    let (answer, shared) := m.shared.registry.shared.exec o
    some { m with
      shared := { m.shared with registry := { m.shared.registry with shared } }
      check := k answer }
  | _, _ => none

/-- Nothing is being done with the receiver of a forwarder. -/
def rests (m : System) (k : ℕ) (p : Forwarder → Receiver → Bool) : Bool :=
  match m.link.forwarders[k]?, m.receiver? k with
  | some f, some receiver =>
    match receiver.phase with
    | .idle => p f receiver
    | _ => false
  | _, _ => false

/-- What a step of the connection takes from its surroundings is there. -/
def sees (m : System) : LinkAction → Bool
  | .respond =>
    match m.link.phase with
    | .subscribing answers => m.shared.registry.answered[answers]?.any fun answer ↦
      answer.2 = .registered (.error .backpressure)
    | _ => true
  | .subscribe _ => false
  | .acknowledge receiver =>
    match m.link.phase with
    | .subscribing answers => decide (receiver = m.ticket answers) &&
      m.shared.registry.answered[answers]?.any fun answer ↦ answer.2.registered?.isSome
    | _ => false
  | .enter =>
    match m.link.phase with
    | .entering k _ => (m.receiver? k).any fun receiver ↦
      !m.excluded.contains receiver.entry.documentId
    | _ => false
  | .checked authorized =>
    match m.check with
    | .result outcome => outcome = authorized
    | _ => false
  | .handle k poll _ => m.rests k fun f receiver ↦ receiver.returned = f.seen ++ [poll]
  | .observeCancel k => m.rests k fun f receiver ↦ receiver.returned = f.seen
  | .sendOverflow k | .abandonOverflow k | .drop k => m.rests k fun _ _ ↦ true
  | .finish k => (m.receiver? k).any fun receiver ↦
    match receiver.phase with
    | .dropped => true
    | _ => false
  | _ => true

/-- The check begins when the loop has got the gate. -/
def checkAfter (m : System) (action : LinkAction) : SharedProgram Bool :=
  match action, m.link.phase with
  | .enter, .entering k _ => (m.receiver? k).elim (.result false) fun receiver ↦
    authorizedProgram receiver.entry
  | _, _ => m.check

section Hash

variable (sha256 : List UInt8 → Bytes verifierLength)

/-- A forwarder that has gone on to another stage begins what it does with its receiver there. -/
def follow (m : System) (k : ℕ) : Option System :=
  match m.link.forwarders[k]?.map Forwarder.stage with
  | some .overflowing | some .cancelling => m.user sha256 k .cancel
  | some .returning => m.user sha256 k .drop
  | _ => some m

/-- The connection does something. -/
def connection (m : System) (action : LinkAction) : Option System :=
  if m.sees action then
    (m.link.step action).bind fun link ↦
      match action.forwarder? with
      | some k => { m with link }.follow sha256 k
      | none => some { m with link, check := m.checkAfter action }
  else none

/-- One step. -/
def step (m : System) : Action → Option System
  | .other action => m.others sha256 action
  | .exclude d =>
    if m.excluded.contains d || decide (m.guarded = some d) then none
    else some { m with excluded := d :: m.excluded }
  | .release d =>
    if m.control = some d then none else some { m with excluded := m.excluded.erase d }
  | .subscribe d c a => m.subscribe sha256 d c a
  | .look => m.look
  | .poll k => m.poll sha256 k
  | .proceed k => if m.link.phase = .ended then none else m.user sha256 k .proceed
  | .forget k => m.forget sha256 k
  | .link action => m.connection sha256 action

end Hash

end System

end Renee.Emission
