import Renee.Library.Interference
import Renee.Library.Transition
import Renee.Subscription.Registry

/-!
# The subscription registry among its users

`Renee.Subscription.Registry` takes every operation as one step.  Only the operations of the
registry itself are behind the mutex of the store: `next`, `cancel` and `drop` act on the receiving
half of a subscription without it, and so does whoever gives up the lease of a channel.  Here each
operation is a program of the atomic accesses that the source makes to what it shares, and the
accesses of all parties interleave.

* `Shared` is what is shared: the cells of the subscriptions, which channel leases have been given
  up, and which sending halves have been dropped.  A cell that has not been handed out is as new,
  and the lease of a channel that has not been opened has not been given up.
* `RegistryFields` is what only the holder of the mutex reaches.
* `RegistryCall.program` translates the operations of the registry, `nextProgram`, `selectProgram`
  and `cancelProgram` those of a receiver.
* `RegistrySystem.step` is the system: the holder of the mutex, any number of receivers, and the
  owners of the channels.  A receiver is used by one party at a time, and a channel is not given up
  while an operation borrows it.
-/

set_option autoImplicit false

namespace Renee

open ByteString Interference

/-! ## What is shared -/

/-- What the registry shares with the receivers and with the owners of the channels. -/
structure Shared where
  cells : ℕ → SubscriptionCell
  /-- The channel leases that nothing holds any more. -/
  lost : List ℕ
  /-- The subscriptions whose sending half has been dropped. -/
  dropped : List ℕ

/-- Why `try_send` does not take a notification. -/
inductive TrySendError
  | full
  | closed
deriving DecidableEq

/-- What one poll of `recv` finds. -/
inductive RecvPoll
  | update (u : UpdateId)
  | empty
  | disconnected
deriving DecidableEq

/-- An atomic access. -/
inductive SharedAccess
  /-- Load the state word of a subscription. -/
  | load (id : ℕ)
  /-- `invalidate`. -/
  | invalidate (id : ℕ) (reason : UpdateSubscriptionEnd)
  /-- Upgrade a weak reference to the lease of a channel. -/
  | upgrade (channelId : ℕ)
  | trySend (id : ℕ) (u : UpdateId)
  /-- Whether the receiver has been closed. -/
  | isClosed (id : ℕ)
  | dropSender (id : ℕ)
  | dropLease (channelId : ℕ)
  /-- Whether the loss of a channel has been signalled. -/
  | changed (channelId : ℕ)
  | recv (id : ℕ)
  | close (id : ℕ)

/-- What an access is answered with. -/
@[reducible] def SharedAccess.Answer : SharedAccess → Type
  | .load _ => UInt8
  | .upgrade _ | .isClosed _ | .changed _ => Bool
  | .trySend _ _ => Except TrySendError Unit
  | .recv _ => RecvPoll
  | .invalidate _ _ | .dropSender _ | .dropLease _ | .close _ => Unit

namespace Shared

def setCell (s : Shared) (id : ℕ) (cell : SubscriptionCell) : Shared :=
  { s with cells := Function.update s.cells id cell }

/-- What an access answers and does. -/
def exec : (access : SharedAccess) → Shared → access.Answer × Shared
  | .load id, s => ((s.cells id).state, s)
  | .invalidate id reason, s => ((), s.setCell id ((s.cells id).invalidate reason))
  | .upgrade channelId, s => (!s.lost.contains channelId, s)
  | .trySend id u, s =>
    let cell := s.cells id
    if cell.closed then (.error .closed, s)
    else if updateNotificationQueueCapacity ≤ cell.queue.length then (.error .full, s)
    else (.ok (), s.setCell id { cell with queue := cell.queue ++ [u] })
  | .isClosed id, s => ((s.cells id).closed, s)
  | .dropSender id, s => ((), { s with dropped := id :: s.dropped })
  | .dropLease channelId, s => ((), { s with lost := channelId :: s.lost })
  | .changed channelId, s => (s.lost.contains channelId, s)
  | .recv id, s =>
    let cell := s.cells id
    match cell.queue with
    | u :: queue => (.update u, s.setCell id { cell with queue })
    | [] => (if cell.closed || s.dropped.contains id then .disconnected else .empty, s)
  | .close id, s => ((), s.setCell id { s.cells id with closed := true })

end Shared

/-- A program of accesses. -/
abbrev SharedProgram (α : Type) : Type := Program SharedAccess.Answer α

namespace SharedProgram

def load (id : ℕ) : SharedProgram UInt8 := Program.perform (SharedAccess.load id)

def invalidate (id : ℕ) (reason : UpdateSubscriptionEnd) : SharedProgram Unit :=
  Program.perform (SharedAccess.invalidate id reason)

def upgrade (channelId : ℕ) : SharedProgram Bool := Program.perform (SharedAccess.upgrade channelId)

def trySend (id : ℕ) (u : UpdateId) : SharedProgram (Except TrySendError Unit) :=
  Program.perform (SharedAccess.trySend id u)

def isClosed (id : ℕ) : SharedProgram Bool := Program.perform (SharedAccess.isClosed id)

def dropSender (id : ℕ) : SharedProgram Unit := Program.perform (SharedAccess.dropSender id)

def dropLease (channelId : ℕ) : SharedProgram Unit :=
    Program.perform (SharedAccess.dropLease channelId)

def changed (channelId : ℕ) : SharedProgram Bool := Program.perform (SharedAccess.changed channelId)

def recv (id : ℕ) : SharedProgram RecvPoll := Program.perform (SharedAccess.recv id)

def close (id : ℕ) : SharedProgram Unit := Program.perform (SharedAccess.close id)

/-! ## The operations of the registry -/

/-- `Vec::retain`: what the closure does not keep is dropped, and its sending half with it. -/
def retain (closure : SubscriptionEntry → SharedProgram Bool) (entries : List SubscriptionEntry) :
    SharedProgram (List SubscriptionEntry) :=
  Program.filter (fun entry ↦ do
    let keep ← closure entry
    if !keep then dropSender entry.subscriptionId
    return keep) entries

/-- The closure of `prune`. -/
def pruneEntry (entry : SubscriptionEntry) : SharedProgram Bool := do
  if (← load entry.subscriptionId) ≠ active then
    return false
  if !(← upgrade entry.channelId) then
    invalidate entry.subscriptionId .channelLost
    return false
  return !(← isClosed entry.subscriptionId)

/-- The closure of `notify`. -/
def notifyEntry (d : DocumentId) (u : UpdateId) (entry : SubscriptionEntry) :
    SharedProgram Bool := do
  if (← load entry.subscriptionId) ≠ active then
    return false
  if !(← upgrade entry.channelId) then
    invalidate entry.subscriptionId .channelLost
    return false
  if entry.documentId ≠ d then
    return true
  match ← trySend entry.subscriptionId u with
  | .ok () => return true
  | .error .full =>
    invalidate entry.subscriptionId .overflowed
    return false
  | .error .closed =>
    invalidate entry.subscriptionId .cancelled
    return false

/-- The closure that ends the entries a condition picks out. -/
def invalidateEntry (p : SubscriptionEntry → Bool) (reason : UpdateSubscriptionEnd)
    (entry : SubscriptionEntry) : SharedProgram Bool := do
  if p entry then
    invalidate entry.subscriptionId reason
    return false
  return true

/-- The closure of `close_channel`. -/
def closeChannelEntry (channelId : ℕ) (entry : SubscriptionEntry) : SharedProgram Bool := do
  if (← upgrade entry.channelId) && decide (entry.channelId = channelId) then
    invalidate entry.subscriptionId .channelLost
    return false
  return true

/-- How many entries are on a channel that is not lost. -/
def countChannel (channelId : ℕ) : List SubscriptionEntry → SharedProgram ℕ
  | [] => return 0
  | entry :: entries => do
    let alive ← upgrade entry.channelId
    let count ← countChannel channelId entries
    return if alive && decide (entry.channelId = channelId) then count + 1 else count

end SharedProgram

open SharedProgram

/-- What only the holder of the mutex reaches. -/
structure RegistryFields where
  broker : ℕ
  nextChannelId : ℕ
  nextSubscriptionId : ℕ
  subscriptions : List SubscriptionEntry

namespace RegistryFields

def new (broker : ℕ) : RegistryFields := ⟨broker, 1, 1, []⟩

def recognizes (fields : RegistryFields) (channel : BrokerChannel) : Bool :=
  fields.broker = channel.broker

end RegistryFields

/-- An operation of the registry. -/
inductive RegistryCall
  | openChannel
  | register (channel : BrokerChannel) (d : DocumentId) (c : CapabilityId)
  | notify (d : DocumentId) (u : UpdateId)
  | invalidateSubscriptions (subscriptionIds : List ℕ) (reason : UpdateSubscriptionEnd)
  | invalidateDocument (d : DocumentId) (reason : UpdateSubscriptionEnd)
  | closeChannel (channel : BrokerChannel)
  | shutdown
deriving DecidableEq

/-- What an operation returns. -/
inductive RegistryReply
  | done
  | channel (channel : Option BrokerChannel)
  | registered (result : Except UpdateSubscriptionRegistry.RegisterError SubscriptionEntry)
deriving DecidableEq

/-- What an operation leaves to the next one, and what it returns. -/
structure RegistryOutcome where
  fields : RegistryFields
  reply : RegistryReply

/-- One pass over the entries, and nothing to return. -/
def retaining (fields : RegistryFields) (closure : SubscriptionEntry → SharedProgram Bool) :
    SharedProgram RegistryOutcome := do
  let subscriptions ← SharedProgram.retain closure fields.subscriptions
  return ⟨{ fields with subscriptions }, .done⟩

def registerProgram (fields : RegistryFields) (channel : BrokerChannel) (d : DocumentId)
    (c : CapabilityId) : SharedProgram RegistryOutcome := do
  if !fields.recognizes channel then
    return ⟨fields, .registered (.error .invalidChannel)⟩
  let subscriptions ← SharedProgram.retain pruneEntry fields.subscriptions
  let channelCount ← countChannel channel.id subscriptions
  let documentCount := subscriptions.countP fun entry ↦ entry.documentId = d
  if maxUpdateSubscriptions ≤ subscriptions.length ∨
      maxUpdateSubscriptionsPerChannel ≤ channelCount ∨
      maxUpdateSubscriptionsPerDocument ≤ documentCount then
    return ⟨{ fields with subscriptions }, .registered (.error .backpressure)⟩
  match checkedAdd 64 fields.nextSubscriptionId 1 with
  | none => return ⟨{ fields with subscriptions }, .registered (.error .backpressure)⟩
  | some nextSubscriptionId =>
    let entry : SubscriptionEntry := ⟨c, channel.id, d, fields.nextSubscriptionId⟩
    return ⟨{ fields with nextSubscriptionId, subscriptions := subscriptions ++ [entry] },
      .registered (.ok entry)⟩

namespace RegistryCall

/-- What an operation does with the fields it finds. -/
def program (fields : RegistryFields) : RegistryCall → SharedProgram RegistryOutcome
  | openChannel =>
    match checkedAdd 64 fields.nextChannelId 1 with
    | none => return ⟨fields, .channel none⟩
    | some nextChannelId =>
      return ⟨{ fields with nextChannelId },
        .channel (some ⟨fields.broker, fields.nextChannelId⟩)⟩
  | register channel d c => registerProgram fields channel d c
  | notify d u => retaining fields (notifyEntry d u)
  | invalidateSubscriptions subscriptionIds reason =>
    retaining fields
      (invalidateEntry (fun entry ↦ subscriptionIds.contains entry.subscriptionId) reason)
  | invalidateDocument d reason =>
    retaining fields (invalidateEntry (fun entry ↦ entry.documentId = d) reason)
  | closeChannel channel =>
    if !fields.recognizes channel then return ⟨fields, .done⟩
    else do
      let outcome ← retaining fields (closeChannelEntry channel.id)
      dropLease channel.id
      return outcome
  | shutdown => retaining fields (invalidateEntry (fun _ ↦ true) .brokerShutdown)

/-- The channel that is passed to an operation. -/
def channel? : RegistryCall → Option BrokerChannel
  | register channel _ _ | closeChannel channel => some channel
  | _ => none

end RegistryCall

/-! ## The operations of a receiver -/

/-- `ended`: a subscription whose channel is lost ends when it is looked at. -/
def endedProgram (entry : SubscriptionEntry) : SharedProgram (Option UpdateSubscriptionEnd) := do
  if !(← upgrade entry.channelId) then
    invalidate entry.subscriptionId .channelLost
  return decodeEnd (← load entry.subscriptionId)

open UpdateSubscriptionRegistry (UpdateSubscriptionPoll)

/-- One poll of the two branches that `next` waits for; the loss of the channel comes first. -/
def selectProgram (entry : SubscriptionEntry) : SharedProgram UpdateSubscriptionPoll := do
  if ← changed entry.channelId then
    invalidate entry.subscriptionId .channelLost
    return .invalidated ((← endedProgram entry).getD .channelLost)
  match ← recv entry.subscriptionId with
  | .empty => return .pending
  | .disconnected => return .invalidated ((← endedProgram entry).getD .brokerShutdown)
  | .update u =>
    match ← endedProgram entry with
    | none => return .notification u
    | some reason => return .invalidated reason

/-- `next`, until it waits. -/
def nextProgram (entry : SubscriptionEntry) : SharedProgram UpdateSubscriptionPoll := do
  match ← endedProgram entry with
  | some reason => return .invalidated reason
  | none => selectProgram entry

def cancelProgram (entry : SubscriptionEntry) : SharedProgram Unit := do
  invalidate entry.subscriptionId .cancelled
  close entry.subscriptionId

/-! ## The system -/

/-- What is being done with a receiver. -/
inductive ReceiverPhase
  | idle
  /-- `next` is running. -/
  | running (program : SharedProgram UpdateSubscriptionPoll)
  /-- `next` waits to be polled again. -/
  | waiting
  /-- `cancel` is running, called by `drop` or not. -/
  | cancelling (dropping : Bool) (program : SharedProgram Unit)
  | dropped

/-- A subscription that was handed out. -/
structure Receiver where
  /-- What it was registered as. -/
  entry : SubscriptionEntry
  phase : ReceiverPhase
  /-- What `next` has returned, oldest first. -/
  returned : List UpdateSubscriptionPoll

/-- An operation that holds the mutex. -/
structure RegistryHolder where
  call : RegistryCall
  program : SharedProgram RegistryOutcome

structure RegistrySystem where
  fields : RegistryFields
  shared : Shared
  holder : Option RegistryHolder
  /-- The subscriptions in the order in which they were handed out. -/
  receivers : List Receiver
  /-- What the operations of the registry have returned, oldest first. -/
  answered : List (RegistryCall × RegistryReply)

inductive RegistryAction
  /-- Take the mutex for an operation. -/
  | call (call : RegistryCall)
  /-- The next access of the operation that holds the mutex. -/
  | work
  | dropChannel (channelId : ℕ)
  | next (receiver : ℕ)
  /-- Poll a `next` that waits. -/
  | poll (receiver : ℕ)
  /-- Give up a `next` that waits. -/
  | forget (receiver : ℕ)
  | cancel (receiver : ℕ)
  | drop (receiver : ℕ)
  /-- The next access of what is being done with a receiver. -/
  | proceed (receiver : ℕ)
deriving DecidableEq

namespace RegistrySystem

def new (broker : ℕ) : RegistrySystem := ⟨.new broker, ⟨fun _ ↦ .new, [], []⟩, none, [], []⟩

/-- The channel can be passed to an operation: it is of another broker, or it was opened here and
its lease is held. -/
def canPass (system : RegistrySystem) (channel : BrokerChannel) : Bool :=
  !system.fields.recognizes channel ||
    (decide (channel.id < system.fields.nextChannelId) && !system.shared.lost.contains channel.id)

/-- The channel is borrowed by the operation that holds the mutex. -/
def borrowed (system : RegistrySystem) (channelId : ℕ) : Bool :=
  (system.holder.bind fun holder ↦ holder.call.channel?).any fun channel ↦
    system.fields.recognizes channel && decide (channel.id = channelId)

/-- An operation goes on, or returns and gives up the mutex. -/
def advance (system : RegistrySystem) (call : RegistryCall) :
    SharedProgram RegistryOutcome → RegistrySystem
  | .result outcome =>
    { system with
      fields := outcome.fields
      holder := none
      receivers := match outcome.reply with
        | .registered (.ok entry) => system.receivers ++ [⟨entry, .idle, []⟩]
        | _ => system.receivers
      answered := system.answered ++ [(call, outcome.reply)] }
  | program => { system with holder := some ⟨call, program⟩ }

def setReceiver (system : RegistrySystem) (i : ℕ) (receiver : Receiver) : RegistrySystem :=
  { system with receivers := system.receivers.set i receiver }

/-- `next` goes on, or waits, or returns. -/
def advanceNext (receiver : Receiver) : SharedProgram UpdateSubscriptionPoll → Receiver
  | .result .pending => { receiver with phase := .waiting }
  | .result poll => { receiver with phase := .idle, returned := receiver.returned ++ [poll] }
  | program => { receiver with phase := .running program }

/-- `cancel` goes on or returns. -/
def advanceCancel (receiver : Receiver) (dropping : Bool) : SharedProgram Unit → Receiver
  | .result () => { receiver with phase := if dropping then .dropped else .idle }
  | program => { receiver with phase := .cancelling dropping program }

/-- Begin something with a receiver. -/
def begin (system : RegistrySystem) (i : ℕ) (start : Receiver → Option Receiver) :
    Option RegistrySystem :=
  (system.receivers[i]?.bind start).map (system.setReceiver i)

/-- The next access of what is being done with a receiver. -/
def proceed (system : RegistrySystem) (i : ℕ) : Option RegistrySystem :=
  match system.receivers[i]? with
  | some receiver =>
    match receiver.phase with
    | .running (.access o k) =>
      let (answer, shared) := system.shared.exec o
      some ({ system with shared }.setReceiver i (advanceNext receiver (k answer)))
    | .cancelling dropping (.access o k) =>
      let (answer, shared) := system.shared.exec o
      some ({ system with shared }.setReceiver i (advanceCancel receiver dropping (k answer)))
    | _ => none
  | none => none

/-- One step of the system. -/
def step (system : RegistrySystem) : RegistryAction → Option RegistrySystem
  | .call call =>
    if system.holder.isNone ∧ call.channel?.all system.canPass then
      some (system.advance call (call.program system.fields))
    else none
  | .work =>
    match system.holder with
    | some ⟨call, .access o k⟩ =>
      let (answer, shared) := system.shared.exec o
      some ({ system with shared }.advance call (k answer))
    | _ => none
  | .dropChannel channelId =>
    if channelId < system.fields.nextChannelId ∧ !system.borrowed channelId then
      some { system with shared := (system.shared.exec (.dropLease channelId)).2 }
    else none
  | .next i => system.begin i fun receiver ↦
    match receiver.phase with
    | .idle => some (advanceNext receiver (nextProgram receiver.entry))
    | _ => none
  | .poll i => system.begin i fun receiver ↦
    match receiver.phase with
    | .waiting => some (advanceNext receiver (selectProgram receiver.entry))
    | _ => none
  | .forget i => system.begin i fun receiver ↦
    match receiver.phase with
    | .waiting => some { receiver with phase := .idle }
    | _ => none
  | .cancel i => system.begin i fun receiver ↦
    match receiver.phase with
    | .idle => some (advanceCancel receiver false (cancelProgram receiver.entry))
    | _ => none
  | .drop i => system.begin i fun receiver ↦
    match receiver.phase with
    | .idle => some (advanceCancel receiver true (cancelProgram receiver.entry))
    | _ => none
  | .proceed i => system.proceed i

end RegistrySystem

end Renee
