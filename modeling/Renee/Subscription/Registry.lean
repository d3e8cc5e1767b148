import Renee.Store.Passes

/-!
# The subscription registry

Bounded broker-local update notification subscriptions.  The registry holds one entry for each
subscription it still feeds; the state word and the bounded queue of a subscription are shared
between its entry and the receiver that was handed out.

* What is shared lives in `cells`, under the number of the subscription, and outlives the entry: a
  receiver whose entry is gone still has its queue and its state word.  Likewise `openChannels`
  lists the channel leases that something still holds, which is what upgrading a weak reference
  finds out.
* `retain` is `Vec::retain` with a closure that may act on the shared half of the entry it looks at.
  `pruneEntry`, `notifyEntry` and the three invalidations are such closures.
* A state word leaves `ACTIVE` at most once: `invalidate` is a compare-and-exchange from there
  (`invalidate_of_ended`), so the first reason stays.
-/

set_option autoImplicit false

namespace Renee

open ByteString

/-! ## Limits and state words -/

def updateNotificationQueueCapacity : ℕ := 8
def maxUpdateSubscriptions : ℕ := 1024
def maxUpdateSubscriptionsPerChannel : ℕ := 32
def maxUpdateSubscriptionsPerDocument : ℕ := 128

/-- Explicit reason an acknowledged subscription is no longer complete. -/
inductive UpdateSubscriptionEnd
  | overflowed
  | cancelled
  | revoked
  | retired
  | channelLost
  | brokerShutdown
deriving DecidableEq

/-- The state word of a subscription that has not ended. -/
def active : UInt8 := 0

def encodeEnd : UpdateSubscriptionEnd → UInt8
  | .overflowed => 1
  | .cancelled => 2
  | .revoked => 3
  | .retired => 4
  | .channelLost => 5
  | .brokerShutdown => 6

def decodeEnd (state : UInt8) : Option UpdateSubscriptionEnd :=
  if state = active then none
  else if state = 1 then some .overflowed
  else if state = 2 then some .cancelled
  else if state = 3 then some .revoked
  else if state = 4 then some .retired
  else if state = 5 then some .channelLost
  else some .brokerShutdown

@[simp] theorem decodeEnd_active : decodeEnd active = none := rfl

@[simp] theorem decodeEnd_encodeEnd (reason : UpdateSubscriptionEnd) :
    decodeEnd (encodeEnd reason) = some reason := by cases reason <;> rfl

theorem encodeEnd_ne_active (reason : UpdateSubscriptionEnd) : encodeEnd reason ≠ active := by
  cases reason <;> decide

theorem decodeEnd_eq_none_iff {state : UInt8} : decodeEnd state = none ↔ state = active := by
  constructor
  · intro h
    rw [decodeEnd] at h
    split at h
    · assumption
    · iterate 5
        split at h
        · exact absurd h (by simp)
      exact absurd h (by simp)
  · rintro rfl
    rfl

/-! ## What a subscription shares with its entry -/

/-- The shared half of a subscription. -/
@[ext] structure SubscriptionCell where
  /-- The state word. -/
  state : UInt8
  /-- The notifications that have not been received, oldest first. -/
  queue : List UpdateId
  /-- Whether the receiver has been closed. -/
  closed : Bool
deriving DecidableEq

/-- The shared half of a new subscription. -/
def SubscriptionCell.new : SubscriptionCell := ⟨active, [], false⟩

/-- `invalidate`: the state word is exchanged only if it is still `ACTIVE`. -/
def SubscriptionCell.invalidate (cell : SubscriptionCell) (reason : UpdateSubscriptionEnd) :
    SubscriptionCell :=
  if cell.state = active then { cell with state := encodeEnd reason } else cell

theorem SubscriptionCell.invalidate_of_ended {cell : SubscriptionCell}
    {reason : UpdateSubscriptionEnd} (h : cell.state ≠ active) : cell.invalidate reason = cell :=
  if_neg h

@[simp] theorem SubscriptionCell.queue_invalidate (cell : SubscriptionCell)
    (reason : UpdateSubscriptionEnd) : (cell.invalidate reason).queue = cell.queue := by
  rw [invalidate]; split <;> rfl

@[simp] theorem SubscriptionCell.closed_invalidate (cell : SubscriptionCell)
    (reason : UpdateSubscriptionEnd) : (cell.invalidate reason).closed = cell.closed := by
  rw [invalidate]; split <;> rfl

theorem SubscriptionCell.state_invalidate_ne (cell : SubscriptionCell)
    (reason : UpdateSubscriptionEnd) : (cell.invalidate reason).state ≠ active := by
  rw [invalidate]
  split
  · exact encodeEnd_ne_active reason
  · assumption

/-! ## The registry -/

@[ext] structure SubscriptionEntry where
  capabilityId : CapabilityId
  channelId : ℕ
  documentId : DocumentId
  subscriptionId : ℕ
deriving DecidableEq

@[ext] structure UpdateSubscriptionRegistry where
  /-- The identity of the broker. -/
  broker : ℕ
  nextChannelId : ℕ
  nextSubscriptionId : ℕ
  subscriptions : List SubscriptionEntry
  /-- The channel leases that are still held. -/
  openChannels : List ℕ
  /-- The shared halves of the subscriptions. -/
  cells : ℕ → SubscriptionCell

/-- `retain` with a closure that sees the shared half of an entry and may change it. -/
def retain (closure : SubscriptionEntry → SubscriptionCell → Bool × SubscriptionCell) :
    List SubscriptionEntry → (ℕ → SubscriptionCell) →
      List SubscriptionEntry × (ℕ → SubscriptionCell)
  | [], cells => ([], cells)
  | entry :: entries, cells =>
    let (keep, cell) := closure entry (cells entry.subscriptionId)
    let (kept, cells) := retain closure entries (Function.update cells entry.subscriptionId cell)
    (if keep then entry :: kept else kept, cells)

namespace UpdateSubscriptionRegistry

def new (broker : ℕ) : UpdateSubscriptionRegistry :=
  ⟨broker, 1, 1, [], [], fun _ ↦ .new⟩

/-- Whether something still holds the lease of a channel. -/
def alive (registry : UpdateSubscriptionRegistry) (channelId : ℕ) : Bool :=
  registry.openChannels.contains channelId

def retain (registry : UpdateSubscriptionRegistry)
    (closure : SubscriptionEntry → SubscriptionCell → Bool × SubscriptionCell) :
    UpdateSubscriptionRegistry :=
  let (subscriptions, cells) := Renee.retain closure registry.subscriptions registry.cells
  { registry with subscriptions, cells }

def openChannel (registry : UpdateSubscriptionRegistry) :
    Option BrokerChannel × UpdateSubscriptionRegistry :=
  match checkedAdd 64 registry.nextChannelId 1 with
  | none => (none, registry)
  | some nextChannelId =>
    (some ⟨registry.broker, registry.nextChannelId⟩,
      { registry with
        nextChannelId
        openChannels := registry.nextChannelId :: registry.openChannels })

def recognizes (registry : UpdateSubscriptionRegistry) (channel : BrokerChannel) : Bool :=
  registry.broker = channel.broker

/-- Drop an entry whose subscription has ended or whose receiver is gone. -/
def pruneEntry (registry : UpdateSubscriptionRegistry) (entry : SubscriptionEntry)
    (cell : SubscriptionCell) : Bool × SubscriptionCell :=
  if cell.state ≠ active then (false, cell)
  else if !registry.alive entry.channelId then (false, cell.invalidate .channelLost)
  else (!cell.closed, cell)

def prune (registry : UpdateSubscriptionRegistry) : UpdateSubscriptionRegistry :=
  registry.retain registry.pruneEntry

/-- Why a subscription was not registered. -/
inductive RegisterError
  | invalidChannel
  | backpressure
deriving DecidableEq

/-- Install a subscription; the number of the new one is returned. -/
def register (registry : UpdateSubscriptionRegistry) (channel : BrokerChannel) (d : DocumentId)
    (c : CapabilityId) : Except RegisterError ℕ × UpdateSubscriptionRegistry :=
  if !registry.recognizes channel then (.error .invalidChannel, registry)
  else
    let registry := registry.prune
    let channelCount := registry.subscriptions.countP fun entry ↦
      registry.alive entry.channelId ∧ entry.channelId = channel.id
    let documentCount := registry.subscriptions.countP fun entry ↦ entry.documentId = d
    if maxUpdateSubscriptions ≤ registry.subscriptions.length ∨
        maxUpdateSubscriptionsPerChannel ≤ channelCount ∨
        maxUpdateSubscriptionsPerDocument ≤ documentCount then (.error .backpressure, registry)
    else match checkedAdd 64 registry.nextSubscriptionId 1 with
    | none => (.error .backpressure, registry)
    | some nextSubscriptionId =>
      (.ok registry.nextSubscriptionId,
        { registry with
          nextSubscriptionId
          subscriptions := registry.subscriptions ++
            [⟨c, channel.id, d, registry.nextSubscriptionId⟩]
          cells := Function.update registry.cells registry.nextSubscriptionId .new })

/-- The active subscriptions of a document. -/
def contexts (registry : UpdateSubscriptionRegistry) (d : DocumentId) : List SubscriptionEntry :=
  registry.subscriptions.filter fun entry ↦
    entry.documentId = d ∧ (registry.cells entry.subscriptionId).state = active ∧
      registry.alive entry.channelId

/-- Queue a notification, or end the subscription that cannot take it. -/
def notifyEntry (registry : UpdateSubscriptionRegistry) (d : DocumentId) (u : UpdateId)
    (entry : SubscriptionEntry) (cell : SubscriptionCell) : Bool × SubscriptionCell :=
  if cell.state ≠ active then (false, cell)
  else if !registry.alive entry.channelId then (false, cell.invalidate .channelLost)
  else if entry.documentId ≠ d then (true, cell)
  -- `try_send`
  else if cell.closed then (false, cell.invalidate .cancelled)
  else if updateNotificationQueueCapacity ≤ cell.queue.length then
    (false, cell.invalidate .overflowed)
  else (true, { cell with queue := cell.queue ++ [u] })

def notify (registry : UpdateSubscriptionRegistry) (d : DocumentId) (u : UpdateId) :
    UpdateSubscriptionRegistry :=
  registry.retain (registry.notifyEntry d u)

/-- End the subscriptions a condition picks out. -/
def invalidateWhere (registry : UpdateSubscriptionRegistry) (p : SubscriptionEntry → Bool)
    (reason : UpdateSubscriptionEnd) : UpdateSubscriptionRegistry :=
  registry.retain fun entry cell ↦
    if p entry then (false, cell.invalidate reason) else (true, cell)

def invalidateSubscriptions (registry : UpdateSubscriptionRegistry) (subscriptionIds : List ℕ)
    (reason : UpdateSubscriptionEnd) : UpdateSubscriptionRegistry :=
  registry.invalidateWhere (fun entry ↦ subscriptionIds.contains entry.subscriptionId) reason

def invalidateDocument (registry : UpdateSubscriptionRegistry) (d : DocumentId)
    (reason : UpdateSubscriptionEnd) : UpdateSubscriptionRegistry :=
  registry.invalidateWhere (fun entry ↦ entry.documentId = d) reason

/-- The lease of a channel is no longer held. -/
def dropChannel (registry : UpdateSubscriptionRegistry) (channelId : ℕ) :
    UpdateSubscriptionRegistry :=
  { registry with openChannels := registry.openChannels.filter fun id ↦ id ≠ channelId }

/-- End the subscriptions of a channel and give its lease up. -/
def closeChannel (registry : UpdateSubscriptionRegistry) (channel : BrokerChannel) :
    UpdateSubscriptionRegistry :=
  if !registry.recognizes channel then registry
  else (registry.invalidateWhere
    (fun entry ↦ registry.alive entry.channelId && decide (entry.channelId = channel.id))
    .channelLost).dropChannel channel.id

def shutdown (registry : UpdateSubscriptionRegistry) : UpdateSubscriptionRegistry :=
  registry.invalidateWhere (fun _ ↦ true) .brokerShutdown

/-! ## The receiving side -/

/-- What `next` observes. -/
inductive UpdateSubscriptionPoll
  | notification (u : UpdateId)
  | pending
  | invalidated (reason : UpdateSubscriptionEnd)
deriving DecidableEq

def setCell (registry : UpdateSubscriptionRegistry) (subscriptionId : ℕ)
    (cell : SubscriptionCell) : UpdateSubscriptionRegistry :=
  { registry with cells := Function.update registry.cells subscriptionId cell }

/-- `ended`: a subscription whose channel is lost ends when it is looked at. -/
def ended (registry : UpdateSubscriptionRegistry) (channelId : ℕ) (cell : SubscriptionCell) :
    Option UpdateSubscriptionEnd × SubscriptionCell :=
  let cell := if registry.alive channelId then cell else cell.invalidate .channelLost
  (decodeEnd cell.state, cell)

/-- Whether the registry still has the sending half of a subscription. -/
def feeds (registry : UpdateSubscriptionRegistry) (subscriptionId : ℕ) : Bool :=
  registry.subscriptions.any fun entry ↦ entry.subscriptionId = subscriptionId

/-- One poll of `next` on the subscription that was issued on the channel. -/
def next (registry : UpdateSubscriptionRegistry) (channelId subscriptionId : ℕ) :
    UpdateSubscriptionPoll × UpdateSubscriptionRegistry :=
  match registry.ended channelId (registry.cells subscriptionId) with
  | (some reason, cell) => (.invalidated reason, registry.setCell subscriptionId cell)
  | (none, cell) =>
    match cell.queue with
    | u :: queue =>
      (.notification u, registry.setCell subscriptionId { cell with queue })
    | [] =>
      if cell.closed || !registry.feeds subscriptionId then
        (.invalidated .brokerShutdown, registry.setCell subscriptionId cell)
      else (.pending, registry.setCell subscriptionId cell)

def cancel (registry : UpdateSubscriptionRegistry) (subscriptionId : ℕ) :
    UpdateSubscriptionRegistry :=
  registry.setCell subscriptionId
    { (registry.cells subscriptionId).invalidate .cancelled with closed := true }

end UpdateSubscriptionRegistry

end Renee
