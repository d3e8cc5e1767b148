import Renee.Store.Authorization
import Renee.Wire.UpdateRecord

/-!
# Accepting an update

`accept_internal` as a transaction on the tables, and the payload fetch.

An update that is new takes the next acceptance position of its document, adds its peers to the
document's union and its ranges to the index.  The union is kept incrementally: `insertPeersFrom`
inserts one peer after another, counting only those that were not there, and gives up as soon as
the count passes the limit — after it has already written some of them, which is why the caller
must roll back.
-/

set_option autoImplicit false

namespace Renee

open ByteString Relational

/-- Durable accept result. -/
inductive StoreAcceptOutcome
  | inserted
  | alreadyPresent
  | identifierConflict
  | counterExhausted
  | limitExceeded
  | authorizationDenied
deriving DecidableEq

/-- The number of peers of a document. -/
def peerCount (t : Tables) (d : DocumentId) : ℕ :=
  t.documentLoroPeers.rows.countP fun row ↦ row.documentId = d

/-- Insert the peers of some ranges, counting the new ones; `false` when there are too many. -/
def insertPeersFrom (d : DocumentId) :
    List LoroRange → ℕ → Tables → Except StoreError (Bool × Tables)
  | [], _, tx => .ok (true, tx)
  | range :: ranges, count, tx =>
    match tx.insertOrIgnoreDocumentLoroPeer ⟨d, range.peerId⟩ with
    | .error e => .error e
    | .ok (inserted, tx) =>
      match checkedAdd 64 count inserted with
      | none => .error (.corrupt "document Loro peer count overflowed")
      | some count =>
        if count > maxLoroPeers then .ok (false, tx)
        else insertPeersFrom d ranges count tx

/-- `insert_document_loro_peers`. -/
def insertDocumentLoroPeers (tx : Tables) (update : ImmutableUpdate) :
    Except StoreError (Bool × Tables) :=
  if peerCount tx update.documentId > maxLoroPeers then .ok (false, tx)
  else insertPeersFrom update.documentId update.publicLoroRanges.ranges
    (peerCount tx update.documentId) tx

/-- The rows of an update in the range index. -/
def rangeRows (update : ImmutableUpdate) : List UpdateLoroRangeRow :=
  update.publicLoroRanges.ranges.map fun range ↦
    ⟨update.documentId, update.updateId, range.peerId, range.startCounter, range.endCounter⟩

/-- `insert_update_ranges`. -/
def insertUpdateRanges (tx : Tables) (update : ImmutableUpdate) : Except StoreError Tables :=
  (rangeRows update).foldlM Tables.insertUpdateLoroRange tx

/-- The next acceptance position of a document. -/
def nextSequence (t : Tables) (d : DocumentId) : AcceptanceSequence :=
  match t.documentAcceptanceSequences.find? d with
  | some row => row.nextSequence
  | none => .first

/-- `INSERT INTO updates`, with the checks of its columns. -/
def insertUpdateRecord (tx : Tables) (d : DocumentId) (u : UpdateId)
    (sequence : AcceptanceSequence) (encodedRecord : List UInt8) : Except StoreError Tables :=
  if h : 0 < sequence.get ∧ 0 < encodedRecord.length ∧ encodedRecord.length ≤ 4024 then
    tx.insertUpdate ⟨d, u, sequence, encodedRecord, h.1, h.2⟩
  else .error .sqlite

section Hash

variable (sha256 : List UInt8 → Bytes verifierLength)

/-- `accept_internal`, up to the notification of subscribers once it has committed. -/
def acceptIn (c : CapabilityId) (a : Authenticator) (update : ImmutableUpdate)
    (encodedRecord : List UInt8) (tx : Tables) : Except StoreError (Ending StoreAcceptOutcome) :=
  let documentId := update.documentId
  let updateId := update.updateId
  if !authorize sha256 tx documentId c a .update then .ok (.rollback .authorizationDenied)
  else match tx.updates.find? (documentId, updateId) with
  | some existing =>
    if existing.encodedRecord = encodedRecord then .ok (.rollback .alreadyPresent)
    else .ok (.rollback .identifierConflict)
  | none =>
    let sequence := nextSequence tx documentId
    match sequence.checkedNext with
    | none => .ok (.rollback .counterExhausted)
    | some followingSequence => do
      let (fits, tx) ← insertDocumentLoroPeers tx update
      if !fits then pure (.rollback .limitExceeded)
      else do
        let tx ← tx.upsertAcceptanceSequence ⟨documentId, followingSequence⟩
        let tx ← insertUpdateRecord tx documentId updateId sequence encodedRecord
        let tx ← insertUpdateRanges tx update
        pure (.commit .inserted tx)

def accept (t : Tables) (c : CapabilityId) (a : Authenticator) (update : ImmutableUpdate)
    (encodedRecord : List UInt8) : Except StoreError StoreAcceptOutcome × Tables :=
  transaction t (acceptIn sha256 c a update encodedRecord)

/-! ## Reading a payload back -/

/-- Authorization-preserving read result. -/
inductive StoreReadOutcome (α : Type)
  | authorized (value : α)
  | authorizationDenied
deriving DecidableEq

/-- The payload of a stored update. -/
def fetchIn (t : Tables) (d : DocumentId) (u : UpdateId) :
    Except StoreError (Option (List UInt8)) :=
  match t.updates.find? (d, u) with
  | none => .ok none
  | some row =>
    match decodeUpdateRecord row.encodedRecord with
    | .error _ => .error (.corrupt "stored update record is invalid")
    | .ok update =>
      if update.documentId ≠ d ∨ update.updateId ≠ u then
        .error (.corrupt "stored update identity disagrees with index")
      else .ok (some update.encryptedPayload)

/-- `fetch_authorized`. -/
def fetchAuthorized (t : Tables) (d : DocumentId) (u : UpdateId) (c : CapabilityId)
    (a : Authenticator) : Except StoreError (StoreReadOutcome (Option (List UInt8))) :=
  if !authorize sha256 t d c a .read then .ok .authorizationDenied
  else match fetchIn t d u with
  | .error e => .error e
  | .ok payload => .ok (.authorized payload)

end Hash

end Renee
