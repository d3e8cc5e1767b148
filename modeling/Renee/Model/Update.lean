import Mathlib.Data.Finset.Card
import Mathlib.Data.Finset.Image
import Mathlib.Data.Prod.Lex
import Renee.Library.OrderedMap
import Renee.Types

/-!
# The update oracle

`UpdateModel`, the reference state machine for immutable updates that conformance tests compare a
server with.  It has no tables, no log and no pages: what has been accepted is in ordered maps, and
a window is a range of one of them.

* `UpdateModel.accept` is its one transition.
* `acceptanceWindow`, `vectorBackfill` and `fetch` are what can be asked of it.  `range` panics when
  it is asked for a window that ends before it starts, which is `none` here.
-/

set_option autoImplicit false

namespace Renee

/-- Result of accepting one document-scoped immutable update. -/
inductive AcceptOutcome
  /-- A previously unknown idempotency key was inserted. -/
  | inserted
  /-- The idempotency key already named the exact same immutable update. -/
  | alreadyPresent
  /-- The idempotency key already named different immutable input. -/
  | identifierConflict
  /-- The document-scoped acceptance sequence cannot advance. -/
  | counterExhausted
  /-- The document-wide Loro peer union exceeds the configured count limit. -/
  | limitExceeded
deriving DecidableEq

@[ext] structure AcceptedUpdate where
  sequence : AcceptanceSequence
  update : ImmutableUpdate

/-- Deterministic immutable-update oracle. -/
structure UpdateModel where
  acceptanceOrder : OrderedMap (DocumentId ×ₗ AcceptanceSequence) UpdateId
  documentPeers : OrderedMap DocumentId (Finset U64)
  nextSequences : OrderedMap DocumentId AcceptanceSequence
  updates : OrderedMap (DocumentId ×ₗ UpdateId) AcceptedUpdate

namespace UpdateModel

/-- The oracle before anything has been accepted. -/
def empty : UpdateModel := ⟨.empty, .empty, .empty, .empty⟩

/-- The last acceptance sequence there can be. -/
def maxSequence : AcceptanceSequence := ⟨2 ^ 64 - 1, by decide⟩

/-! ## Accepting -/

/-- The oracle with an update at a sequence. -/
def inserted (m : UpdateModel) (update : ImmutableUpdate)
    (sequence nextSequence : AcceptanceSequence) : UpdateModel where
  nextSequences := m.nextSequences.insert update.documentId nextSequence
  acceptanceOrder := m.acceptanceOrder.insert (toLex (update.documentId, sequence)) update.updateId
  documentPeers := m.documentPeers.insert update.documentId
    ((m.documentPeers.get? update.documentId).getD ∅ ∪
      (update.publicLoroRanges.ranges.map LoroRange.peerId).toFinset)
  updates := m.updates.insert (toLex (update.documentId, update.updateId)) ⟨sequence, update⟩

/-- Accepts an update idempotently under its document and its identifier. -/
def accept (m : UpdateModel) (update : ImmutableUpdate) : AcceptOutcome × UpdateModel :=
  match m.updates.get? (toLex (update.documentId, update.updateId)) with
  | some existing =>
    if existing.update = update then (.alreadyPresent, m) else (.identifierConflict, m)
  | none =>
    let sequence := (m.nextSequences.get? update.documentId).getD .first
    match sequence.checkedNext with
    | none => (.counterExhausted, m)
    | some nextSequence =>
      let existingPeers := m.documentPeers.get? update.documentId
      let additionalPeerCount := update.publicLoroRanges.ranges.countP fun range ↦
        existingPeers.all fun peers ↦ range.peerId ∉ peers
      if existingPeers.elim 0 Finset.card + additionalPeerCount > maxLoroPeers then
        (.limitExceeded, m)
      else (.inserted, m.inserted update sequence nextSequence)

/-! ## Reading -/

/-- The current inclusive document high-water sequence. -/
def highWaterSequence (m : UpdateModel) (d : DocumentId) : Option AcceptanceSequence :=
  (m.acceptanceOrder.entries.filter fun entry ↦
    toLex (d, .first) ≤ entry.1 ∧ entry.1 ≤ toLex (d, maxSequence)).getLast?.map fun entry ↦
      (ofLex entry.1).2

/-- What a window shows of an accepted update. -/
def metadata (accepted : AcceptedUpdate) : UpdateMetadata where
  encryptedPayloadLength :=
    if accepted.update.encryptedPayload.length < 2 ^ 32 then accepted.update.encryptedPayload.length
    else 2 ^ 32 - 1
  publicLoroRanges := accepted.update.publicLoroRanges
  updateId := accepted.update.updateId

def acceptanceWindow (m : UpdateModel) (d : DocumentId) (after : Option AcceptanceSequence)
    (terminal : AcceptanceSequence) : Option (List (AcceptanceSequence × UpdateMetadata)) :=
  let after := after.getD .origin
  if terminal < after then none
  else some ((m.acceptanceOrder.range (toLex (d, after)) (toLex (d, terminal))).filterMap
    fun entry ↦ (m.updates.get? (toLex (d, entry.2))).map fun accepted ↦
      ((ofLex entry.1).2, metadata accepted))

/-- Enumerates the members of one captured acceptance window. -/
def enumerate (m : UpdateModel) (d : DocumentId) (after : Option AcceptanceSequence)
    (terminal : AcceptanceSequence) : Option (List (AcceptanceSequence × UpdateMetadata)) :=
  m.acceptanceWindow d after terminal

/-- Selects metadata with an advertised range beyond the supplied Loro version. -/
def vectorBackfill (m : UpdateModel) (d : DocumentId) (oplogVersion : LoroOplogVersion)
    (after : Option AcceptanceSequence) (terminal : AcceptanceSequence) :
    Option (List (AcceptanceSequence × UpdateMetadata)) :=
  (m.acceptanceWindow d after terminal).map fun window ↦ window.filter fun entry ↦
    entry.2.publicLoroRanges.ranges.any fun range ↦
      oplogVersion.endCounterFor range.peerId < range.endCounter

/-- Fetches an authorized opaque payload by its complete idempotency key. -/
def fetch (m : UpdateModel) (d : DocumentId) (u : UpdateId) : Option (List UInt8) :=
  (m.updates.get? (toLex (d, u))).map fun accepted ↦ accepted.update.encryptedPayload

/-- The assigned first-acceptance sequence for conformance checks. -/
def acceptanceSequence (m : UpdateModel) (d : DocumentId) (u : UpdateId) :
    Option AcceptanceSequence :=
  (m.updates.get? (toLex (d, u))).map AcceptedUpdate.sequence

end UpdateModel

end Renee
