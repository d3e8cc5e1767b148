import Mathlib.Algebra.BigOperators.Group.List.Basic
import Mathlib.Data.BitVec
import Renee.Library.BinarySearch
import Renee.Library.Bytes

/-!
# The semantic vocabulary

What `renee-types` defines: opaque identifiers and secrets, acceptance sequences, Loro ranges and
versions, immutable updates, and operation sets.  Rust keeps the fields of these types private and
checks them in a constructor; here the verdict of the check is a field, so a value that exists has
passed it.

* Identifiers are sixteen opaque bytes; the kind is a parameter of the type, so that identifiers of
  different kinds cannot be confused.
* `u64` and `u32` quantities that are only counted with are natural numbers, and the additions the
  source checks are `checkedAdd`; a peer identifier, which ranges over all of `u64`, is a `U64`.
* `LoroRange`, `PublicLoroRanges` and `LoroOplogVersion` are built by their `new`, the validation of
  the source; `LoroRange.new_eq_ok_iff` and its siblings say that it accepts exactly the values
  the type describes.
* An `OperationSet` is a canonical bit set; `OperationSet.allows_iff` says what attenuation means
  for the operations contained.
-/

set_option autoImplicit false

namespace Renee

open ByteString

/-! ## Machine integers -/

/-- A `u64`. -/
abbrev U64 := Fin (2 ^ 64)

instance neZero_u64 : NeZero (2 ^ 64 : ℕ) := ⟨by decide⟩

/-- `checked_add` on unsigned integers of the given width. -/
def checkedAdd (width a b : ℕ) : Option ℕ := if a + b < 2 ^ width then some (a + b) else none

/-- `checked_mul` on unsigned integers of the given width. -/
def checkedMul (width a b : ℕ) : Option ℕ := if a * b < 2 ^ width then some (a * b) else none

theorem checkedAdd_eq_some {width a b : ℕ} (h : a + b < 2 ^ width) :
    checkedAdd width a b = some (a + b) := if_pos h

theorem checkedAdd_eq_some_iff {width a b c : ℕ} :
    checkedAdd width a b = some c ↔ a + b < 2 ^ width ∧ a + b = c := by
  rw [checkedAdd]
  split <;> simp_all

theorem checkedAdd_eq_none_iff {width a b : ℕ} : checkedAdd width a b = none ↔ 2 ^ width ≤ a +
    b := by
  rw [checkedAdd, ite_eq_right_iff, ← not_lt]
  exact ⟨fun h hlt ↦ absurd (h hlt) (by simp), fun h hlt ↦ absurd hlt h⟩

theorem checkedMul_eq_some {width a b : ℕ} (h : a * b < 2 ^ width) :
    checkedMul width a b = some (a * b) := if_pos h

/-! ## Identifiers and secrets -/

/-- Bytes in every public document and update identifier. -/
def identifierLength : ℕ := 16

/-- Bytes in every secret. -/
def secretLength : ℕ := 32

/-- What an identifier names. -/
inductive IdentifierKind
  | document
  | capability
  | createAuthority
  | request
  | update
deriving DecidableEq

/-- Sixteen opaque bytes naming something of the given kind. -/
@[ext] structure Identifier (kind : IdentifierKind) where
  /-- The opaque bytes. -/
  bytes : Bytes identifierLength
deriving DecidableEq

/-- An opaque service-wide document identifier. -/
abbrev DocumentId := Identifier .document

/-- An opaque capability identifier scoped to one document. -/
abbrev CapabilityId := Identifier .capability

/-- An opaque deployment-scoped document-creation authority identifier. -/
abbrev CreateAuthorityId := Identifier .createAuthority

/-- An opaque idempotency request identifier. -/
abbrev RequestId := Identifier .request

/-- An opaque immutable-update identifier scoped to one document. -/
abbrev UpdateId := Identifier .update

/-- Identifiers are compared as byte strings. -/
instance {kind : IdentifierKind} : LinearOrder (Identifier kind) :=
  LinearOrder.lift' Identifier.bytes fun _ _ h ↦ Identifier.ext h

instance {kind : IdentifierKind} : LawfulBEq (Identifier kind) := inferInstance

/-- A 32-byte bearer capability authenticator. -/
@[ext] structure Authenticator where
  /-- The secret bytes. -/
  bytes : Bytes secretLength
deriving DecidableEq

/-! ## Acceptance sequences -/

/-- Renee-owned document-scoped first-acceptance position: a `u64`. -/
@[ext] structure AcceptanceSequence where
  /-- The internal counter. -/
  get : ℕ
  /-- It is a `u64`. -/
  isLt : get < 2 ^ 64
deriving DecidableEq

namespace AcceptanceSequence

/-- Cursor origin before the first accepted update. -/
def origin : AcceptanceSequence := ⟨0, by decide⟩

/-- First accepted update in one document. -/
def first : AcceptanceSequence := ⟨1, by decide⟩

@[simp] theorem get_origin : origin.get = 0 := rfl

@[simp] theorem get_first : first.get = 1 := rfl

instance : LinearOrder AcceptanceSequence :=
  LinearOrder.lift' get fun _ _ h ↦ AcceptanceSequence.ext h

theorem le_def {s s' : AcceptanceSequence} : s ≤ s' ↔ s.get ≤ s'.get := Iff.rfl

theorem lt_def {s s' : AcceptanceSequence} : s < s' ↔ s.get < s'.get := Iff.rfl

/-- Advance within the acceptance-sequence domain. -/
def checkedNext (s : AcceptanceSequence) : Option AcceptanceSequence :=
  if h : s.get + 1 < 2 ^ 64 then some ⟨s.get + 1, h⟩ else none

theorem checkedNext_eq_some_iff {s s' : AcceptanceSequence} :
    s.checkedNext = some s' ↔ s'.get = s.get + 1 := by
  rw [checkedNext]
  constructor
  · intro h
    split at h
    · rw [Option.some_inj] at h; rw [← h]
    · exact absurd h (by simp)
  · intro h
    rw [dif_pos (h ▸ s'.isLt), Option.some_inj]
    exact AcceptanceSequence.ext h.symm

end AcceptanceSequence

/-! ## Public Loro metadata -/

/-- Maximum public Loro peers named by one immutable update. -/
def maxLoroPeers : ℕ := 256

/-- Largest counter representable by the pinned Loro profile. -/
def maxLoroCounter : ℕ := 0x7fffffff

/-- Maximum operations represented by one update's public ranges. -/
def maxUpdateOperations : ℕ := 0x00100000

/-- Structural failure in public Loro metadata. -/
inductive LoroMetadataError
  | empty
  | tooManyPeers
  | counterOutOfRange
  | emptyOrReversedRange
  | tooManyOperations
  | nonCanonicalPeerOrder
  | zeroVersionCounter
deriving DecidableEq

/-- One public, nonempty, half-open Loro operation range. -/
@[ext] structure LoroRange where
  /-- The persisted Loro replica peer. -/
  peerId : U64
  /-- The inclusive operation counter. -/
  startCounter : ℕ
  /-- The exclusive operation counter. -/
  endCounter : ℕ
  /-- Both counters fit the pinned profile. -/
  counters_le : startCounter ≤ maxLoroCounter ∧ endCounter ≤ maxLoroCounter
  /-- The range selects an operation. -/
  start_lt_end : startCounter < endCounter
  /-- It does not select too many. -/
  operations_le : endCounter - startCounter ≤ maxUpdateOperations
deriving DecidableEq

namespace LoroRange

/-- Validate one public range against the frozen v1 Loro profile. -/
def new (peerId : U64) (startCounter endCounter : ℕ) : Except LoroMetadataError LoroRange :=
  if hc : startCounter > maxLoroCounter ∨ endCounter > maxLoroCounter then
    .error .counterOutOfRange
  else if he : startCounter ≥ endCounter then .error .emptyOrReversedRange
  else if ho : endCounter - startCounter > maxUpdateOperations then .error .tooManyOperations
  else .ok ⟨peerId, startCounter, endCounter, by omega, by omega, by omega⟩

theorem new_eq_ok_iff {peerId : U64} {startCounter endCounter : ℕ} {r : LoroRange} :
    new peerId startCounter endCounter = .ok r ↔
      r.peerId = peerId ∧ r.startCounter = startCounter ∧ r.endCounter = endCounter := by
  rw [new]
  constructor
  · intro h
    split at h
    · exact absurd h (by simp)
    split at h
    · exact absurd h (by simp)
    split at h
    · exact absurd h (by simp)
    rw [Except.ok.injEq] at h
    exact h ▸ ⟨rfl, rfl, rfl⟩
  · rintro ⟨rfl, rfl, rfl⟩
    have hc := r.counters_le
    have he := r.start_lt_end
    have ho := r.operations_le
    rw [dif_neg (by omega), dif_neg (by omega), dif_neg (by omega)]

/-- How many operations the range selects. -/
def operationCount (r : LoroRange) : ℕ := r.endCounter - r.startCounter

end LoroRange

/-- Canonical, nonempty public Loro metadata for one update. -/
@[ext] structure PublicLoroRanges where
  /-- The canonical public ranges. -/
  ranges : List LoroRange
  /-- There is one. -/
  ne_nil : ranges ≠ []
  /-- There are not too many. -/
  length_le : ranges.length ≤ maxLoroPeers
  /-- Peers strictly ascend. -/
  sorted : ranges.Pairwise fun r r' ↦ r.peerId < r'.peerId
  /-- Together they do not select too many operations. -/
  operations_le : (ranges.map LoroRange.operationCount).sum ≤ maxUpdateOperations
deriving DecidableEq

namespace PublicLoroRanges

/-- Walk over the ranges, holding the previous peer and the operations counted so far. -/
def checkRanges : Option U64 → ℕ → List LoroRange → Except LoroMetadataError Unit
  | _, _, [] => .ok ()
  | previousPeer, operationCount, range :: ranges =>
    if previousPeer.any fun peer ↦ range.peerId ≤ peer then .error .nonCanonicalPeerOrder
    else match checkedAdd 32 operationCount range.operationCount with
      | none => .error .tooManyOperations
      | some operationCount =>
        if operationCount > maxUpdateOperations then .error .tooManyOperations
        else checkRanges (some range.peerId) operationCount ranges

theorem checkRanges_eq_ok_iff {previousPeer : Option U64} {count : ℕ} {ranges : List LoroRange}
    (hcount : count ≤ maxUpdateOperations) :
    checkRanges previousPeer count ranges = .ok () ↔
      (∀ peer ∈ previousPeer, ∀ r ∈ ranges, peer < r.peerId) ∧
      (ranges.Pairwise fun r r' ↦ r.peerId < r'.peerId) ∧
      count + (ranges.map LoroRange.operationCount).sum ≤ maxUpdateOperations := by
  induction ranges generalizing previousPeer count with
  | nil => simp [checkRanges, hcount]
  | cons r rs ih =>
    have hr := r.operations_le
    have hsmall : count + r.operationCount < 2 ^ 32 := by
      rw [LoroRange.operationCount]; simp only [maxUpdateOperations] at hr hcount; omega
    have hprev : (previousPeer.any fun peer ↦ r.peerId ≤ peer) = true ↔
        ¬∀ peer ∈ previousPeer, peer < r.peerId := by
      cases previousPeer <;> simp
    rw [checkRanges, checkedAdd_eq_some hsmall]
    simp only [hprev, List.pairwise_cons, List.map_cons, List.sum_cons]
    by_cases hp : ∀ peer ∈ previousPeer, peer < r.peerId
    · rw [if_neg (by simpa using hp)]
      by_cases hc : count + r.operationCount > maxUpdateOperations
      · rw [if_pos hc]
        refine ⟨fun h ↦ absurd h (by simp), fun h ↦ ?_⟩
        omega
      · rw [if_neg hc, ih (by omega)]
        constructor
        · rintro ⟨hlt, hs, hsum⟩
          refine ⟨fun peer hpeer x hx ↦ ?_, ⟨hlt _ rfl, hs⟩, by omega⟩
          rcases List.mem_cons.mp hx with rfl | hx
          · exact hp peer hpeer
          · exact lt_trans (hp peer hpeer) (hlt _ rfl x hx)
        · rintro ⟨-, ⟨hlt, hs⟩, hsum⟩
          exact ⟨fun peer hpeer x hx ↦ Option.some_inj.mp hpeer ▸ hlt x hx, hs, by omega⟩
    · rw [if_pos hp]
      refine ⟨fun h ↦ absurd h (by simp), fun h ↦ absurd (fun peer hpeer ↦ ?_) hp⟩
      exact h.1 peer hpeer r (List.mem_cons_self ..)

/-- Validate peer ordering, uniqueness, and aggregate work. -/
def new (ranges : List LoroRange) : Except LoroMetadataError PublicLoroRanges :=
  if h0 : ranges = [] then .error .empty
  else if hl : ranges.length > maxLoroPeers then .error .tooManyPeers
  else match h : checkRanges none 0 ranges with
    | .error e => .error e
    | .ok () =>
      have hc := (checkRanges_eq_ok_iff (Nat.zero_le _)).mp h
      .ok ⟨ranges, h0, Nat.le_of_not_lt hl, hc.2.1, by simpa using hc.2.2⟩

theorem new_eq_ok_iff {ranges : List LoroRange} {p : PublicLoroRanges} :
    new ranges = .ok p ↔ p.ranges = ranges := by
  rw [new]
  constructor
  · intro h
    split at h
    · exact absurd h (by simp)
    split at h
    · exact absurd h (by simp)
    split at h
    · exact absurd h (by simp)
    · rw [Except.ok.injEq] at h
      rw [← h]
  · rintro rfl
    rw [dif_neg p.ne_nil, dif_neg (Nat.not_lt.mpr p.length_le)]
    have hok : checkRanges none 0 p.ranges = .ok () :=
      (checkRanges_eq_ok_iff (Nat.zero_le _)).mpr
        ⟨fun _ h ↦ (by simp at h), p.sorted, by simpa using p.operations_le⟩
    split
    · rename_i h; rw [hok] at h; exact absurd h (by simp)
    · rfl

/-- The peers, in ascending order. -/
def peers (p : PublicLoroRanges) : List U64 := p.ranges.map LoroRange.peerId

end PublicLoroRanges

/-! ## Loro versions -/

/-- One non-zero peer prefix in a canonical Loro oplog version. -/
@[ext] structure LoroOplogVersionEntry where
  /-- The Loro replica peer. -/
  peerId : U64
  /-- The exclusive peer-prefix end. -/
  endCounter : ℕ
  /-- The prefix is not empty. -/
  end_pos : 0 < endCounter
  /-- The counter fits the pinned profile. -/
  end_le : endCounter ≤ maxLoroCounter
deriving DecidableEq

namespace LoroOplogVersionEntry

/-- Create one bounded non-empty peer prefix. -/
def new (peerId : U64) (endCounter : ℕ) : Except LoroMetadataError LoroOplogVersionEntry :=
  if h0 : endCounter = 0 then .error .zeroVersionCounter
  else if hc : endCounter > maxLoroCounter then .error .counterOutOfRange
  else .ok ⟨peerId, endCounter, Nat.pos_of_ne_zero h0, Nat.le_of_not_lt hc⟩

theorem new_eq_ok_iff {peerId : U64} {endCounter : ℕ} {e : LoroOplogVersionEntry} :
    new peerId endCounter = .ok e ↔ e.peerId = peerId ∧ e.endCounter = endCounter := by
  rw [new]
  constructor
  · intro h
    split at h
    · exact absurd h (by simp)
    split at h
    · exact absurd h (by simp)
    rw [Except.ok.injEq] at h
    exact h ▸ ⟨rfl, rfl⟩
  · rintro ⟨rfl, rfl⟩
    rw [dif_neg (Nat.pos_iff_ne_zero.mp e.end_pos), dif_neg (Nat.not_lt.mpr e.end_le)]

end LoroOplogVersionEntry

/-- Canonical bounded public representation of Loro `oplogVersion()`: at most `maxLoroPeers`
entries whose peers strictly ascend. -/
@[ext] structure LoroOplogVersion where
  /-- The canonical ordered entries. -/
  entries : List LoroOplogVersionEntry
  /-- There are not too many. -/
  length_le : entries.length ≤ maxLoroPeers
  /-- Peers strictly ascend. -/
  sorted : entries.Pairwise fun e e' ↦ e.peerId < e'.peerId
deriving DecidableEq

namespace LoroOplogVersion

/-- Walk over the entries, holding the previous peer. -/
def checkEntries : Option U64 → List LoroOplogVersionEntry → Except LoroMetadataError Unit
  | _, [] => .ok ()
  | previousPeer, entry :: entries =>
    if previousPeer.any fun peer ↦ entry.peerId ≤ peer then .error .nonCanonicalPeerOrder
    else checkEntries (some entry.peerId) entries

theorem checkEntries_eq_ok_iff {previousPeer : Option U64} {entries : List LoroOplogVersionEntry} :
    checkEntries previousPeer entries = .ok () ↔
      (∀ peer ∈ previousPeer, ∀ e ∈ entries, peer < e.peerId) ∧
      entries.Pairwise fun e e' ↦ e.peerId < e'.peerId := by
  induction entries generalizing previousPeer with
  | nil => simp [checkEntries]
  | cons e es ih =>
    have hprev : (previousPeer.any fun peer ↦ e.peerId ≤ peer) = true ↔
        ¬∀ peer ∈ previousPeer, peer < e.peerId := by
      cases previousPeer <;> simp
    rw [checkEntries]
    simp only [hprev, List.pairwise_cons]
    by_cases hp : ∀ peer ∈ previousPeer, peer < e.peerId
    · rw [if_neg (by simpa using hp), ih]
      constructor
      · rintro ⟨hlt, hs⟩
        refine ⟨fun peer hpeer x hx ↦ ?_, hlt _ rfl, hs⟩
        rcases List.mem_cons.mp hx with rfl | hx
        · exact hp peer hpeer
        · exact lt_trans (hp peer hpeer) (hlt _ rfl x hx)
      · rintro ⟨-, hlt, hs⟩
        exact ⟨fun peer hpeer x hx ↦ Option.some_inj.mp hpeer ▸ hlt x hx, hs⟩
    · rw [if_pos hp]
      refine ⟨fun h ↦ absurd h (by simp), fun h ↦ absurd (fun peer hpeer ↦ ?_) hp⟩
      exact h.1 peer hpeer e (List.mem_cons_self ..)

/-- Validate strict peer ordering, uniqueness, and the frozen peer bound. -/
def new (entries : List LoroOplogVersionEntry) : Except LoroMetadataError LoroOplogVersion :=
  if hl : entries.length > maxLoroPeers then .error .tooManyPeers
  else match h : checkEntries none entries with
    | .error e => .error e
    | .ok () => .ok ⟨entries, Nat.le_of_not_lt hl, (checkEntries_eq_ok_iff.mp h).2⟩

theorem new_eq_ok_iff {entries : List LoroOplogVersionEntry} {v : LoroOplogVersion} :
    new entries = .ok v ↔ v.entries = entries := by
  rw [new]
  constructor
  · intro h
    split at h
    · exact absurd h (by simp)
    split at h
    · exact absurd h (by simp)
    · rw [Except.ok.injEq] at h
      rw [← h]
  · rintro rfl
    rw [dif_neg (Nat.not_lt.mpr v.length_le)]
    have hok : checkEntries none v.entries = .ok () :=
      checkEntries_eq_ok_iff.mpr ⟨fun _ h ↦ (by simp at h), v.sorted⟩
    split
    · rename_i h; rw [hok] at h; exact absurd h (by simp)
    · rfl

/-- The covered prefix end for one peer, or zero when absent. -/
def endCounterFor (v : LoroOplogVersion) (peerId : U64) : ℕ :=
  match BinarySearch.search? LoroOplogVersionEntry.peerId v.entries peerId with
  | none => 0
  | some index => (v.entries[index]?.map LoroOplogVersionEntry.endCounter).getD 0

/-- A listed peer is covered up to its entry. -/
theorem endCounterFor_of_mem {v : LoroOplogVersion} {e : LoroOplogVersionEntry}
    (h : e ∈ v.entries) : v.endCounterFor e.peerId = e.endCounter := by
  obtain ⟨i, hi⟩ := List.mem_iff_getElem?.mp h
  have hs := (BinarySearch.search?_eq_some_iff v.sorted).mpr ⟨e, hi, rfl⟩
  simp only [endCounterFor, hs, hi, Option.map_some, Option.getD_some]

/-- A peer that is not listed is not covered at all. -/
theorem endCounterFor_eq_zero {v : LoroOplogVersion} {peerId : U64}
    (h : ∀ e ∈ v.entries, e.peerId ≠ peerId) : v.endCounterFor peerId = 0 := by
  cases hs : BinarySearch.search? LoroOplogVersionEntry.peerId v.entries peerId with
  | none => simp only [endCounterFor, hs]
  | some i =>
    obtain ⟨e, he, hp⟩ := (BinarySearch.search?_eq_some_iff v.sorted).mp hs
    exact absurd hp (h e (List.mem_of_getElem? he))

end LoroOplogVersion

/-! ## Updates -/

/-- One immutable update as understood by Renee. -/
@[ext] structure ImmutableUpdate where
  /-- The update's document. -/
  documentId : DocumentId
  /-- The immutable document-scoped update identifier. -/
  updateId : UpdateId
  /-- The visible normalized Loro metadata. -/
  publicLoroRanges : PublicLoroRanges
  /-- The opaque encrypted bytes. -/
  encryptedPayload : List UInt8
deriving DecidableEq

/-- Public metadata returned by update enumeration. -/
@[ext] structure UpdateMetadata where
  /-- Opaque encrypted payload length. -/
  encryptedPayloadLength : ℕ
  /-- Visible normalized Loro ranges. -/
  publicLoroRanges : PublicLoroRanges
  /-- Immutable document-scoped update identifier. -/
  updateId : UpdateId
deriving DecidableEq

/-! ## Operations -/

/-- One operation that a document capability may authorize. -/
inductive Operation
  | read
  | update
  | checkpoint
  | blobRead
  | blobPut
  | signalSend
  | signalReceive
  | grant
  | revoke
  | retire
deriving DecidableEq

namespace Operation

/-- Every operation, in the order of its code. -/
def all : List Operation :=
  [read, update, checkpoint, blobRead, blobPut, signalSend, signalReceive, grant, revoke, retire]

theorem mem_all (operation : Operation) : operation ∈ all := by
  cases operation <;> decide

/-- The stable code of an operation. -/
def code : Operation → ℕ
  | read => 0
  | update => 1
  | checkpoint => 2
  | blobRead => 3
  | blobPut => 4
  | signalSend => 5
  | signalReceive => 6
  | grant => 7
  | revoke => 8
  | retire => 9

/-- The bit of an operation in an operation set. -/
def mask : Operation → BitVec 16
  | read => 0x0001#16
  | update => 0x0002#16
  | checkpoint => 0x0004#16
  | blobRead => 0x0008#16
  | blobPut => 0x0010#16
  | signalSend => 0x0020#16
  | signalReceive => 0x0040#16
  | grant => 0x0080#16
  | revoke => 0x0100#16
  | retire => 0x0200#16

theorem mask_eq_twoPow (operation : Operation) :
    operation.mask = BitVec.twoPow 16 operation.code := by
  cases operation <;> rfl

theorem code_lt (operation : Operation) : operation.code < 10 := by cases operation <;> decide

/-- Every bit of the full set belongs to an operation. -/
theorem exists_code {i : ℕ} (h : i < 10) : ∃ operation : Operation, operation.code = i := by
  have hi : ∀ i < 10, ∃ operation ∈ all, operation.code = i := by decide
  obtain ⟨operation, -, hop⟩ := hi i h
  exact ⟨operation, hop⟩

end Operation

/-- The bits of the full root-capability operation set. -/
def fullBits : BitVec 16 := 0x03ff#16

/-- A normalized set of document capability operations. -/
@[ext] structure OperationSet where
  /-- The stable bit representation. -/
  bits : BitVec 16
  /-- No bit outside the ten operations is set. -/
  canonical : bits &&& ~~~fullBits = 0#16
deriving DecidableEq

namespace OperationSet

/-- The empty operation set, which capability creation must reject. -/
def empty : OperationSet := ⟨0#16, by decide⟩

/-- The full root-capability operation set. -/
def full : OperationSet := ⟨fullBits, by decide⟩

/-- Reconstruct a canonical operation set from its stable bit representation. -/
def fromBits (bits : BitVec 16) : Option OperationSet :=
  if h : bits &&& ~~~fullBits = 0#16 then some ⟨bits, h⟩ else none

/-- A singleton operation set. -/
def one (operation : Operation) : OperationSet :=
  ⟨operation.mask, by cases operation <;> decide⟩

/-- Whether the set contains an operation. -/
def contains (s : OperationSet) (operation : Operation) : Bool :=
  s.bits &&& operation.mask != 0#16

/-- The union of two operation sets. -/
def union (s s' : OperationSet) : OperationSet :=
  ⟨s.bits ||| s'.bits, by
    rw [BitVec.and_comm, BitVec.and_or_distrib_left, BitVec.and_comm _ s.bits,
      BitVec.and_comm _ s'.bits, s.canonical, s'.canonical]
    rfl⟩

/-- Whether `candidate` is an attenuation of this set. -/
def allows (s candidate : OperationSet) : Bool :=
  candidate.bits != 0#16 && candidate.bits &&& ~~~s.bits == 0#16

/-- Whether the set is empty. -/
def isEmpty (s : OperationSet) : Bool := s.bits == 0#16

/-- The number of operations in the set. -/
def countOnes (s : OperationSet) : ℕ := (List.range 16).countP fun i ↦ s.bits.getLsbD i

variable {s s' : OperationSet} {operation : Operation}

theorem contains_eq_getLsbD : s.contains operation = s.bits.getLsbD operation.code := by
  rw [contains, Operation.mask_eq_twoPow, BitVec.and_twoPow]
  cases h : s.bits.getLsbD operation.code
  · simp
  · have hlt := operation.code_lt
    simp only [if_true, bne_iff_ne, ne_eq]
    intro h0
    have hbit := congrArg (fun b ↦ b.getLsbD operation.code) h0
    simp only [BitVec.getLsbD_twoPow, BitVec.getLsbD_zero] at hbit
    simp at hbit
    omega

/-- Beyond the operations there are no bits. -/
theorem getLsbD_eq_false (s : OperationSet) {i : ℕ} (h : 10 ≤ i) : s.bits.getLsbD i = false := by
  by_cases hi : i < 16
  · have hbit := congrArg (fun b ↦ b.getLsbD i) s.canonical
    simp only [BitVec.getLsbD_and, BitVec.getLsbD_not, BitVec.getLsbD_zero] at hbit
    have hfull : ∀ i < 16, 10 ≤ i → fullBits.getLsbD i = false := by decide
    rw [hfull i hi h, decide_eq_true hi, Bool.not_false, Bool.and_true, Bool.and_true] at hbit
    exact hbit
  · exact BitVec.getLsbD_of_ge _ _ (by omega)

/-- **A set is determined by what it contains.** -/
theorem ext_contains (h : ∀ operation, s.contains operation = s'.contains operation) : s = s' := by
  refine OperationSet.ext (BitVec.eq_of_getLsbD_eq fun i _ ↦ ?_)
  by_cases hi : i < 10
  · obtain ⟨operation, rfl⟩ := Operation.exists_code hi
    rw [← contains_eq_getLsbD, ← contains_eq_getLsbD, h]
  · rw [s.getLsbD_eq_false (by omega), s'.getLsbD_eq_false (by omega)]

@[simp] theorem contains_empty : empty.contains operation = false := by
  cases operation <;> rfl

@[simp] theorem contains_full : full.contains operation = true := by
  cases operation <;> rfl

@[simp] theorem contains_one {operation' : Operation} :
    (one operation).contains operation' = decide (operation = operation') := by
  cases operation <;> cases operation' <;> rfl

@[simp] theorem contains_union :
    (s.union s').contains operation = (s.contains operation || s'.contains operation) := by
  simp [contains_eq_getLsbD, union]

theorem isEmpty_iff : s.isEmpty = true ↔ ∀ operation, s.contains operation = false := by
  rw [isEmpty, beq_iff_eq]
  constructor
  · intro h operation
    rw [contains_eq_getLsbD, h, BitVec.getLsbD_zero]
  · intro h
    have hs : s = empty := ext_contains fun operation ↦ by simp [h]
    exact congrArg OperationSet.bits hs

/-- **Attenuation: a nonempty set of operations that are all there.** -/
theorem allows_iff : s.allows s' = true ↔
    s'.isEmpty = false ∧ ∀ operation, s'.contains operation = true →
    s.contains operation = true := by
  rw [allows, Bool.and_eq_true, bne_iff_ne, ne_eq, beq_iff_eq, isEmpty, beq_eq_false_iff_ne]
  refine and_congr Iff.rfl ⟨fun h operation ho ↦ ?_, fun h ↦ ?_⟩
  · have hbit := congrArg (fun b ↦ b.getLsbD operation.code) h
    have hlt := operation.code_lt
    rw [contains_eq_getLsbD] at ho ⊢
    simp only [BitVec.getLsbD_and, BitVec.getLsbD_not, BitVec.getLsbD_zero, ho] at hbit
    simpa [show operation.code < 16 by omega] using hbit
  · refine BitVec.eq_of_getLsbD_eq fun i hi ↦ ?_
    rw [BitVec.getLsbD_and, BitVec.getLsbD_not, BitVec.getLsbD_zero]
    by_cases hlt : i < 10
    · obtain ⟨operation, rfl⟩ := Operation.exists_code hlt
      cases hs : s'.bits.getLsbD operation.code
      · rfl
      · have hc := h operation (by rw [contains_eq_getLsbD, hs])
        rw [contains_eq_getLsbD] at hc
        simp [hc]
    · rw [s'.getLsbD_eq_false (by omega), Bool.false_and]

/-- The number of operations is the number of operations contained. -/
theorem countOnes_eq : s.countOnes = Operation.all.countP s.contains := by
  have hall : Operation.all.map Operation.code = List.range 10 := by decide
  have hsplit : List.range 16 = List.range 10 ++ [10, 11, 12, 13, 14, 15] := by decide
  rw [countOnes, hsplit, List.countP_append, ← hall, List.countP_map]
  have hhigh : [10, 11, 12, 13, 14, 15].countP (fun i ↦ s.bits.getLsbD i) = 0 := by
    rw [List.countP_eq_zero]
    intro i hi
    rw [s.getLsbD_eq_false (by simp at hi; omega)]
    simp
  rw [hhigh, Nat.add_zero]
  exact List.countP_congr fun operation _ ↦ by rw [Function.comp_apply, contains_eq_getLsbD]

end OperationSet

end Renee
