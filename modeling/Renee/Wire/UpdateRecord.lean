import Renee.Types
import Renee.Library.Codec

/-!
# The update record

The canonical byte form of one immutable update, as `renee-wire` reads and writes it, and the
length its metadata will take in a page.

* `decodeUpdateRecord` is the decoder and `encodeUpdateRecord` the encoder, check by check.
* `decodeUpdateRecord_eq_ok_iff` says what the decoder accepts: the bytes `recordBytes` spells out
  for the update, provided they fit a frame and the update's metadata fits a page.  So one update
  has one accepted record, `decodeUpdateRecord_injective`, and comparing the records of a store is
  comparing the updates.
-/

set_option autoImplicit false

namespace Renee

open ByteString ByteString.Reader

/-! ## Limits of the frame -/

/-- Maximum body length accepted by this experimental profile. -/
def maxBodyLength : ℕ := 4096

/-- Magic, version, message type, and correlation identifier overhead. -/
def envelopeHeaderLength : ℕ := 24

/-- Largest application payload inside one Renee frame body. -/
def maxApplicationPayloadLength : ℕ := maxBodyLength - envelopeHeaderLength

/-- Capability identifier plus authenticator attached to every update submission. -/
def capabilityAuthorityLength : ℕ := 16 + 32

/-- Largest canonical update record after reserving update authority. -/
def maxUpdateRecordLength : ℕ := maxApplicationPayloadLength - capabilityAuthorityLength

/-- Bytes of one range in a record. -/
def rangeLength : ℕ := 16

/-- Bytes of a record around its ranges and payload. -/
def recordFixedLength : ℕ := 50

/-- Fixed bytes in one opaque server-owned enumeration continuation. -/
def enumerationContinuationLength : ℕ := 32

/-- Bytes of a cursor-bearing page before its metadata. -/
def enumerateResponseWithCursorLength : ℕ := 1 + 2 + enumerationContinuationLength + 2

/-- Longest metadata that fits a page on its own. -/
def maxEnumerableMetadataLength : ℕ :=
  maxApplicationPayloadLength - enumerateResponseWithCursorLength

/-- The record discriminator, `CARBREC` and a zero byte. -/
def recordMagic : List UInt8 := [67, 65, 82, 66, 82, 69, 67, 0]

/-- The version of the record. -/
def recordVersion : ℕ := 1

/-- The Loro compatibility profile of the record. -/
def loroProfileCode : ℕ := 1

/-- Frozen update payload codec failure. -/
inductive UpdateCodecError
  | truncated
  | trailingBytes
  | invalidRecordMagic
  | unsupportedRecordVersion
  | unsupportedLoroProfile
  | invalidLoroMetadata
  | recordTooLong
  | metadataTooLong
  | emptyEncryptedPayload
  | invalidDiscriminant
  | invalidCursor
  | integerOutOfRange
  | unsupportedSubscriptionVersion
deriving DecidableEq

/-! ## Metadata lengths -/

/-- The exact bytes required by one metadata entry. -/
def metadataEncodedLength (metadata : UpdateMetadata) : Except UpdateCodecError ℕ :=
  match checkedMul 64 metadata.publicLoroRanges.ranges.length rangeLength with
  | none => .error .integerOutOfRange
  | some rangesLength =>
    match ((checkedAdd 64 identifierLength 2).bind (checkedAdd 64 · rangesLength)).bind
      (checkedAdd 64 · 4) with
    | none => .error .integerOutOfRange
    | some length => .ok length

/-- No metadata that exists is too long to be measured. -/
theorem metadataEncodedLength_eq (metadata : UpdateMetadata) :
    metadataEncodedLength metadata =
      .ok (22 + 16 * metadata.publicLoroRanges.ranges.length) := by
  have hlen := metadata.publicLoroRanges.length_le
  simp only [maxLoroPeers] at hlen
  rw [metadataEncodedLength, checkedMul_eq_some (by simp only [rangeLength]; omega)]
  simp only [rangeLength, identifierLength]
  rw [checkedAdd_eq_some (by omega), Option.bind_some, checkedAdd_eq_some (by omega),
    Option.bind_some, checkedAdd_eq_some (by omega)]
  exact congrArg Except.ok (by omega)

/-- Refuse an update whose metadata would not fit a page. -/
def ensureMetadataIsEnumerable (update : ImmutableUpdate) : Except UpdateCodecError Unit :=
  if update.encryptedPayload.length ≥ 2 ^ 32 then .error .integerOutOfRange
  else match metadataEncodedLength
      ⟨update.encryptedPayload.length, update.publicLoroRanges, update.updateId⟩ with
    | .error e => .error e
    | .ok length =>
      if length > maxEnumerableMetadataLength then .error .metadataTooLong else .ok ()

theorem ensureMetadataIsEnumerable_eq_ok_iff {update : ImmutableUpdate}
    (h : update.encryptedPayload.length < 2 ^ 32) :
    ensureMetadataIsEnumerable update = .ok () ↔
      22 + 16 * update.publicLoroRanges.ranges.length ≤ maxEnumerableMetadataLength := by
  rw [ensureMetadataIsEnumerable, if_neg (by omega), metadataEncodedLength_eq]
  simp only
  split
  · rename_i hlong
    exact ⟨fun h ↦ absurd h (by simp), fun h ↦ absurd h (by omega)⟩
  · rename_i hshort
    exact ⟨fun _ ↦ by omega, fun _ ↦ rfl⟩

/-! ## Reading a record -/

/-- Read a `u64`. -/
def readU64 : Reader UpdateCodecError U64 := do
  let bytes ← takeBytes .truncated 8
  pure ⟨bytes.toNat, bytes.toNat_lt⟩

/-- Read one range: peer, start and end. -/
def readRange : Reader UpdateCodecError LoroRange := do
  let peerId ← readU64
  let startCounter ← takeBe .truncated 4
  let endCounter ← takeBe .truncated 4
  lift ((LoroRange.new peerId startCounter endCounter).mapError fun _ ↦ .invalidLoroMetadata)

/-- Read the fields of a record, in their order. -/
def readUpdateRecord : Reader UpdateCodecError ImmutableUpdate := do
  let magic ← take .truncated 8
  check (magic = recordMagic) .invalidRecordMagic
  let version ← takeBe .truncated 2
  check (version = recordVersion) .unsupportedRecordVersion
  let profile ← takeBe .truncated 2
  check (profile = loroProfileCode) .unsupportedLoroProfile
  let documentId ← takeBytes .truncated identifierLength
  let updateId ← takeBytes .truncated identifierLength
  let rangeCount ← takeBe .truncated 2
  check (¬(rangeCount = 0 ∨ rangeCount > maxLoroPeers)) .invalidLoroMetadata
  let ranges ← many readRange rangeCount
  let publicLoroRanges ← lift ((PublicLoroRanges.new ranges).mapError fun _ ↦ .invalidLoroMetadata)
  let encryptedPayloadLength ← takeBe .truncated 4
  check (encryptedPayloadLength ≠ 0) .emptyEncryptedPayload
  let encryptedPayload ← take .truncated encryptedPayloadLength
  pure ⟨⟨documentId⟩, ⟨updateId⟩, publicLoroRanges, encryptedPayload⟩

/-- Decode one complete canonical update record. -/
def decodeUpdateRecord (encoded : List UInt8) : Except UpdateCodecError ImmutableUpdate :=
  if encoded.length > maxUpdateRecordLength then .error .recordTooLong
  else match readUpdateRecord encoded with
    | .error e => .error e
    | .ok (update, remaining) =>
      if remaining ≠ [] then .error .trailingBytes
      else match ensureMetadataIsEnumerable update with
        | .error e => .error e
        | .ok () => .ok update

/-! ## Writing a record -/

/-- The bytes of one range. -/
def rangeBytes (range : LoroRange) : List UInt8 :=
  toBe 8 range.peerId ++ (toBe 4 range.startCounter ++ toBe 4 range.endCounter)

/-- The fields of a record, in their order. -/
def recordBytes (update : ImmutableUpdate) : List UInt8 :=
  recordMagic ++ (toBe 2 recordVersion ++ (toBe 2 loroProfileCode ++
    (update.documentId.bytes.toList ++ (update.updateId.bytes.toList ++
      (toBe 2 update.publicLoroRanges.ranges.length ++
        (update.publicLoroRanges.ranges.flatMap rangeBytes ++
          (toBe 4 update.encryptedPayload.length ++ update.encryptedPayload)))))))

/-- Re-encode one update in the canonical durable v1 representation. -/
def encodeUpdateRecord (update : ImmutableUpdate) : Except UpdateCodecError (List UInt8) :=
  match ensureMetadataIsEnumerable update with
  | .error e => .error e
  | .ok () =>
    if update.publicLoroRanges.ranges.length ≥ 2 ^ 16 then .error .integerOutOfRange
    else if update.encryptedPayload.length ≥ 2 ^ 32 then .error .integerOutOfRange
    else if update.encryptedPayload.length = 0 then .error .emptyEncryptedPayload
    else match ((checkedMul 64 update.publicLoroRanges.ranges.length rangeLength).bind
        (checkedAdd 64 recordFixedLength)).bind
        (checkedAdd 64 · update.encryptedPayload.length) with
      | none => .error .recordTooLong
      | some encodedLength =>
        if encodedLength > maxUpdateRecordLength then .error .recordTooLong
        else .ok (recordBytes update)

/-! ## What is accepted -/

theorem run_readU64_eq_ok {input rest : List UInt8} {x : U64} :
    readU64 input = .ok (x, rest) ↔ input = toBe 8 x ++ rest := by
  simp only [readU64, run_bind_eq_ok, run_takeBytes_eq_ok, run_pure_eq_ok]
  constructor
  · rintro ⟨b, _, rfl, rfl, rfl⟩
    exact congrArg (· ++ _) b.toBe_toNat.symm
  · rintro rfl
    exact ⟨Bytes.ofNat 8 x, rest, rfl, Fin.ext (Bytes.toNat_ofNat x.isLt), rfl⟩

theorem mapError_eq_ok {ε ε' α : Type} {f : ε → ε'} {x : Except ε α} {a : α} :
    x.mapError f = .ok a ↔ x = .ok a := by
  cases x <;> simp [Except.mapError]

theorem readRange_canonical : Canonical readRange (fun _ ↦ True) rangeBytes := by
  intro input r rest
  simp only [readRange, run_bind_eq_ok, run_readU64_eq_ok, run_takeBe_eq_ok, run_lift_eq_ok,
    mapError_eq_ok, LoroRange.new_eq_ok_iff, rangeBytes, true_and]
  constructor
  · rintro ⟨_, _, rfl, _, _, ⟨-, rfl⟩, _, _, ⟨-, rfl⟩, ⟨rfl, rfl, rfl⟩, rfl⟩
    simp only [List.append_assoc]
  · rintro rfl
    have hc := r.counters_le
    simp only [maxLoroCounter] at hc
    exact ⟨r.peerId, _, List.append_assoc .., r.startCounter, _,
      ⟨by omega, List.append_assoc ..⟩, r.endCounter, rest, ⟨by omega, rfl⟩, ⟨rfl, rfl, rfl⟩, rfl⟩

theorem run_readUpdateRecord_eq_ok {input rest : List UInt8} {update : ImmutableUpdate} :
    readUpdateRecord input = .ok (update, rest) ↔
      0 < update.encryptedPayload.length ∧ update.encryptedPayload.length < 2 ^ 32 ∧
        input = recordBytes update ++ rest := by
  simp only [readUpdateRecord, run_bind_eq_ok, run_take_eq_ok, run_check_eq_ok, run_takeBe_eq_ok,
    run_takeBytes_eq_ok, run_lift_eq_ok, run_pure_eq_ok, mapError_eq_ok,
    PublicLoroRanges.new_eq_ok_iff, readRange_canonical.many, recordBytes]
  constructor
  · rintro ⟨_, _, ⟨-, rfl⟩, _, _, ⟨rfl, rfl⟩, _, _, ⟨-, rfl⟩, _, _, ⟨rfl, rfl⟩, _, _,
      ⟨-, rfl⟩, _, _, ⟨rfl, rfl⟩, d, _, rfl, u, _, rfl, _, _, ⟨-, rfl⟩, _, _, ⟨-, rfl⟩, l, _,
      ⟨rfl, -, rfl⟩, p, _, ⟨rfl, rfl⟩, _, _, ⟨hlen, rfl⟩, _, _, ⟨hpos, rfl⟩, e, _, ⟨rfl, rfl⟩,
      rfl, rfl⟩
    exact ⟨Nat.pos_of_ne_zero hpos, hlen, by simp only [List.append_assoc]⟩
  · rintro ⟨hpos, hlen, rfl⟩
    have hne := update.publicLoroRanges.ne_nil
    have hle := update.publicLoroRanges.length_le
    have hpos' := List.length_pos_iff.mpr hne
    simp only [maxLoroPeers] at hle
    simp only [List.append_assoc]
    exact ⟨recordMagic, _, ⟨rfl, rfl⟩, (), _, ⟨rfl, rfl⟩, recordVersion, _,
      ⟨by decide, rfl⟩, (), _, ⟨rfl, rfl⟩, loroProfileCode, _, ⟨by decide, rfl⟩, (), _,
      ⟨rfl, rfl⟩, update.documentId.bytes, _, rfl, update.updateId.bytes, _, rfl,
      update.publicLoroRanges.ranges.length, _, ⟨by omega, rfl⟩, (), _,
      ⟨by simp only [maxLoroPeers]; omega, rfl⟩, update.publicLoroRanges.ranges, _,
      ⟨rfl, fun _ _ ↦ trivial, rfl⟩, update.publicLoroRanges, _, ⟨rfl, rfl⟩,
      update.encryptedPayload.length, _, ⟨hlen, rfl⟩, (), _, ⟨by omega, rfl⟩,
      update.encryptedPayload, rest, ⟨rfl, rfl⟩, rfl, rfl⟩

/-- **The decoder accepts exactly the canonical records that fit a frame and whose metadata fits a
page.** -/
theorem decodeUpdateRecord_eq_ok_iff {encoded : List UInt8} {update : ImmutableUpdate} :
    decodeUpdateRecord encoded = .ok update ↔
      encoded = recordBytes update ∧ encoded.length ≤ maxUpdateRecordLength ∧
        0 < update.encryptedPayload.length ∧
        22 + 16 * update.publicLoroRanges.ranges.length ≤ maxEnumerableMetadataLength := by
  rw [decodeUpdateRecord]
  constructor
  · intro h
    split at h
    · exact absurd h (by simp)
    rename_i hlong
    split at h
    · exact absurd h (by simp)
    rename_i u remaining hread
    split at h
    · exact absurd h (by simp)
    rename_i hrest
    split at h
    · exact absurd h (by simp)
    rename_i hmeta
    rw [Except.ok.injEq] at h
    subst h
    obtain ⟨hpos, hlen, hinput⟩ := run_readUpdateRecord_eq_ok.mp hread
    rw [Decidable.not_not.mp hrest, List.append_nil] at hinput
    exact ⟨hinput, by omega, hpos, (ensureMetadataIsEnumerable_eq_ok_iff hlen).mp hmeta⟩
  · rintro ⟨rfl, hlong, hpos, hmeta⟩
    have hlen : update.encryptedPayload.length < 2 ^ 32 := by
      have hle : update.encryptedPayload.length ≤ (recordBytes update).length := by
        simp only [recordBytes, List.length_append]; omega
      have hmax : maxUpdateRecordLength < 2 ^ 32 := by decide
      omega
    have hread : readUpdateRecord (recordBytes update) = .ok (update, []) :=
      run_readUpdateRecord_eq_ok.mpr ⟨hpos, hlen, (List.append_nil _).symm⟩
    rw [if_neg (by omega), hread]
    simp only [ne_eq, not_true_eq_false, if_false,
      (ensureMetadataIsEnumerable_eq_ok_iff hlen).mpr hmeta]

/-- **One update has one accepted record.** -/
theorem decodeUpdateRecord_injective {encoded encoded' : List UInt8} {update : ImmutableUpdate}
    (h : decodeUpdateRecord encoded = .ok update) (h' : decodeUpdateRecord encoded' = .ok update) :
    encoded = encoded' := by
  rw [(decodeUpdateRecord_eq_ok_iff.mp h).1, (decodeUpdateRecord_eq_ok_iff.mp h').1]

theorem length_recordBytes (update : ImmutableUpdate) :
    (recordBytes update).length = recordFixedLength +
      16 * update.publicLoroRanges.ranges.length + update.encryptedPayload.length := by
  have hranges : (update.publicLoroRanges.ranges.flatMap rangeBytes).length =
      16 * update.publicLoroRanges.ranges.length := by
    induction update.publicLoroRanges.ranges with
    | nil => rfl
    | cons r rs ih => simp only [List.flatMap_cons, List.length_append, ih, rangeBytes,
        length_toBe, List.length_cons]; omega
  simp only [recordBytes, List.length_append, hranges, length_toBe, Bytes.length_eq,
    identifierLength, recordFixedLength, show recordMagic.length = 8 from rfl]
  omega

/-- **A decoded update re-encodes to the record it came from.** -/
theorem encodeUpdateRecord_of_decode {encoded : List UInt8} {update : ImmutableUpdate}
    (h : decodeUpdateRecord encoded = .ok update) : encodeUpdateRecord update = .ok encoded := by
  obtain ⟨rfl, hlong, hpos, hmeta⟩ := decodeUpdateRecord_eq_ok_iff.mp h
  have hranges := update.publicLoroRanges.length_le
  have hlen := length_recordBytes update
  simp only [maxLoroPeers] at hranges
  have hmax : maxUpdateRecordLength = 4024 := rfl
  have hfixed : recordFixedLength = 50 := rfl
  have hrange : rangeLength = 16 := rfl
  rw [encodeUpdateRecord, (ensureMetadataIsEnumerable_eq_ok_iff (by omega)).mpr hmeta]
  simp only
  rw [if_neg (by omega), if_neg (by omega), if_neg (by omega),
    hrange, checkedMul_eq_some (by omega), Option.bind_some, checkedAdd_eq_some (by omega),
    Option.bind_some, checkedAdd_eq_some (by omega)]
  simp only
  rw [if_neg (by omega)]

/-- **An encoded update is decoded to itself.** -/
theorem decodeUpdateRecord_of_encode {encoded : List UInt8} {update : ImmutableUpdate}
    (h : encodeUpdateRecord update = .ok encoded) : decodeUpdateRecord encoded = .ok update := by
  have hranges := update.publicLoroRanges.length_le
  simp only [maxLoroPeers] at hranges
  rw [encodeUpdateRecord] at h
  split at h
  · exact absurd h (by simp)
  rename_i hmeta
  split at h
  · exact absurd h (by simp)
  split at h
  · exact absurd h (by simp)
  rename_i hpayload
  split at h
  · exact absurd h (by simp)
  rename_i hpos
  split at h
  · exact absurd h (by simp)
  rename_i encodedLength hlength
  split at h
  · exact absurd h (by simp)
  rename_i hshort
  obtain rfl := Except.ok.inj h
  -- the length that was computed is the one the record has
  have hrange : rangeLength = 16 := rfl
  have hfixed : recordFixedLength = 50 := rfl
  rw [hrange, checkedMul_eq_some (by omega), Option.bind_some, checkedAdd_eq_some (by omega),
    Option.bind_some, checkedAdd_eq_some (by omega), Option.some_inj] at hlength
  have hrecord := length_recordBytes update
  exact decodeUpdateRecord_eq_ok_iff.mpr ⟨rfl, by omega, by omega,
    (ensureMetadataIsEnumerable_eq_ok_iff (by omega)).mp hmeta⟩

/-- **The record codec is a bijection** between the updates that can be encoded and the byte strings
that are accepted; so the bytes of two records are equal exactly when their updates are. -/
theorem updateRecord_inverse :
    Codec.MutuallyInverse (fun _ ↦ True) (fun _ ↦ True) encodeUpdateRecord decodeUpdateRecord ∧
      ∀ {encoded encoded' : List UInt8} {update update' : ImmutableUpdate},
        decodeUpdateRecord encoded = .ok update → decodeUpdateRecord encoded' = .ok update' →
          (encoded = encoded' ↔ update = update') := by
  have hinverse : Codec.MutuallyInverse (fun _ ↦ True) (fun _ ↦ True) encodeUpdateRecord
      decodeUpdateRecord :=
    .of_directions (fun _ _ _ h ↦ decodeUpdateRecord_of_encode h)
      fun _ _ _ h ↦ encodeUpdateRecord_of_decode h
  exact ⟨hinverse, fun h h' ↦ hinverse.eq_iff trivial h h'⟩

end Renee
