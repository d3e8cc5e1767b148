import Renee.Wire.UpdateMessagesSpec

/-!
# The codecs of the read messages are mutually inverse

`UpdateMessagesSpec` says that what is written is read back.  Here is the other direction: what a
decoder accepts is what the encoder writes, so each version, request and page has one accepted
encoding.

* A start of a pass is a mode and a continuation (`parts`); the readers of a start accept any
  continuation, the encoders only one of the right length, which is the one condition of
  `readMessages_inverse` on what is read.
* `encodeLoroOplogVersion_of_decode` puts a version together from the fields that were checked.
-/

set_option autoImplicit false

namespace Renee.Wire

open ByteString ByteString.Reader

/-! ## Starts -/

/-- The mode and the continuation that a start is written as. -/
def EnumerateStart.parts : EnumerateStart → ℕ × Option (List UInt8)
  | .origin => (0, none)
  | .continuation cursor => (1, some cursor)
  | .afterTail cursor => (2, some cursor)

theorem run_readEnumerateStart_eq_ok {input rest : List UInt8} {start : EnumerateStart} :
    readEnumerateStart input = .ok (start, rest) ↔
      (start.parts.2.getD []).length < 2 ^ 16 ∧
        input = toBe 1 start.parts.1 ++ (cursorBytes start.parts.2 ++ rest) := by
  simp only [readEnumerateStart, run_bind_eq_ok, run_takeBe_eq_ok]
  constructor
  · rintro ⟨mode, _, ⟨-, rfl⟩, length, mid, ⟨hlength, rfl⟩, hrun⟩
    split at hrun
    · rename_i hmode
      split at hrun
      · rename_i hzero
        obtain ⟨rfl, rfl⟩ := run_pure_eq_ok.mp hrun
        exact ⟨by decide, by rw [hmode, hzero]; rfl⟩
      · exact absurd hrun run_throw_eq_ok
    split at hrun
    · rename_i hmode
      simp only [run_bind_eq_ok, run_take_eq_ok, run_pure_eq_ok] at hrun
      obtain ⟨cursor, _, ⟨rfl, rfl⟩, rfl, rfl⟩ := hrun
      refine ⟨hlength, ?_⟩
      rw [hmode, EnumerateStart.parts, cursorBytes, Option.getD_some, List.append_assoc]
    split at hrun
    · rename_i hmode
      simp only [run_bind_eq_ok, run_take_eq_ok, run_pure_eq_ok] at hrun
      obtain ⟨cursor, _, ⟨rfl, rfl⟩, rfl, rfl⟩ := hrun
      refine ⟨hlength, ?_⟩
      rw [hmode, EnumerateStart.parts, cursorBytes, Option.getD_some, List.append_assoc]
    · exact absurd hrun run_throw_eq_ok
  · rintro ⟨hlength, rfl⟩
    simp only [cursorBytes, List.append_assoc]
    have hmode : start.parts.1 < 256 := by cases start <;> simp [EnumerateStart.parts]
    refine ⟨start.parts.1, _, ⟨hmode, rfl⟩, _, _, ⟨hlength, rfl⟩, ?_⟩
    cases start with
    | origin => exact run_pure_eq_ok.mpr ⟨rfl, rfl⟩
    | continuation cursor =>
      exact run_bind_eq_ok.mpr ⟨cursor, rest, run_take_eq_ok.mpr ⟨rfl, rfl⟩,
        run_pure_eq_ok.mpr ⟨rfl, rfl⟩⟩
    | afterTail cursor =>
      exact run_bind_eq_ok.mpr ⟨cursor, rest, run_take_eq_ok.mpr ⟨rfl, rfl⟩,
        run_pure_eq_ok.mpr ⟨rfl, rfl⟩⟩

theorem run_readVectorBackfillStart_eq_ok {input rest : List UInt8} {start : VectorBackfillStart} :
    readVectorBackfillStart input = .ok (start, rest) ↔
      (start.parts.2.getD []).length < 2 ^ 16 ∧
        input = toBe 1 start.parts.1 ++ (cursorBytes start.parts.2 ++ rest) := by
  constructor
  · simp only [readVectorBackfillStart, run_bind_eq_ok, run_takeBe_eq_ok]
    rintro ⟨mode, _, ⟨-, rfl⟩, length, mid, ⟨hlength, rfl⟩, hrun⟩
    split at hrun
    · rename_i horigin
      obtain ⟨rfl, rfl⟩ := run_pure_eq_ok.mp hrun
      exact ⟨by decide, by rw [horigin.1, horigin.2]; rfl⟩
    split at hrun
    · rename_i hmode
      simp only [run_bind_eq_ok, run_take_eq_ok, run_pure_eq_ok] at hrun
      obtain ⟨cursor, _, ⟨rfl, rfl⟩, rfl, rfl⟩ := hrun
      refine ⟨hlength, ?_⟩
      rw [hmode, VectorBackfillStart.parts, cursorBytes, Option.getD_some, List.append_assoc]
    · exact absurd hrun run_throw_eq_ok
  · rintro ⟨hlength, rfl⟩
    cases start with
    | origin => exact run_readVectorBackfillStart_origin rest
    | continuation cursor => exact run_readVectorBackfillStart_continuation hlength rest

/-! ## Enumeration requests -/

/-- The bytes of an enumeration request. -/
def enumerateRequestBytes (request : EnumerateRequest) : List UInt8 :=
  authorityBytes request.authority ++ (request.documentId.bytes.toList ++
    (toBe 1 request.start.parts.1 ++ cursorBytes request.start.parts.2))

theorem encodeEnumerateRequest_eq_ok_iff {request : EnumerateRequest} {payload : List UInt8} :
    encodeEnumerateRequest request = .ok payload ↔
      (∀ cursor ∈ request.start.parts.2, cursor.length = enumerationContinuationLength) ∧
        payload = enumerateRequestBytes request := by
  have hencode : encodeEnumerateRequest request =
      (cursorLength request.start.parts.2).map fun _ ↦ enumerateRequestBytes request := by
    simp only [encodeEnumerateRequest, enumerateRequestBytes]
    cases request.start <;> (dsimp only [EnumerateStart.parts]; cases cursorLength _ <;> rfl)
  rw [hencode, ← fixedCursorLength_eq_ok_iff, cursorLength]
  cases fixedCursorLength enumerationContinuationLength request.start.parts.2 with
  | error e => simp [Except.map]
  | ok n => simp [Except.map, eq_comm]

theorem decodeEnumerateRequest_eq_ok_iff {request : EnumerateRequest} {payload : List UInt8} :
    decodeEnumerateRequest payload = .ok request ↔
      (request.start.parts.2.getD []).length < 2 ^ 16 ∧
        payload = enumerateRequestBytes request := by
  rw [decodeEnumerateRequest, decodeExactly_eq_ok_iff, enumerateRequestBytes]
  simp only [run_bind_eq_ok, run_readAuthority_eq_ok, run_takeBytes_eq_ok,
    run_readEnumerateStart_eq_ok, run_pure_eq_ok]
  constructor
  · rintro ⟨_, _, rfl, _, _, rfl, _, _, ⟨hlength, rfl⟩, rfl, rfl⟩
    exact ⟨hlength, by rw [List.append_nil]⟩
  · rintro ⟨hlength, rfl⟩
    exact ⟨_, _, rfl, _, _, rfl, request.start, [], ⟨hlength, by rw [List.append_nil]⟩, rfl, rfl⟩

/-! ## Loro versions -/

/-- **A version that is read is the one that is written.** -/
theorem encodeLoroOplogVersion_of_decode {encoded : List UInt8} {version : LoroOplogVersion}
    (h : decodeLoroOplogVersion encoded = .ok version) :
    encodeLoroOplogVersion version = encoded := by
  rw [decodeLoroOplogVersion] at h
  split at h
  · exact absurd h (by simp)
  rename_i hheader
  simp only [not_or, not_not] at hheader
  split at h
  · rename_i formatVersion entryCount hformat hcount
    split at h
    · exact absurd h (by simp)
    rename_i expectedLength hexpected
    split at h
    · exact absurd h (by simp)
    rename_i hfields
    simp only [not_or, not_not] at hfields
    obtain ⟨hformatVersion, hentryCount, hlength⟩ := hfields
    split at h
    · exact absurd h (by simp)
    rename_i entries hentries
    obtain rfl := LoroOplogVersion.new_eq_ok_iff.mp (mapError_eq_ok.mp h)
    rw [decodeEntries] at hentries
    split at hentries
    · exact absurd hentries (by simp)
    rename_i entries' remaining hmany
    obtain rfl := Except.ok.inj hentries
    obtain ⟨hcountEntries, -, hdrop⟩ := readEntry_canonical.many.mp hmany
    -- the entries take up all that follows the header
    simp only [maxLoroPeers] at hentryCount
    rw [checkedMul_eq_some (by simp only [oplogVersionEntryLength]; omega), Option.bind_some,
      checkedAdd_eq_some (by simp only [oplogVersionEntryLength, oplogVersionHeaderLength]; omega),
      Option.some_inj] at hexpected
    have hremaining : remaining = [] := by
      have hdropLength := congrArg List.length hdrop
      rw [List.length_drop, List.length_append, length_flatMap_entryBytes,
        hcountEntries] at hdropLength
      simp only [oplogVersionEntryLength, oplogVersionHeaderLength] at hexpected hdropLength
      exact List.length_eq_zero_iff.mp (by omega)
    rw [hremaining, List.append_nil] at hdrop
    have hmin : min version.entries.length (2 ^ 16 - 1) = entryCount.toNat := by
      rw [hcountEntries]
      omega
    -- and the fields before them are the ones that were checked
    have hformatField := Bytes.ofList?_eq_some_iff.mp hformat
    have hcountField := Bytes.ofList?_eq_some_iff.mp hcount
    rw [encodeLoroOplogVersion, hmin, entryCount.toBe_toNat, ← hformatVersion,
      formatVersion.toBe_toNat, hformatField, hcountField, ← hdrop, ← hheader.2]
    have hsplit : ∀ n m (l : List UInt8), (l.drop n).take m ++ l.drop (n + m) = l.drop n := by
      intro n m l
      rw [← List.drop_drop, List.take_append_drop]
    exact (congrArg _ ((congrArg _ (hsplit 10 2 encoded)).trans (hsplit 8 2 encoded))).trans
      (List.take_append_drop 8 encoded)
  · exact absurd h (by simp)

/-! ## Vector-backfill requests -/

theorem decodeVectorBackfillRequest_eq_ok {request : VectorBackfillRequest} {payload : List UInt8}
    (h : decodeVectorBackfillRequest payload = .ok request) :
    payload = vectorBackfillRequestBytes request request.start.parts.1 request.start.parts.2 := by
  obtain ⟨-, hread⟩ := decodeLimited_eq_ok_iff.mp h
  simp only [readVectorBackfillRequest, run_bind_eq_ok, run_takeBe_eq_ok, run_check_eq_ok,
    run_readAuthority_eq_ok, run_takeBytes_eq_ok, run_readVectorBackfillStart_eq_ok,
    run_take_eq_ok, run_lift_eq_ok, run_pure_eq_ok] at hread
  obtain ⟨_, _, ⟨-, rfl⟩, _, _, ⟨rfl, rfl⟩, authority, _, rfl, documentId, _, rfl, start, _,
    ⟨-, rfl⟩, _, _, ⟨-, rfl⟩, _, _, ⟨-, rfl⟩, vector, _, ⟨rfl, rfl⟩, version, _, ⟨hversion, rfl⟩,
    rfl, rfl⟩ := hread
  rw [List.append_nil, vectorBackfillRequestBytes, encodeLoroOplogVersion_of_decode hversion]

/-! ## All of them -/

/-- **The codecs of the read messages and of the version are mutually inverse.**  A request is read
whatever the length of its continuation, and written when it is the one of its kind; the lengths in
a page are of 32 bits. -/
theorem readMessages_inverse :
    Codec.MutuallyInverse (fun _ ↦ True)
      (fun request : EnumerateRequest ↦ ∀ cursor ∈ request.start.parts.2,
        cursor.length = enumerationContinuationLength)
      encodeEnumerateRequest decodeEnumerateRequest ∧
    Codec.MutuallyInverse (fun _ ↦ True) (fun _ ↦ True)
      (fun version ↦ .ok (encodeLoroOplogVersion version)) decodeLoroOplogVersion ∧
    Codec.MutuallyInverse (fun _ ↦ True)
      (fun request : VectorBackfillRequest ↦ ∀ cursor ∈ request.start.parts.2,
        cursor.length = vectorCursorLength)
      encodeVectorBackfillRequest decodeVectorBackfillRequest ∧
    Codec.MutuallyInverse
      (fun response : EnumerateResponse ↦ ∀ m ∈ response.updates,
        m.encryptedPayloadLength < 2 ^ 32) (fun _ ↦ True)
      encodeEnumerateResponse decodeEnumerateResponse ∧
    Codec.MutuallyInverse
      (fun response : VectorBackfillResponse ↦ ∀ m ∈ response.updates,
        m.encryptedPayloadLength < 2 ^ 32) (fun _ ↦ True)
      encodeVectorBackfillResponse decodeVectorBackfillResponse := by
  refine ⟨.of_directions ?_ ?_, .of_directions ?_ ?_, .of_directions ?_ ?_, .of_directions ?_ ?_,
    .of_directions ?_ ?_⟩
  · intro request payload _ h
    obtain ⟨hcursor, hpayload⟩ := encodeEnumerateRequest_eq_ok_iff.mp h
    refine decodeEnumerateRequest_eq_ok_iff.mpr ⟨?_, hpayload⟩
    cases hparts : request.start.parts.2 with
    | none => exact Nat.two_pow_pos 16
    | some cursor =>
      rw [Option.getD_some, hcursor cursor hparts]
      exact enumerationCursor.2
  · intro request payload hcursor h
    exact encodeEnumerateRequest_eq_ok_iff.mpr
      ⟨hcursor, (decodeEnumerateRequest_eq_ok_iff.mp h).2⟩
  · intro version encoded _ h
    rw [← Except.ok.inj h]
    exact decodeLoroOplogVersion_encode version
  · exact fun version encoded _ h ↦ congrArg Except.ok (encodeLoroOplogVersion_of_decode h)
  · exact fun request payload _ h ↦ decodeVectorBackfillRequest_of_encode h
  · intro request payload hcursor h
    refine encodeVectorBackfillRequest_eq_ok_iff.mpr
      ⟨fun cursor hstart ↦ hcursor cursor ?_, decodeVectorBackfillRequest_eq_ok h⟩
    rw [hstart]
    rfl
  · exact fun response payload hentries h ↦ decodeEnumerateResponse_of_encode h hentries
  · intro response payload _ h
    obtain ⟨hshort, hread⟩ := decodeLimited_eq_ok_iff.mp h
    obtain ⟨hvalid, -, hpayload⟩ := run_readEnumerateResponse_eq_ok.mp hread
    exact encodeEnumerateResponse_eq_ok_iff.mpr
      ⟨hvalid, by rw [hpayload, List.append_nil], hshort⟩
  · exact fun response payload hentries h ↦ decodeVectorBackfillResponse_of_encode h hentries
  · intro response payload _ h
    obtain ⟨hshort, hread⟩ := decodeLimited_eq_ok_iff.mp h
    obtain ⟨hvalid, -, hpayload⟩ := run_readVectorBackfillResponse_eq_ok.mp hread
    exact encodeVectorBackfillResponse_eq_ok_iff.mpr
      ⟨hvalid, by rw [hpayload, List.append_nil], hshort⟩

end Renee.Wire
