import Renee.Wire.UpdateMessages

/-!
# What the read messages say

Each reader accepts exactly the encodings of its values, part by part and message by message; so
what an encoder writes is what the decoder returns.

* `readMetadata_canonical`, `run_readCursor_eq_ok` and their siblings are about the common parts.
* `decodeEnumerateResponse_of_encode`, `decodeVectorBackfillResponse_of_encode` and
  `decodeVectorBackfillRequest_of_encode` are the round trips, and `encodePage_eq_ok_iff` says when
  there is room for a page.
-/

set_option autoImplicit false

namespace Renee.Wire

open ByteString ByteString.Reader

/-! ## Common parts -/

theorem decodeExactly_eq_ok_iff {α : Type} {r : Reader UpdateCodecError α} {payload : List UInt8}
    {a : α} : decodeExactly r payload = .ok a ↔ r payload = .ok (a, []) := by
  rw [decodeExactly]
  cases hread : r payload with
  | error e => simp
  | ok p =>
    obtain ⟨value, remaining⟩ := p
    by_cases hrest : remaining = []
    · simp [hrest]
    · simp [hrest]

/-- A decoder that checks the length of its payload first. -/
theorem decodeLimited_eq_ok_iff {α : Type} {r : Reader UpdateCodecError α} {payload : List UInt8}
    {a : α} {e : UpdateCodecError} :
    (if payload.length > maxApplicationPayloadLength then .error e else decodeExactly r payload) =
      .ok a ↔ payload.length ≤ maxApplicationPayloadLength ∧ r payload = .ok (a, []) := by
  split
  · rename_i hlong
    exact ⟨fun h ↦ absurd h (by simp), fun h ↦ absurd h.1 (by omega)⟩
  · rename_i hshort
    rw [decodeExactly_eq_ok_iff]
    exact ⟨fun h ↦ ⟨by omega, h⟩, fun h ↦ h.2⟩

@[simp] theorem run_throw_eq_ok {ε α : Type} {e : ε} {input rest : List UInt8} {a : α} :
    ¬(throw e : Reader ε α) input = .ok (a, rest) := fun h ↦ by cases h

theorem run_readAuthority_eq_ok {input rest : List UInt8} {authority : CapabilityAuthority} :
    readAuthority input = .ok (authority, rest) ↔ input = authorityBytes authority ++ rest := by
  simp only [readAuthority, run_bind_eq_ok, run_takeBytes_eq_ok, run_pure_eq_ok, authorityBytes]
  constructor
  · rintro ⟨c, _, rfl, a, _, rfl, rfl, rfl⟩
    exact (List.append_assoc ..).symm
  · rintro rfl
    exact ⟨_, _, List.append_assoc .., _, _, rfl, rfl, rfl⟩

theorem run_readCursor_eq_ok {length : ℕ} (hpos : 0 < length) (hlt : length < 2 ^ 16)
    {input rest : List UInt8} {cursor : Option (List UInt8)} :
    readCursor length input = .ok (cursor, rest) ↔
      (∀ bytes ∈ cursor, bytes.length = length) ∧ input = cursorBytes cursor ++ rest := by
  simp only [readCursor, run_bind_eq_ok, run_takeBe_eq_ok]
  constructor
  · rintro ⟨n, mid, ⟨hn, rfl⟩, hrun⟩
    split at hrun
    · rename_i hzero
      obtain ⟨rfl, rfl⟩ := run_pure_eq_ok.mp hrun
      exact ⟨fun _ h ↦ absurd h (by simp), by rw [hzero]; rfl⟩
    split at hrun
    · rename_i hfixed
      simp only [run_bind_eq_ok, run_take_eq_ok, run_pure_eq_ok] at hrun
      obtain ⟨bytes, _, ⟨hbytes, rfl⟩, rfl, rfl⟩ := hrun
      refine ⟨fun other h ↦ by rw [← Option.some_inj.mp (Option.mem_def.mp h), hbytes], ?_⟩
      rw [cursorBytes, Option.getD_some, hbytes, hfixed, List.append_assoc]
    · exact absurd hrun run_throw_eq_ok
  · rintro ⟨hcursor, rfl⟩
    cases cursor with
    | none =>
      refine ⟨0, rest, ⟨by decide, rfl⟩, ?_⟩
      rw [if_pos rfl]
      exact run_pure_eq_ok.mpr ⟨rfl, rfl⟩
    | some bytes =>
      have hbytes := hcursor bytes rfl
      refine ⟨length, bytes ++ rest, ⟨by simpa using hlt, ?_⟩, ?_⟩
      · rw [cursorBytes, Option.getD_some, hbytes, List.append_assoc]
      · rw [if_neg (by omega), if_pos rfl]
        simp only [run_bind_eq_ok, run_take_eq_ok, run_pure_eq_ok]
        exact ⟨bytes, rest, ⟨hbytes, rfl⟩, rfl, rfl⟩

theorem run_readFlag_eq_ok {input rest : List UInt8} {flag : Bool} :
    readFlag input = .ok (flag, rest) ↔ input = flagBytes flag ++ rest := by
  simp only [readFlag, run_bind_eq_ok, run_takeBe_eq_ok]
  constructor
  · rintro ⟨n, mid, ⟨hn, rfl⟩, hrun⟩
    split at hrun
    · rename_i hzero
      obtain ⟨rfl, rfl⟩ := run_pure_eq_ok.mp hrun
      rw [hzero]
      rfl
    split at hrun
    · rename_i hone
      obtain ⟨rfl, rfl⟩ := run_pure_eq_ok.mp hrun
      rw [hone]
      rfl
    · exact absurd hrun run_throw_eq_ok
  · rintro rfl
    cases flag with
    | false => exact ⟨0, rest, ⟨by decide, rfl⟩, run_pure_eq_ok.mpr ⟨rfl, rfl⟩⟩
    | true => exact ⟨1, rest, ⟨by decide, rfl⟩, run_pure_eq_ok.mpr ⟨rfl, rfl⟩⟩

/-- **A metadata entry is read back.** -/
theorem readMetadata_canonical :
    Canonical readMetadata (fun m ↦ m.encryptedPayloadLength < 2 ^ 32) metadataBytes := by
  intro input m rest
  simp only [readMetadata, run_bind_eq_ok, run_takeBytes_eq_ok, run_takeBe_eq_ok, run_check_eq_ok,
    run_lift_eq_ok, run_pure_eq_ok, mapError_eq_ok, PublicLoroRanges.new_eq_ok_iff,
    readRange_canonical.many, metadataBytes]
  constructor
  · rintro ⟨u, _, rfl, _, _, ⟨-, rfl⟩, _, _, ⟨-, rfl⟩, l, _, ⟨rfl, -, rfl⟩, p, _, ⟨rfl, rfl⟩, n, _,
      ⟨hn, rfl⟩, rfl, rfl⟩
    exact ⟨hn, by simp only [List.append_assoc]⟩
  · rintro ⟨hn, rfl⟩
    have hpos := List.length_pos_iff.mpr m.publicLoroRanges.ne_nil
    have hle := m.publicLoroRanges.length_le
    simp only [maxLoroPeers] at hle
    simp only [List.append_assoc]
    exact ⟨m.updateId.bytes, _, rfl, m.publicLoroRanges.ranges.length, _, ⟨by omega, rfl⟩, (), _,
      ⟨by simp only [maxLoroPeers]; omega, rfl⟩, m.publicLoroRanges.ranges, _,
      ⟨rfl, fun _ _ ↦ trivial, rfl⟩, m.publicLoroRanges, _, ⟨rfl, rfl⟩, m.encryptedPayloadLength,
      rest, ⟨by simpa using hn, rfl⟩, rfl, rfl⟩

theorem length_flatMap_rangeBytes (ranges : List LoroRange) :
    (ranges.flatMap rangeBytes).length = 16 * ranges.length := by
  induction ranges with
  | nil => rfl
  | cons r rs ih =>
    simp only [List.flatMap_cons, List.length_append, ih, rangeBytes, length_toBe, List.length_cons]
    omega

/-- **The measured length of an entry is the one it has.** -/
theorem length_metadataBytes (m : UpdateMetadata) :
    (metadataBytes m).length = 22 + 16 * m.publicLoroRanges.ranges.length := by
  simp only [metadataBytes, List.length_append, length_toBe, m.updateId.bytes.length_eq,
    length_flatMap_rangeBytes, identifierLength]
  omega

/-- The bytes that the entries of a page take up. -/
def metadataLength (updates : List UpdateMetadata) : ℕ :=
  (updates.map fun m ↦ 22 + 16 * m.publicLoroRanges.ranges.length).sum

theorem length_flatMap_metadataBytes (updates : List UpdateMetadata) :
    (updates.flatMap metadataBytes).length = metadataLength updates := by
  rw [List.length_flatMap, metadataLength]
  exact congrArg List.sum (List.map_congr_left fun m _ ↦ length_metadataBytes m)

theorem appendUpdates_eq (updates : List UpdateMetadata) :
    appendUpdates updates = .ok (updates.flatMap metadataBytes) := by
  induction updates with
  | nil => rfl
  | cons m updates ih =>
    have hle := m.publicLoroRanges.length_le
    simp only [maxLoroPeers] at hle
    rw [appendUpdates, if_neg (by omega), ih]
    rfl

theorem length_pageBytes (hasMore : Bool) (nextCursor : Option (List UInt8)) (count : ℕ)
    (entries : List UInt8) :
    (pageBytes hasMore nextCursor count entries).length =
      5 + (nextCursor.getD []).length + entries.length := by
  have hflag : (flagBytes hasMore).length = 1 := by cases hasMore <;> rfl
  simp only [pageBytes, cursorBytes, List.length_append, length_toBe, hflag]
  omega

theorem encodePage_eq_ok_iff {hasMore : Bool} {nextCursor : Option (List UInt8)}
    {updates : List UpdateMetadata} {payload : List UInt8} :
    encodePage hasMore nextCursor updates = .ok payload ↔
      payload = pageBytes hasMore nextCursor updates.length (updates.flatMap metadataBytes) ∧
        payload.length ≤ maxApplicationPayloadLength := by
  rw [encodePage, appendUpdates_eq]
  simp only
  split
  · rename_i hlong
    refine ⟨fun h ↦ absurd h (by simp), ?_⟩
    rintro ⟨rfl, hshort⟩
    omega
  · rename_i hshort
    rw [Except.ok.injEq]
    refine ⟨?_, fun h ↦ h.1.symm⟩
    rintro rfl
    exact ⟨rfl, by omega⟩

theorem fixedCursorLength_eq_ok_iff {length : ℕ} {cursor : Option (List UInt8)} :
    (∃ n, fixedCursorLength length cursor = .ok n) ↔ ∀ bytes ∈ cursor, bytes.length = length := by
  cases cursor with
  | none => simp [fixedCursorLength]
  | some bytes => by_cases h : bytes.length = length <;> simp [fixedCursorLength, h]

/-! ## Pages -/

theorem enumerationCursor : 0 < enumerationContinuationLength ∧
    enumerationContinuationLength < 2 ^ 16 := by decide

theorem vectorCursor : 0 < vectorCursorLength ∧ vectorCursorLength < 2 ^ 16 := by decide

/-- What the encoders of pages check last: how many entries there are, how long the continuation is,
and whether there is room. -/
theorem encodeCounted_eq_ok_iff {length : ℕ} {hasMore : Bool} {nextCursor : Option (List UInt8)}
    {updates : List UpdateMetadata} {payload : List UInt8} :
    (if updates.length ≥ 2 ^ 16 then .error .integerOutOfRange
      else match fixedCursorLength length nextCursor with
        | .error e => .error e
        | .ok _ => encodePage hasMore nextCursor updates) = Except.ok payload ↔
      ((∀ bytes ∈ nextCursor, bytes.length = length) ∧ updates.length < 2 ^ 16) ∧
        payload = pageBytes hasMore nextCursor updates.length (updates.flatMap metadataBytes) ∧
        payload.length ≤ maxApplicationPayloadLength := by
  split
  · rename_i hmany
    exact ⟨fun h ↦ absurd h (by simp), fun h ↦ absurd h.1.2 (by omega)⟩
  rename_i hcount
  split
  · rename_i e hcursor
    refine ⟨fun h ↦ absurd h (by simp), fun h ↦ ?_⟩
    obtain ⟨n, hn⟩ := fixedCursorLength_eq_ok_iff.mpr h.1.1
    exact absurd (hcursor.symm.trans hn) (by simp)
  · rename_i n hcursor
    rw [encodePage_eq_ok_iff]
    exact ⟨fun h ↦ ⟨⟨fixedCursorLength_eq_ok_iff.mp ⟨n, hcursor⟩, by omega⟩, h⟩, fun h ↦ h.2⟩

/-- What an enumeration page owes. -/
structure EnumerateResponse.Valid (response : EnumerateResponse) : Prop where
  hasMore : response.hasMore = true → response.updates ≠ []
  cursor : response.nextCursor.isSome = true ↔ response.updates ≠ []
  length : ∀ bytes ∈ response.nextCursor, bytes.length = enumerationContinuationLength
  count : response.updates.length < 2 ^ 16

/-- The bytes of an enumeration page. -/
def enumerateResponseBytes (response : EnumerateResponse) : List UInt8 :=
  pageBytes response.hasMore response.nextCursor response.updates.length
    (response.updates.flatMap metadataBytes)

theorem encodeEnumerateResponse_eq_ok_iff {response : EnumerateResponse} {payload : List UInt8} :
    encodeEnumerateResponse response = .ok payload ↔ response.Valid ∧
      payload = enumerateResponseBytes response ∧ payload.length ≤ maxApplicationPayloadLength := by
  rw [encodeEnumerateResponse]
  split
  · rename_i hbad
    refine ⟨fun h ↦ absurd h (by simp), fun h ↦ ?_⟩
    rcases hbad with ⟨hmore, hnil⟩ | hcursor
    · exact absurd hnil (h.1.hasMore hmore)
    · exact absurd h.1.cursor hcursor
  · rename_i hgood
    simp only [not_or, not_and, not_not] at hgood
    refine encodeCounted_eq_ok_iff.trans (and_congr_left fun _ ↦ ?_)
    exact ⟨fun h ↦ ⟨hgood.1, hgood.2, h.1, h.2⟩, fun h ↦ ⟨h.length, h.count⟩⟩

theorem run_readEnumerateResponse_eq_ok {input rest : List UInt8} {response : EnumerateResponse} :
    readEnumerateResponse input = .ok (response, rest) ↔ response.Valid ∧
      (∀ m ∈ response.updates, m.encryptedPayloadLength < 2 ^ 32) ∧
      input = enumerateResponseBytes response ++ rest := by
  simp only [readEnumerateResponse, run_bind_eq_ok, run_readFlag_eq_ok,
    run_readCursor_eq_ok enumerationCursor.1 enumerationCursor.2, run_takeBe_eq_ok, run_check_eq_ok,
    run_pure_eq_ok, readMetadata_canonical.many, enumerateResponseBytes, pageBytes]
  constructor
  · rintro ⟨_, _, rfl, _, _, ⟨hlength, rfl⟩, _, _, ⟨hcount, rfl⟩, _, _, ⟨hvalid, rfl⟩, l, _,
      ⟨rfl, hentries, rfl⟩, rfl, rfl⟩
    simp only [not_or, not_and, not_not, ne_eq, List.length_eq_zero_iff] at hvalid
    exact ⟨⟨hvalid.1, hvalid.2, hlength, by simpa using hcount⟩, hentries,
      by simp only [List.append_assoc]⟩
  · rintro ⟨⟨hmore, hcursor, hlength, hcount⟩, hentries, rfl⟩
    simp only [List.append_assoc]
    refine ⟨_, _, rfl, _, _, ⟨hlength, rfl⟩, response.updates.length, _,
      ⟨by simpa using hcount, rfl⟩, (), _, ⟨?_, rfl⟩, response.updates, rest, ⟨rfl, hentries, rfl⟩,
      rfl, rfl⟩
    simp only [not_or, not_and, not_not, ne_eq, List.length_eq_zero_iff]
    exact ⟨hmore, hcursor⟩

/-- **An enumeration page is read back.** -/
theorem decodeEnumerateResponse_of_encode {response : EnumerateResponse} {payload : List UInt8}
    (h : encodeEnumerateResponse response = .ok payload)
    (hentries : ∀ m ∈ response.updates, m.encryptedPayloadLength < 2 ^ 32) :
    decodeEnumerateResponse payload = .ok response := by
  obtain ⟨hvalid, hpayload, hshort⟩ := encodeEnumerateResponse_eq_ok_iff.mp h
  refine decodeLimited_eq_ok_iff.mpr ⟨hshort, run_readEnumerateResponse_eq_ok.mpr
    ⟨hvalid, hentries, ?_⟩⟩
  rw [hpayload, List.append_nil]

/-- What a vector-backfill page owes. -/
structure VectorBackfillResponse.Valid (response : VectorBackfillResponse) : Prop where
  hasMore : response.hasMore = response.nextCursor.isSome
  length : ∀ bytes ∈ response.nextCursor, bytes.length = vectorCursorLength
  count : response.updates.length < 2 ^ 16

/-- The bytes of a vector-backfill page. -/
def vectorBackfillResponseBytes (response : VectorBackfillResponse) : List UInt8 :=
  pageBytes response.hasMore response.nextCursor response.updates.length
    (response.updates.flatMap metadataBytes)

theorem encodeVectorBackfillResponse_eq_ok_iff {response : VectorBackfillResponse}
    {payload : List UInt8} :
    encodeVectorBackfillResponse response = .ok payload ↔ response.Valid ∧
      payload = vectorBackfillResponseBytes response ∧
        payload.length ≤ maxApplicationPayloadLength := by
  rw [encodeVectorBackfillResponse]
  split
  · rename_i hbad
    exact ⟨fun h ↦ absurd h (by simp), fun h ↦ absurd h.1.hasMore hbad⟩
  · rename_i hgood
    refine encodeCounted_eq_ok_iff.trans (and_congr_left fun _ ↦ ?_)
    exact ⟨fun h ↦ ⟨not_not.mp hgood, h.1, h.2⟩, fun h ↦ ⟨h.length, h.count⟩⟩

theorem run_readVectorBackfillResponse_eq_ok {input rest : List UInt8}
    {response : VectorBackfillResponse} :
    readVectorBackfillResponse input = .ok (response, rest) ↔ response.Valid ∧
      (∀ m ∈ response.updates, m.encryptedPayloadLength < 2 ^ 32) ∧
      input = vectorBackfillResponseBytes response ++ rest := by
  simp only [readVectorBackfillResponse, run_bind_eq_ok, run_readFlag_eq_ok,
    run_readCursor_eq_ok vectorCursor.1 vectorCursor.2, run_takeBe_eq_ok, run_check_eq_ok,
    run_pure_eq_ok, readMetadata_canonical.many, vectorBackfillResponseBytes, pageBytes]
  constructor
  · rintro ⟨_, _, rfl, _, _, ⟨hlength, rfl⟩, _, _, ⟨hmore, rfl⟩, _, _, ⟨hcount, rfl⟩, l, _,
      ⟨rfl, hentries, rfl⟩, rfl, rfl⟩
    exact ⟨⟨hmore, hlength, by simpa using hcount⟩, hentries, by simp only [List.append_assoc]⟩
  · rintro ⟨⟨hmore, hlength, hcount⟩, hentries, rfl⟩
    simp only [List.append_assoc]
    exact ⟨_, _, rfl, _, _, ⟨hlength, rfl⟩, (), _, ⟨hmore, rfl⟩, response.updates.length, _,
      ⟨by simpa using hcount, rfl⟩, response.updates, rest, ⟨rfl, hentries, rfl⟩, rfl, rfl⟩

/-- **A vector-backfill page is read back.** -/
theorem decodeVectorBackfillResponse_of_encode {response : VectorBackfillResponse}
    {payload : List UInt8} (h : encodeVectorBackfillResponse response = .ok payload)
    (hentries : ∀ m ∈ response.updates, m.encryptedPayloadLength < 2 ^ 32) :
    decodeVectorBackfillResponse payload = .ok response := by
  obtain ⟨hvalid, hpayload, hshort⟩ := encodeVectorBackfillResponse_eq_ok_iff.mp h
  refine decodeLimited_eq_ok_iff.mpr ⟨hshort, run_readVectorBackfillResponse_eq_ok.mpr
    ⟨hvalid, hentries, ?_⟩⟩
  rw [hpayload, List.append_nil]

/-! ## Loro versions -/

theorem readEntry_canonical : Canonical readEntry (fun _ ↦ True) entryBytes := by
  intro input e rest
  simp only [readEntry, run_bind_eq_ok, run_readU64_eq_ok, run_takeBe_eq_ok, run_lift_eq_ok,
    mapError_eq_ok, LoroOplogVersionEntry.new_eq_ok_iff, entryBytes, true_and]
  constructor
  · rintro ⟨_, _, rfl, _, _, ⟨-, rfl⟩, ⟨rfl, rfl⟩, rfl⟩
    simp only [List.append_assoc]
  · rintro rfl
    have hc := e.end_le
    simp only [maxLoroCounter] at hc
    exact ⟨e.peerId, _, List.append_assoc .., e.endCounter, rest, ⟨by omega, rfl⟩, ⟨rfl, rfl⟩, rfl⟩

theorem length_flatMap_entryBytes (entries : List LoroOplogVersionEntry) :
    (entries.flatMap entryBytes).length = 12 * entries.length := by
  induction entries with
  | nil => rfl
  | cons e es ih =>
    simp only [List.flatMap_cons, List.length_append, ih, entryBytes, length_toBe, List.length_cons]
    omega

/-- A version has a header and twelve bytes for each entry. -/
theorem length_encodeLoroOplogVersion (v : LoroOplogVersion) :
    (encodeLoroOplogVersion v).length = 12 + 12 * v.entries.length := by
  simp only [encodeLoroOplogVersion, List.length_append, length_toBe, length_flatMap_entryBytes,
    oplogVersionMagic, List.length_cons, List.length_nil]
  omega

/-- **A version is read back.** -/
theorem decodeLoroOplogVersion_encode (v : LoroOplogVersion) :
    decodeLoroOplogVersion (encodeLoroOplogVersion v) = .ok v := by
  have hle := v.length_le
  simp only [maxLoroPeers] at hle
  have hlength := length_encodeLoroOplogVersion v
  have hmin : min v.entries.length (2 ^ 16 - 1) = v.entries.length := by omega
  have hformat : Bytes.slice? 2 (encodeLoroOplogVersion v) 8 =
      some (Bytes.ofNat 2 oplogVersionFormatVersion) := Bytes.slice?_eq_some _ rfl
  have hcount : Bytes.slice? 2 (encodeLoroOplogVersion v) 10 =
      some (Bytes.ofNat 2 v.entries.length) := by
    have hdrop : (encodeLoroOplogVersion v).drop 10 =
        (Bytes.ofNat 2 v.entries.length).toList ++ v.entries.flatMap entryBytes := by
      rw [encodeLoroOplogVersion, hmin]
      rfl
    exact Bytes.slice?_eq_some _ hdrop
  have hrest : (encodeLoroOplogVersion v).drop oplogVersionHeaderLength =
      v.entries.flatMap entryBytes ++ [] := by
    rw [List.append_nil]
    rfl
  have hentries : decodeEntries v.entries.length (v.entries.flatMap entryBytes ++ []) =
      .ok v.entries := by
    rw [decodeEntries, readEntry_canonical.many.mpr ⟨rfl, fun _ _ ↦ trivial, rfl⟩]
  rw [decodeLoroOplogVersion, if_neg]
  · simp only [hformat, hcount]
    rw [Bytes.toNat_ofNat (by omega), Bytes.toNat_ofNat (by decide),
      checkedMul_eq_some (by simp only [oplogVersionEntryLength]; omega), Option.bind_some,
      checkedAdd_eq_some (by simp only [oplogVersionEntryLength, oplogVersionHeaderLength]; omega)]
    simp only
    rw [if_neg, hrest, hentries]
    · exact mapError_eq_ok.mpr (LoroOplogVersion.new_eq_ok_iff.mpr rfl)
    · simp only [ne_eq, not_true_eq_false, false_or, hlength, oplogVersionEntryLength,
        oplogVersionHeaderLength, maxLoroPeers]
      omega
  · rw [hlength]
    rintro (hshort | hmagic)
    · simp only [oplogVersionHeaderLength] at hshort
      omega
    · exact hmagic rfl

/-! ## Vector-backfill requests -/

theorem run_readVectorBackfillStart_origin (rest : List UInt8) :
    readVectorBackfillStart (toBe 1 0 ++ (cursorBytes none ++ rest)) = .ok (.origin, rest) := by
  simp only [readVectorBackfillStart, run_bind_eq_ok, run_takeBe_eq_ok]
  refine ⟨0, _, ⟨by decide, rfl⟩, 0, rest, ⟨by decide, rfl⟩, ?_⟩
  rw [if_pos ⟨rfl, rfl⟩]
  exact run_pure_eq_ok.mpr ⟨rfl, rfl⟩

theorem run_readVectorBackfillStart_continuation {cursor : List UInt8} (h : cursor.length < 2 ^ 16)
    (rest : List UInt8) :
    readVectorBackfillStart (toBe 1 1 ++ (cursorBytes (some cursor) ++ rest)) =
      .ok (.continuation cursor, rest) := by
  simp only [readVectorBackfillStart, run_bind_eq_ok, run_takeBe_eq_ok, cursorBytes,
    Option.getD_some, List.append_assoc]
  refine ⟨1, _, ⟨by decide, rfl⟩, cursor.length, _, ⟨by simpa using h, rfl⟩, ?_⟩
  rw [if_neg (by simp), if_pos rfl]
  simp only [run_bind_eq_ok, run_take_eq_ok, run_pure_eq_ok]
  exact ⟨cursor, rest, ⟨rfl, rfl⟩, rfl, rfl⟩

theorem length_vectorBackfillRequestBytes (request : VectorBackfillRequest) (mode : ℕ)
    (cursor : Option (List UInt8)) :
    (vectorBackfillRequestBytes request mode cursor).length =
      83 + (cursor.getD []).length + 12 * request.oplogVersion.entries.length := by
  simp only [vectorBackfillRequestBytes, authorityBytes, cursorBytes, List.length_append,
    length_toBe, Bytes.length_eq, identifierLength, secretLength, length_encodeLoroOplogVersion]
  omega

/-- The mode and the continuation that a start is written as. -/
def VectorBackfillStart.parts : VectorBackfillStart → ℕ × Option (List UInt8)
  | .origin => (0, none)
  | .continuation cursor => (1, some cursor)

/-- **A request is written** when its continuation has the right length: every version fits. -/
theorem encodeVectorBackfillRequest_eq_ok_iff {request : VectorBackfillRequest}
    {payload : List UInt8} :
    encodeVectorBackfillRequest request = .ok payload ↔
      (∀ cursor, request.start = .continuation cursor → cursor.length = vectorCursorLength) ∧
      payload = vectorBackfillRequestBytes request request.start.parts.1 request.start.parts.2 := by
  have hle := request.oplogVersion.length_le
  simp only [maxLoroPeers] at hle
  have hshort := length_encodeLoroOplogVersion request.oplogVersion
  have hmax : maxApplicationPayloadLength = 4072 := rfl
  have hlength := length_vectorBackfillRequestBytes request
  have hvector : vectorCursorLength = 32 := rfl
  cases hstart : request.start with
  | origin =>
    have hbytes := hlength 0 none
    rw [Option.getD_none, List.length_nil] at hbytes
    simp only [encodeVectorBackfillRequest, hstart, fixedCursorLength, VectorBackfillStart.parts]
    change (if _ then _ else _) = _ ↔ _
    rw [if_neg (by omega), if_neg (by omega), Except.ok.injEq]
    exact ⟨fun h ↦ ⟨fun cursor hc ↦ (by cases hc), h.symm⟩, fun h ↦ h.2.symm⟩
  | continuation cursor =>
    simp only [encodeVectorBackfillRequest, hstart, fixedCursorLength, VectorBackfillStart.parts]
    by_cases hcursor : cursor.length = vectorCursorLength
    · have hbytes := hlength 1 (some cursor)
      rw [Option.getD_some, hcursor] at hbytes
      rw [if_pos hcursor]
      change (if _ then _ else _) = _ ↔ _
      rw [if_neg (by omega), if_neg (by omega), Except.ok.injEq]
      refine ⟨fun h ↦ ⟨fun other hc ↦ ?_, h.symm⟩, fun h ↦ h.2.symm⟩
      cases hc
      exact hcursor
    · rw [if_neg hcursor]
      exact ⟨fun h ↦ (by cases h), fun h ↦ absurd (h.1 cursor rfl) hcursor⟩

theorem run_readVectorBackfillStart_parts {start : VectorBackfillStart}
    (h : ∀ cursor, start = .continuation cursor → cursor.length = vectorCursorLength)
    (rest : List UInt8) :
    readVectorBackfillStart (toBe 1 start.parts.1 ++ (cursorBytes start.parts.2 ++ rest)) =
      .ok (start, rest) := by
  cases start with
  | origin => exact run_readVectorBackfillStart_origin rest
  | continuation cursor =>
    exact run_readVectorBackfillStart_continuation (by rw [h cursor rfl]; decide) rest

/-- **A vector-backfill request is read back.** -/
theorem decodeVectorBackfillRequest_of_encode {request : VectorBackfillRequest}
    {payload : List UInt8} (h : encodeVectorBackfillRequest request = .ok payload) :
    decodeVectorBackfillRequest payload = .ok request := by
  obtain ⟨hstart, rfl⟩ := encodeVectorBackfillRequest_eq_ok_iff.mp h
  have hle := request.oplogVersion.length_le
  simp only [maxLoroPeers] at hle
  have hversion := length_encodeLoroOplogVersion request.oplogVersion
  have hmax : maxApplicationPayloadLength = 4072 := rfl
  have hcursor : (request.start.parts.2.getD []).length ≤ 32 := by
    cases hs : request.start with
    | origin => exact Nat.zero_le _
    | continuation cursor => exact le_of_eq (hstart cursor hs)
  refine decodeLimited_eq_ok_iff.mpr ⟨by rw [length_vectorBackfillRequestBytes]; omega, ?_⟩
  simp only [readVectorBackfillRequest, run_bind_eq_ok, run_takeBe_eq_ok, run_check_eq_ok,
    run_readAuthority_eq_ok, run_takeBytes_eq_ok, run_take_eq_ok, run_lift_eq_ok, run_pure_eq_ok,
    vectorBackfillRequestBytes]
  refine ⟨vectorBackfillPayloadVersion, _, ⟨by decide, rfl⟩, (), _, ⟨rfl, rfl⟩,
    request.authority, _, rfl, request.documentId.bytes, _, rfl, request.start, _,
    run_readVectorBackfillStart_parts hstart _,
    (encodeLoroOplogVersion request.oplogVersion).length, _, ⟨by rw [hversion]; omega, rfl⟩, (), _,
    ⟨?_, rfl⟩, _, [], ⟨rfl, (List.append_nil _).symm⟩, request.oplogVersion, _,
    ⟨decodeLoroOplogVersion_encode _, rfl⟩, rfl, rfl⟩
  simp only [hversion, oplogVersionHeaderLength, oplogVersionEntryLength, maxLoroPeers]
  omega

end Renee.Wire
