import Renee.Library.Codec
import Renee.Wire.MutationMessages
import Renee.Wire.SubscriptionMessages
import Renee.Wire.UpdateMessagesSpec

/-!
# The codecs of the requests are exact

Six requests carry authority: create, grant and revoke, the submission of an update, fetch and
subscribe.  Each is a sequence of fields of fixed width, but for the record at the end of a
submission, and each has an encoder and a decoder that are written separately.

For each of them there is one statement about its decoder, `decode…Request_eq_ok_iff`: it accepts
exactly the bytes of the valid requests.  A grant is valid when its operation set is not empty, a
submission when its record is not empty and fits a payload; every other request is.  The encoders
write those bytes, so `requestCodecs_exact` follows for all six.
-/

set_option autoImplicit false

namespace Renee.Wire

open ByteString ByteString.Reader

/-! ## Readers -/

@[simp] theorem run_finishCapability_eq_ok {input rest : List UInt8} {u : Unit} :
    finishCapability input = .ok (u, rest) ↔ input = [] ∧ rest = [] := by
  rw [finishCapability]
  split
  · rename_i h; simp [h, eq_comm]
  · rename_i h; simp [h]

theorem run_takeCapabilityAuthority_eq_ok {input rest : List UInt8}
    {authority : CapabilityAuthority} : takeCapabilityAuthority input = .ok (authority, rest) ↔
      input = authorityBytes authority ++ rest := by
  simp only [takeCapabilityAuthority, run_bind_eq_ok, run_takeBytes_eq_ok, run_pure_eq_ok,
    authorityBytes]
  constructor
  · rintro ⟨capabilityId, _, rfl, authenticator, _, rfl, rfl, rfl⟩
    exact (List.append_assoc ..).symm
  · rintro rfl
    exact ⟨_, _, List.append_assoc .., _, _, rfl, rfl, rfl⟩

theorem run_takeCreateAuthority_eq_ok {input rest : List UInt8} {authority : CreateAuthority} :
    takeCreateAuthority input = .ok (authority, rest) ↔
      input = createAuthorityBytes authority ++ rest := by
  simp only [takeCreateAuthority, run_bind_eq_ok, run_takeBytes_eq_ok, run_pure_eq_ok,
    createAuthorityBytes]
  constructor
  · rintro ⟨createAuthorityId, _, rfl, authenticator, _, rfl, rfl, rfl⟩
    exact (List.append_assoc ..).symm
  · rintro rfl
    exact ⟨_, _, List.append_assoc .., _, _, rfl, rfl, rfl⟩

theorem run_takeSubscriptionVersion_eq_ok {input rest : List UInt8} {u : Unit} :
    takeSubscriptionVersion input = .ok (u, rest) ↔
      input = toBe 2 subscriptionPayloadVersion ++ rest := by
  simp only [takeSubscriptionVersion, run_bind_eq_ok, run_takeBe_eq_ok, run_check_eq_ok]
  constructor
  · rintro ⟨_, _, ⟨-, rfl⟩, rfl, rfl⟩
    rfl
  · rintro rfl
    exact ⟨_, _, ⟨by decide, rfl⟩, rfl, rfl⟩

/-! ## The control mutations -/

theorem decodeCreateDocumentRequest_eq_ok_iff {request : CreateDocumentRequest}
    {payload : List UInt8} :
    decodeCreateDocumentRequest payload = .ok request ↔
      payload = encodeCreateDocumentRequest request := by
  rw [decodeCreateDocumentRequest, run'_eq_ok, encodeCreateDocumentRequest]
  simp only [run_bind_eq_ok, run_takeCreateAuthority_eq_ok, run_takeBytes_eq_ok,
    run_takeCapabilityAuthority_eq_ok, run_finishCapability_eq_ok, run_pure_eq_ok]
  constructor
  · rintro ⟨_, authority, _, rfl, requestId, _, rfl, documentId, _, rfl, root, _, rfl, _, _,
      ⟨rfl, rfl⟩, rfl, rfl⟩
    rw [List.append_nil]
  · rintro rfl
    exact ⟨[], _, _, rfl, _, _, rfl, _, _, rfl, request.root, [], by rw [List.append_nil], (), [],
      ⟨rfl, rfl⟩, rfl, rfl⟩

/-- The operation sets that a grant may name, from their two bytes. -/
theorem filter_fromBits_eq_some_iff {bits : ℕ} (hbits : bits < 256 ^ 2)
    {operations : OperationSet} :
    (OperationSet.fromBits (BitVec.ofNat 16 bits)).filter (!·.isEmpty) = some operations ↔
      operations.isEmpty = false ∧ bits = operations.bits.toNat := by
  rw [Option.filter_eq_some_iff, OperationSet.fromBits, Bool.not_eq_true', and_comm]
  refine and_congr_right fun _ ↦ ?_
  have htoNat : (BitVec.ofNat 16 bits).toNat = bits := Nat.mod_eq_of_lt hbits
  constructor
  · intro h
    split at h
    · rw [← Option.some_inj.mp h, htoNat]
    · exact absurd h (by simp)
  · rintro rfl
    rw [BitVec.ofNat_toNat, BitVec.setWidth_eq, dif_pos operations.canonical]

theorem decodeGrantCapabilityRequest_eq_ok_iff {request : GrantCapabilityRequest}
    {payload : List UInt8} :
    decodeGrantCapabilityRequest payload = .ok request ↔
      request.operations.isEmpty = false ∧ payload = encodeGrantCapabilityRequest request := by
  rw [decodeGrantCapabilityRequest, run'_eq_ok, encodeGrantCapabilityRequest]
  simp only [run_bind_eq_ok, run_takeBytes_eq_ok, run_takeCapabilityAuthority_eq_ok,
    run_takeBe_eq_ok]
  constructor
  · rintro ⟨rest, documentId, _, rfl, issuer, _, rfl, requestId, _, rfl, descendant, _, rfl,
      bits, _, ⟨hbits, rfl⟩, hrun⟩
    cases hoperations : (OperationSet.fromBits (BitVec.ofNat 16 bits)).filter (!·.isEmpty) with
    | none =>
      rw [hoperations] at hrun
      exact absurd hrun run_throw_eq_ok
    | some operations =>
      obtain ⟨hnonempty, rfl⟩ := (filter_fromBits_eq_some_iff hbits).mp hoperations
      rw [hoperations] at hrun
      simp only [run_bind_eq_ok, run_finishCapability_eq_ok, run_pure_eq_ok] at hrun
      obtain ⟨_, _, ⟨rfl, rfl⟩, rfl, rfl⟩ := hrun
      exact ⟨hnonempty, by rw [List.append_nil]⟩
  · rintro ⟨hnonempty, rfl⟩
    have hbits : request.operations.bits.toNat < 256 ^ 2 := request.operations.bits.isLt
    refine ⟨[], _, _, rfl, _, _, rfl, _, _, rfl, _, _, rfl, request.operations.bits.toNat, [],
      ⟨hbits, by rw [List.append_nil]⟩, ?_⟩
    rw [(filter_fromBits_eq_some_iff hbits).mpr ⟨hnonempty, rfl⟩]
    simp only [run_bind_eq_ok, run_finishCapability_eq_ok, run_pure_eq_ok]
    exact ⟨(), [], ⟨trivial, rfl⟩, trivial, rfl⟩

theorem decodeRevokeCapabilityRequest_eq_ok_iff {request : RevokeCapabilityRequest}
    {payload : List UInt8} :
    decodeRevokeCapabilityRequest payload = .ok request ↔
      payload = encodeRevokeCapabilityRequest request := by
  rw [decodeRevokeCapabilityRequest, run'_eq_ok, encodeRevokeCapabilityRequest]
  simp only [run_bind_eq_ok, run_takeBytes_eq_ok, run_takeCapabilityAuthority_eq_ok,
    run_finishCapability_eq_ok, run_pure_eq_ok]
  constructor
  · rintro ⟨_, documentId, _, rfl, issuer, _, rfl, requestId, _, rfl, target, _, rfl, _, _,
      ⟨rfl, rfl⟩, rfl, rfl⟩
    rw [List.append_nil]
  · rintro rfl
    exact ⟨[], _, _, rfl, _, _, rfl, _, _, rfl, request.targetCapabilityId.bytes, [],
      by rw [List.append_nil], (), [], ⟨rfl, rfl⟩, rfl, rfl⟩

/-! ## The submission of an update -/

/-- The record of a submission is there and leaves room for the authority. -/
def AuthorizedUpdateRequest.Valid (request : AuthorizedUpdateRequest) : Prop :=
  request.encodedRecord ≠ [] ∧ request.encodedRecord.length ≤ maxUpdateRecordLength

theorem encodeAuthorizedUpdateRequest_eq_ok {request : AuthorizedUpdateRequest}
    (h : request.Valid) : encodeAuthorizedUpdateRequest request =
      .ok (authorityBytes request.authority ++ request.encodedRecord) := by
  have hlength : request.encodedRecord.length ≤ 4024 := h.2
  have hauthority : capabilityAuthorityLength = 48 := rfl
  have hpayload : maxApplicationPayloadLength = 4072 := rfl
  rw [encodeAuthorizedUpdateRequest, if_neg (Nat.not_lt.mpr h.2), checkedAdd_eq_some (by omega)]
  exact if_neg (by omega)

theorem decodeAuthorizedUpdateRequest_eq_ok_iff {request : AuthorizedUpdateRequest}
    {payload : List UInt8} :
    decodeAuthorizedUpdateRequest payload = .ok request ↔
      request.Valid ∧ payload = authorityBytes request.authority ++ request.encodedRecord := by
  rw [decodeAuthorizedUpdateRequest, AuthorizedUpdateRequest.Valid]
  constructor
  · intro h
    split at h
    · exact absurd h (by simp)
    rename_i authority remaining hread
    split at h
    · exact absurd h (by simp)
    rename_i hnonempty
    split at h
    · exact absurd h (by simp)
    rename_i hlength
    rw [← Except.ok.inj h]
    exact ⟨⟨hnonempty, Nat.not_lt.mp hlength⟩, run_takeCapabilityAuthority_eq_ok.mp hread⟩
  · rintro ⟨⟨hnonempty, hlength⟩, rfl⟩
    rw [run_takeCapabilityAuthority_eq_ok.mpr rfl]
    show (if request.encodedRecord = [] then _ else _) = _
    rw [if_neg hnonempty, if_neg (Nat.not_lt.mpr hlength)]

/-! ## Fetch and subscribe -/

theorem decodeFetchRequest_eq_ok_iff {request : FetchRequest} {payload : List UInt8} :
    decodeFetchRequest payload = .ok request ↔ payload = encodeFetchRequest request := by
  rw [decodeFetchRequest, decodeExactly_eq_ok_iff, encodeFetchRequest]
  simp only [run_bind_eq_ok, run_readAuthority_eq_ok, run_takeBytes_eq_ok, run_pure_eq_ok]
  constructor
  · rintro ⟨authority, _, rfl, documentId, _, rfl, updateId, _, rfl, rfl, rfl⟩
    rw [List.append_nil]
  · rintro rfl
    exact ⟨_, _, rfl, _, _, rfl, request.updateId.bytes, [], by rw [List.append_nil], rfl, rfl⟩

theorem decodeSubscribeUpdatesRequest_eq_ok_iff {request : SubscribeUpdatesRequest}
    {payload : List UInt8} :
    decodeSubscribeUpdatesRequest payload = .ok request ↔
      payload = encodeSubscribeUpdatesRequest request := by
  rw [decodeSubscribeUpdatesRequest, decodeExactly_eq_ok_iff, encodeSubscribeUpdatesRequest]
  simp only [run_bind_eq_ok, run_takeSubscriptionVersion_eq_ok, run_readAuthority_eq_ok,
    run_takeBytes_eq_ok, run_pure_eq_ok]
  constructor
  · rintro ⟨_, _, rfl, authority, _, rfl, documentId, _, rfl, rfl, rfl⟩
    rw [List.append_nil]
  · rintro rfl
    exact ⟨(), _, rfl, _, _, rfl, request.documentId.bytes, [], by rw [List.append_nil], rfl, rfl⟩

/-! ## All of them -/

/-- **The request codecs are exact.**  Each request that is valid is written and read back as
itself, and each payload that is accepted is the one that its request is written as. -/
theorem requestCodecs_exact :
    Codec.Exact (fun _ ↦ True) (fun request ↦ .ok (encodeCreateDocumentRequest request))
      decodeCreateDocumentRequest ∧
    Codec.Exact (fun request : GrantCapabilityRequest ↦ request.operations.isEmpty = false)
      (fun request ↦ .ok (encodeGrantCapabilityRequest request)) decodeGrantCapabilityRequest ∧
    Codec.Exact (fun _ ↦ True) (fun request ↦ .ok (encodeRevokeCapabilityRequest request))
      decodeRevokeCapabilityRequest ∧
    Codec.Exact (fun request : AuthorizedUpdateRequest ↦ request.encodedRecord ≠ [] ∧
        request.encodedRecord.length ≤ maxUpdateRecordLength)
      encodeAuthorizedUpdateRequest decodeAuthorizedUpdateRequest ∧
    Codec.Exact (fun _ ↦ True) (fun request ↦ .ok (encodeFetchRequest request)) decodeFetchRequest ∧
    Codec.Exact (fun _ ↦ True) (fun request ↦ .ok (encodeSubscribeUpdatesRequest request))
      decodeSubscribeUpdatesRequest := by
  refine ⟨.of_iff encodeCreateDocumentRequest (fun _ _ ↦ rfl) fun request payload ↦ ?_,
    .of_iff encodeGrantCapabilityRequest (fun _ _ ↦ rfl) fun request payload ↦
      decodeGrantCapabilityRequest_eq_ok_iff,
    .of_iff encodeRevokeCapabilityRequest (fun _ _ ↦ rfl) fun request payload ↦ ?_,
    .of_iff _ (fun request hvalid ↦ encodeAuthorizedUpdateRequest_eq_ok hvalid)
      fun request payload ↦ decodeAuthorizedUpdateRequest_eq_ok_iff,
    .of_iff encodeFetchRequest (fun _ _ ↦ rfl) fun request payload ↦ ?_,
    .of_iff encodeSubscribeUpdatesRequest (fun _ _ ↦ rfl) fun request payload ↦ ?_⟩
  · rw [decodeCreateDocumentRequest_eq_ok_iff, true_and]
  · rw [decodeRevokeCapabilityRequest_eq_ok_iff, true_and]
  · rw [decodeFetchRequest_eq_ok_iff, true_and]
  · rw [decodeSubscribeUpdatesRequest_eq_ok_iff, true_and]

end Renee.Wire
