import Renee.Service.Handler
import Renee.Store.Readable

/-!
# A document can always be read

Nothing that has been accepted into a document keeps it from being read: whatever a reachable store
holds, an authorized request that reads updates is answered, and the answer comes out of the frame
as it went in.  A connection ends only where the random source has failed.

The limits that tie this together are in different places: a record is accepted only if its metadata
fits a page on its own, a page is cut to the limit the handler computes, and what the handler
reserves is what the response needs.  `Delivers` says what arrives; `documents_stay_readable` is the
result.
-/

set_option autoImplicit false

namespace Renee.Service

open ByteString Wire DurableUpdateStore

/-! ## What arrives -/

/-- A reply is a body within the frame, and carries a message whose payload is as described. -/
def Delivers (request : Envelope) (reply : Except HandlerError (List UInt8)) (messageType : U16)
    (carried : List UInt8 → Prop) : Prop :=
  ∃ body payload, reply = .ok body ∧ body.length ≤ maxBodyLength ∧
    decodeBody body = .ok ⟨request.correlationId, messageType, payload, version⟩ ∧ carried payload

/-- A stable error arrives. -/
def DeliversError (request : Envelope) (reply : Except HandlerError (List UInt8))
    (code : UpdateErrorCode) : Prop :=
  Delivers request reply updateError fun payload ↦ payload = encodeUpdateError code

/-- An enumeration outcome arrives: a page with its items and its token. -/
def DeliversEnumeration (request : Envelope) (reply : Except HandlerError (List UInt8)) :
    StoreEnumerateOutcome → Prop
  | .authorized response => Delivers request reply enumerateUpdatesResponse fun payload ↦
      decodeEnumerateResponse payload = .ok (enumerateResponseOf response)
  | .authorizationDenied => DeliversError request reply .authorizationDenied
  | .retiredDocument => DeliversError request reply .retiredDocument
  | .invalidContinuation => DeliversError request reply .invalidOrExpiredContinuation
  | .backpressure => DeliversError request reply .backpressure

/-- A vector-backfill outcome arrives. -/
def DeliversBackfill (request : Envelope) (reply : Except HandlerError (List UInt8)) :
    StoreVectorBackfillOutcome → Prop
  | .authorized response => Delivers request reply vectorBackfillResponse fun payload ↦
      decodeVectorBackfillResponse payload = .ok (vectorBackfillResponseOf response)
  | .authorizationDenied => DeliversError request reply .authorizationDenied
  | .retiredDocument => DeliversError request reply .retiredDocument
  | .invalidContinuation => DeliversError request reply .invalidOrExpiredContinuation
  | .backpressure => DeliversError request reply .backpressure

/-- The payload of a fetched update arrives, or that there is none. -/
def DeliversPayload (request : Envelope) (reply : Except HandlerError (List UInt8)) :
    Option (List UInt8) → Prop
  | some encryptedPayload => Delivers request reply fetchUpdateResponse fun payload ↦
      decodeFetchResponse payload = .ok encryptedPayload
  | none => DeliversError request reply .notFound

variable {request : Envelope}

theorem delivers_encodedResponse {messageType : U16}
    {encoded : Except UpdateCodecError (List UInt8)}
    {payload : List UInt8} {carried : List UInt8 → Prop} (hencoded : encoded = .ok payload)
    (hlength : payload.length ≤ maxApplicationPayloadLength) (hcarried : carried payload) :
    Delivers request (encodedResponse request messageType encoded) messageType carried := by
  obtain ⟨body, hreply, hbody, hdecode⟩ := response_eq_ok request messageType hlength
  subst hencoded
  exact ⟨body, payload, hreply, hbody, hdecode, hcarried⟩

theorem deliversError_errorResponse (request : Envelope) (code : UpdateErrorCode) :
    DeliversError request (errorResponse request code) code := by
  obtain ⟨body, hreply, hbody, hdecode⟩ := errorResponse_eq_ok request code
  exact ⟨body, _, hreply, hbody, hdecode, rfl⟩

/-! ## Pages arrive -/

/-- **An enumeration page arrives** if its encoder has room for it. -/
theorem delivers_enumeration {response : AuthorizedStoredUpdatePage} (h : response.Deliverable) :
    DeliversEnumeration request (enumerateReply request (.ok (.authorized response)))
      (.authorized response) := by
  have hmax : maxApplicationPayloadLength = 4072 := rfl
  have hentry : maxEnumerableMetadataLength = 4035 := rfl
  have hcontinuation : enumerationContinuationLength = 32 := rfl
  have hfits := h.fits.length
  have hcount := h.fits.count
  have hcursor : (response.nextCursor.getD []).length ≤ 32 := by
    cases hc : response.nextCursor with
    | none => exact Nat.zero_le _
    | some bytes => exact le_of_eq (h.length bytes hc)
  have hlength : (enumerateResponseBytes (enumerateResponseOf response)).length ≤
      maxApplicationPayloadLength := by
    rw [enumerateResponseBytes, length_pageBytes, length_flatMap_metadataBytes]
    simp only [enumerateResponseOf]
    omega
  have hencode : encodeEnumerateResponse (enumerateResponseOf response) =
      .ok (enumerateResponseBytes (enumerateResponseOf response)) :=
    encodeEnumerateResponse_eq_ok_iff.mpr
      ⟨⟨h.hasMore, h.cursor, h.length, by simp only [enumerateResponseOf]; omega⟩, rfl, hlength⟩
  exact delivers_encodedResponse hencode hlength
    (decodeEnumerateResponse_of_encode hencode h.fits.payload)

/-- **A vector-backfill page arrives** if its encoder has room for it. -/
theorem delivers_backfill {response : AuthorizedVectorBackfillPage} (h : response.Deliverable) :
    DeliversBackfill request (vectorBackfillReply request (.ok (.authorized response)))
      (.authorized response) := by
  have hmax : maxApplicationPayloadLength = 4072 := rfl
  have hentry : maxEnumerableMetadataLength = 4035 := rfl
  have hcontinuation : vectorContinuationLength = 32 := rfl
  have hfits := h.fits.length
  have hcount := h.fits.count
  have hcursor : (response.nextCursor.getD []).length ≤ 32 := by
    cases hc : response.nextCursor with
    | none => exact Nat.zero_le _
    | some bytes => exact le_of_eq (h.length bytes hc)
  have hlength : (vectorBackfillResponseBytes (vectorBackfillResponseOf response)).length ≤
      maxApplicationPayloadLength := by
    rw [vectorBackfillResponseBytes, length_pageBytes, length_flatMap_metadataBytes]
    simp only [vectorBackfillResponseOf]
    omega
  have hencode : encodeVectorBackfillResponse (vectorBackfillResponseOf response) =
      .ok (vectorBackfillResponseBytes (vectorBackfillResponseOf response)) :=
    encodeVectorBackfillResponse_eq_ok_iff.mpr
      ⟨⟨h.cursor, h.length, by simp only [vectorBackfillResponseOf]; omega⟩, rfl, hlength⟩
  exact delivers_encodedResponse hencode hlength
    (decodeVectorBackfillResponse_of_encode hencode h.fits.payload)

/-- **A payload arrives.** -/
theorem delivers_payload {t : Tables} {d : DocumentId} {u : UpdateId} :
    DeliversPayload request (fetchReply request (.ok (.authorized (t.payload? d u))))
      (t.payload? d u) := by
  cases hp : t.payload? d u with
  | none => exact deliversError_errorResponse request .notFound
  | some payload =>
    obtain ⟨hne, hlong⟩ := Tables.length_payload? hp
    have hmax : maxUpdateRecordLength ≤ maxApplicationPayloadLength := by decide
    have hencode : encodeFetchResponse payload = .ok payload := by
      rw [encodeFetchResponse, if_neg hne, if_neg (by omega)]
    refine delivers_encodedResponse hencode (hlong.trans hmax) ?_
    rw [decodeFetchResponse, if_neg hne]

/-! ## Requests are answered -/

/-- A pagination request that the handler has passed on: its limit is the one computed there. -/
def Served : Request → Prop
  | .enumerate r _ => enumerateMetadataByteLimit = .ok r.metadataByteLimit
  | .vectorBackfill r _ => vectorMetadataByteLimit = .ok r.metadataByteLimit
  | _ => True

theorem Served.roomy {request : Request} (h : Served request) : request.Roomy := by
  cases request with
  | enumerate r m => exact (Except.ok.inj h).symm
  | vectorBackfill r m => exact (Except.ok.inj h).symm
  | _ => trivial

section Requests

variable {sha256 : List UInt8 → Bytes verifierLength} {s : DurableUpdateStore}

/-- An authorized enumeration request acts on the passes that have not expired. -/
theorem enumerateAuthorized_of_authorized {r : EnumerateRequest}
    {m : Moment enumerationContinuationLength}
    (hrecognized : s.subscriptions.recognizes r.channel = true)
    (hauth : authorizeDocument sha256 s.tables r.documentId r.capabilityId r.authenticator .read =
      .authorized) :
    (s.enumerateAuthorized sha256 r m).1 = (enumeratePasses s.tables s.generation r m
      (s.enumerationPasses.filter fun pass ↦ m.now < pass.expiresAt)).1 := by
  rw [enumerateAuthorized, if_neg (by rw [hrecognized]; simp), hauth]

theorem vectorBackfillAuthorized_of_authorized {r : VectorBackfillRequest}
    {m : Moment vectorContinuationLength}
    (hrecognized : s.subscriptions.recognizes r.channel = true)
    (hauth : authorizeDocument sha256 s.tables r.documentId r.capabilityId r.authenticator .read =
      .authorized) :
    (s.vectorBackfillAuthorized sha256 r m).1 = (vectorBackfillPasses s.tables r m
      (s.vectorPasses.filter fun pass ↦ m.now < pass.expiresAt)).1 := by
  rw [vectorBackfillAuthorized, if_neg (by rw [hrecognized]; simp), hauth]

theorem handleEnumerateUpdates_eq {channel : BrokerChannel}
    {m : Moment enumerationContinuationLength} {enumerate : Wire.EnumerateRequest}
    (hdecode : decodeEnumerateRequest request.payload = .ok enumerate) :
    (handleEnumerateUpdates sha256 s channel request m).1 = enumerateReply request
      (s.enumerateAuthorized sha256
        (enumerateArguments channel enumerate maxEnumerableMetadataLength) m).1 := by
  rw [handleEnumerateUpdates, hdecode]
  rfl

theorem handleVectorBackfill_eq {channel : BrokerChannel} {m : Moment vectorContinuationLength}
    {backfill : Wire.VectorBackfillRequest}
    (hdecode : decodeVectorBackfillRequest request.payload = .ok backfill) :
    (handleVectorBackfill sha256 s channel request m).1 = vectorBackfillReply request
      (s.vectorBackfillAuthorized sha256
        (vectorBackfillArguments channel backfill maxEnumerableMetadataLength) m).1 := by
  rw [handleVectorBackfill, hdecode]
  rfl

/-- Whatever an enumeration request is answered arrives. -/
theorem delivers_of_enumerationAnswer {t : Tables} {generation : StoreGeneration}
    {r : EnumerateRequest} {m : Moment enumerationContinuationLength}
    {passes : List EnumerationPass}
    {result : Except StoreError StoreEnumerateOutcome}
    (h : EnumerationAnswer t generation r m passes result) {outcome : StoreEnumerateOutcome}
    (houtcome : result = .ok outcome) :
    DeliversEnumeration request (enumerateReply request result) outcome := by
  subst houtcome
  cases h with
  | page hdeliverable => exact delivers_enumeration hdeliverable
  | invalid => exact deliversError_errorResponse request _
  | backpressure => exact deliversError_errorResponse request _

/-- Whatever a vector-backfill request is answered arrives. -/
theorem delivers_of_vectorAnswer {t : Tables} {r : VectorBackfillRequest}
    {m : Moment vectorContinuationLength} {passes : List VectorBackfillPass}
    {result : Except StoreError StoreVectorBackfillOutcome}
    (h : VectorAnswer t r m passes result) {outcome : StoreVectorBackfillOutcome}
    (houtcome : result = .ok outcome) :
    DeliversBackfill request (vectorBackfillReply request result) outcome := by
  subst houtcome
  cases h with
  | page hdeliverable => exact delivers_backfill hdeliverable
  | invalid => exact deliversError_errorResponse request _
  | backpressure => exact deliversError_errorResponse request _

end Requests

/-- **Documents stay readable.**  In every reachable store whose pagination requests came through
the handler, whatever records it has accepted:

* an authorized fetch is answered with the payload of the update or its absence, and the answer
  arrives;
* an authorized enumeration request is answered, unless a draw from the random source fails, and
  what it is answered arrives: a page with its items and token, which has an update unless its
  window has none, or an outcome that only a foreign token or a bound can lead to;
* the same holds of a vector-backfill request, whose page has moved past at least one record. -/
theorem documents_stay_readable (sha256 : List UInt8 → Bytes verifierLength)
    (requests : List Request) (hserved : ∀ request ∈ requests, Served request) :
    let s := initial.run sha256 requests
    (∀ (request : Envelope) (fetch : Wire.FetchRequest),
      decodeFetchRequest request.payload = .ok fetch →
      authorize sha256 s.tables fetch.documentId fetch.authority.capabilityId
        fetch.authority.authenticator .read = true →
      let payload? := s.tables.payload? fetch.documentId fetch.updateId
      fetchAuthorized sha256 s.tables fetch.documentId fetch.updateId fetch.authority.capabilityId
          fetch.authority.authenticator = .ok (.authorized payload?) ∧
        DeliversPayload request (handleFetchUpdate sha256 s request) payload?) ∧
    (∀ (channel : BrokerChannel) (request : Envelope) (m : Moment enumerationContinuationLength)
      (enumerate : Wire.EnumerateRequest), decodeEnumerateRequest request.payload = .ok enumerate →
      s.subscriptions.recognizes channel = true →
      authorizeDocument sha256 s.tables enumerate.documentId enumerate.authority.capabilityId
        enumerate.authority.authenticator .read = .authorized →
      ∃ metadataByteLimit, enumerateMetadataByteLimit = .ok metadataByteLimit ∧
        let r := enumerateArguments channel enumerate metadataByteLimit
        let result := (s.enumerateAuthorized sha256 r m).1
        EnumerationAnswer s.tables s.generation r m
          (s.enumerationPasses.filter fun pass ↦ m.now < pass.expiresAt) result ∧
        ∀ outcome, result = .ok outcome → DeliversEnumeration request
          (handleEnumerateUpdates sha256 s channel request m).1 outcome) ∧
    ∀ (channel : BrokerChannel) (request : Envelope) (m : Moment vectorContinuationLength)
      (backfill : Wire.VectorBackfillRequest),
      decodeVectorBackfillRequest request.payload = .ok backfill →
      s.subscriptions.recognizes channel = true →
      authorizeDocument sha256 s.tables backfill.documentId backfill.authority.capabilityId
        backfill.authority.authenticator .read = .authorized →
      ∃ metadataByteLimit, vectorMetadataByteLimit = .ok metadataByteLimit ∧
        let r := vectorBackfillArguments channel backfill metadataByteLimit
        let result := (s.vectorBackfillAuthorized sha256 r m).1
        VectorAnswer s.tables r m
          (s.vectorPasses.filter fun pass ↦ m.now < pass.expiresAt) result ∧
        ∀ outcome, result = .ok outcome → DeliversBackfill request
          (handleVectorBackfill sha256 s channel request m).1 outcome := by
  intro s
  have hlog : UpdatesWellFormed s.tables :=
    (wellFormed_runRequests wellFormed_initial requests).log
  have hpasses : s.PassesWellFormed _ := passesWellFormed_run sha256 requests
  have hreadable : s.Readable := readable_run sha256 fun request hmem ↦ (hserved request hmem).roomy
  refine ⟨fun request fetch hdecode hauth ↦ ?_, fun channel request m enumerate hdecode hchannel
    hauth ↦ ⟨_, enumerateMetadataByteLimit_eq, ?_⟩, fun channel request m backfill hdecode hchannel
    hauth ↦ ⟨_, vectorMetadataByteLimit_eq, ?_⟩⟩
  · intro payload?
    have hfetch : fetchAuthorized sha256 s.tables fetch.documentId fetch.updateId
        fetch.authority.capabilityId fetch.authority.authenticator = .ok
          (.authorized payload?) := by
      rw [fetchAuthorized, if_neg (by rw [hauth]; simp), hlog.fetchIn_eq]
    refine ⟨hfetch, ?_⟩
    rw [handleFetchUpdate, hdecode]
    simp only
    rw [hfetch]
    exact delivers_payload
  · intro r result
    have hanswer : EnumerationAnswer s.tables s.generation r m
        (s.enumerationPasses.filter fun pass ↦ m.now < pass.expiresAt) result := by
      rw [show result = _ from enumerateAuthorized_of_authorized hchannel hauth]
      exact enumeratePasses_answer hlog (hpasses.enumeration.filter _)
        (fun pass hpass ↦ hreadable.enumeration pass (List.mem_filter.mp hpass).1) rfl
    refine ⟨hanswer, fun outcome houtcome ↦ ?_⟩
    rw [handleEnumerateUpdates_eq hdecode]
    exact delivers_of_enumerationAnswer hanswer houtcome
  · intro r result
    have hanswer : VectorAnswer s.tables r m
        (s.vectorPasses.filter fun pass ↦ m.now < pass.expiresAt) result := by
      rw [show result = _ from vectorBackfillAuthorized_of_authorized hchannel hauth]
      exact vectorBackfillPasses_answer hlog (hpasses.vector.filter _)
        (fun pass hpass ↦ hreadable.vector pass (List.mem_filter.mp hpass).1) rfl
    refine ⟨hanswer, fun outcome houtcome ↦ ?_⟩
    rw [handleVectorBackfill_eq hdecode]
    exact delivers_of_vectorAnswer hanswer houtcome

/-! ## The small deployment -/

namespace Sample

open Renee.Sample

def authority : CapabilityAuthority := ⟨child, secret 3⟩

/-- A request of the child, under the zero correlation identifier. -/
def envelope (messageType : U16) (payload : List UInt8) : Envelope :=
  ⟨bytes _ 0, messageType, payload, version⟩

def fetchEnvelope : Envelope :=
  envelope fetchUpdate (encodeFetchRequest ⟨authority, document, update.updateId⟩)

/-- An enumeration of the document, from the beginning. -/
def enumerateEnvelope : Envelope :=
  envelope enumerateUpdates (authorityBytes authority ++ (document.bytes.toList ++
    (toBe 1 0 ++ cursorBytes none)))

/-- A backfill of a client that has nothing. -/
def backfillEnvelope : Envelope :=
  envelope vectorBackfill (vectorBackfillRequestBytes
    ⟨authority, document, Renee.Sample.backfilling.oplogVersion, .origin⟩ 0 none)

/-- The store once the child has submitted its update. -/
def served : List Request := opening ++ [.accept Renee.Sample.accept]

end Sample

open Renee.Sample in
/-- The update of the child comes back, on its own and in pages. -/
theorem documents_stay_readable_sample :
    let s := initial.run sha256 Sample.served
    DeliversPayload Sample.fetchEnvelope (handleFetchUpdate sha256 s Sample.fetchEnvelope)
        (some [7]) ∧
      DeliversEnumeration Sample.enumerateEnvelope
        (handleEnumerateUpdates sha256 s channel Sample.enumerateEnvelope moment).1
        (.authorized ⟨⟨false, 1, [update.metadata]⟩, some (bytes 32 1).toList⟩) ∧
      DeliversBackfill Sample.backfillEnvelope
        (handleVectorBackfill sha256 s channel Sample.backfillEnvelope moment).1
        (.authorized ⟨⟨false, some .first, [update.metadata]⟩, none⟩) := by
  intro s
  obtain ⟨hfetch, henumerate, hbackfill⟩ := documents_stay_readable sha256 Sample.served
    (by simp [Sample.served, opening, Served])
  have hpayload : s.tables.payload? document update.updateId = some [7] := by decide +kernel
  have hdocument : authorizeDocument sha256 s.tables document child (secret 3) .read =
      .authorized := by decide +kernel
  have hauth : authorize sha256 s.tables document child (secret 3) .read = true := by
    rw [authorize, hdocument]
    rfl
  have hchannel : s.subscriptions.recognizes channel = true := by decide +kernel
  refine ⟨?_, ?_, ?_⟩
  · have h := (hfetch Sample.fetchEnvelope ⟨Sample.authority, document, update.updateId⟩
      (by decide +kernel) hauth).2
    rw [show DurableUpdateStore.tables _ = _ from rfl] at h
    exact hpayload ▸ h
  · obtain ⟨limit, hlimit, -, h⟩ := henumerate channel Sample.enumerateEnvelope moment
      ⟨Sample.authority, document, .origin⟩ (by decide +kernel) hchannel hdocument
    obtain rfl := Except.ok.inj (enumerateMetadataByteLimit_eq.symm.trans hlimit)
    exact h _ (by decide +kernel)
  · obtain ⟨limit, hlimit, -, h⟩ := hbackfill channel Sample.backfillEnvelope moment
      ⟨Sample.authority, document, Renee.Sample.backfilling.oplogVersion, .origin⟩
        (by decide +kernel)
      hchannel hdocument
    obtain rfl := Except.ok.inj (vectorMetadataByteLimit_eq.symm.trans hlimit)
    exact h _ (by decide +kernel)

end Renee.Service
