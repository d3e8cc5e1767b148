import Renee.Wire.Frame

/-!
# Greetings

The payload of a hello names a profile and carries a banner, each as its UTF-8 bytes behind a length
of two bytes.  A field is at most `maxGreetingFieldLength` bytes long, and nothing follows the
banner.

* `decodeGreeting_encodeGreeting`: the fields of an encoded greeting are read back.
* `encodeGreeting_eq_ok`: fields that are not too long can be encoded.
-/

set_option autoImplicit false

namespace Renee.Wire

open ByteString

/-! ## The messages of negotiation -/

/-- Client-to-server negotiation request. -/
def clientHello : U16 := 1

/-- Successful server negotiation response. -/
def serverHello : U16 := 2

/-- Explicit protocol rejection. -/
def protocolError : U16 := 3

/-- The bytes of a text. -/
def asBytes (text : String) : List UInt8 := text.toUTF8.data.toList

/-- Experimental profile identifier carried by negotiation messages. -/
def profile : String := "renee-experimental-v0"

/-- Negotiation rejection payload for an unknown envelope version. -/
def errorUnsupportedVersion : List UInt8 := asBytes "unsupported-version"

/-- Negotiation rejection payload for an unknown profile. -/
def errorUnsupportedProfile : List UInt8 := asBytes "unsupported-profile"

/-- Negotiation rejection payload for a non-hello first message. -/
def errorExpectedHello : List UInt8 := asBytes "expected-client-hello"

/-- Negotiation rejection payload for a repeated hello. -/
def errorAlreadyNegotiated : List UInt8 := asBytes "already-negotiated"

/-- Negotiation rejection payload for a structurally invalid hello. -/
def errorMalformedHello : List UInt8 := asBytes "malformed-client-hello"

/-! ## The greeting codec -/

/-- Maximum UTF-8 byte length of either greeting field. -/
def maxGreetingFieldLength : ℕ := 256

/-- The structured payload carried by client and server hello messages. -/
@[ext] structure Greeting where
  /-- Informational implementation-specific greeting. -/
  banner : String
  /-- Requested or selected protocol profile. -/
  profile : String
deriving DecidableEq

/-- A structural greeting-payload decoding error. -/
inductive GreetingDecodeError
  | truncated
  | fieldTooLong
  | trailingBytes
  | invalidUtf8
deriving DecidableEq

/-- Why a greeting cannot be encoded. -/
inductive GreetingEncodeError
  | exceedsActiveLimit
  | lengthOverflow
deriving DecidableEq

def appendGreetingField (payload : List UInt8) (field : String) :
    Except GreetingEncodeError (List UInt8) :=
  let bytes := asBytes field
  if bytes.length > maxGreetingFieldLength then .error .exceedsActiveLimit
  else if bytes.length < 2 ^ 16 then .ok (payload ++ toBe 2 bytes.length ++ bytes)
  else .error .lengthOverflow

/-- Encode a profile and implementation banner as a hello payload. -/
def encodeGreeting (profile banner : String) : Except GreetingEncodeError (List UInt8) := do
  let payload ← appendGreetingField [] profile
  appendGreetingField payload banner

/-- The bytes of a payload in a range, if it has them. -/
def getRange (payload : List UInt8) (start finish : ℕ) : Option (List UInt8) :=
  if start ≤ finish ∧ finish ≤ payload.length then some ((payload.drop start).take (finish - start))
  else none

def decodeGreetingField (payload : List UInt8) (offset : ℕ) :
    Except GreetingDecodeError (String × ℕ) :=
  match checkedAdd 64 offset 2 with
  | none => .error .truncated
  | some lengthEnd =>
    match getRange payload offset lengthEnd with
    | none => .error .truncated
    | some lengthBytes =>
      let length := ofBe lengthBytes
      if length > maxGreetingFieldLength then .error .fieldTooLong
      else match checkedAdd 64 lengthEnd length with
        | none => .error .truncated
        | some fieldEnd =>
          match getRange payload lengthEnd fieldEnd with
          | none => .error .truncated
          | some field =>
            match String.fromUTF8? field.toByteArray with
            | none => .error .invalidUtf8
            | some field => .ok (field, fieldEnd)

/-- Decode a complete structured hello payload. -/
def decodeGreeting (payload : List UInt8) : Except GreetingDecodeError Greeting := do
  let (profile, afterProfile) ← decodeGreetingField payload 0
  let (banner, afterBanner) ← decodeGreetingField payload afterProfile
  if afterBanner ≠ payload.length then .error .trailingBytes else .ok ⟨banner, profile⟩

/-! ## Round trips -/

/-- The bytes of a greeting field. -/
def fieldBytes (field : String) : List UInt8 := toBe 2 (asBytes field).length ++ asBytes field

theorem fromUTF8?_asBytes (text : String) :
    String.fromUTF8? (asBytes text).toByteArray = some text := by
  have hbytes : (asBytes text).toByteArray = text.toByteArray := by
    refine ByteArray.ext ?_
    rw [asBytes, List.data_toByteArray, Array.toArray_toList, String.toUTF8_eq_toByteArray]
  rw [hbytes, String.fromUTF8?, dif_pos text.isValidUTF8]
  rfl

theorem appendGreetingField_eq_ok_iff {payload payload' : List UInt8} {field : String} :
    appendGreetingField payload field = .ok payload' ↔
      (asBytes field).length ≤ maxGreetingFieldLength ∧ payload' = payload ++ fieldBytes field := by
  have hmax : maxGreetingFieldLength = 256 := rfl
  rw [appendGreetingField, fieldBytes, ← List.append_assoc]
  by_cases h : (asBytes field).length ≤ maxGreetingFieldLength
  · have hlength : (asBytes field).length < 2 ^ 16 := by omega
    simp only [if_neg (not_lt.mpr h), if_pos hlength, h, true_and, Except.ok.injEq, eq_comm]
  · simp only [if_pos (not_le.mp h), h, false_and, iff_false]
    exact fun hok ↦ absurd hok (by simp)

/-- Fields that are not too long can be encoded. -/
theorem encodeGreeting_eq_ok_iff {profile banner : String} {payload : List UInt8} :
    encodeGreeting profile banner = .ok payload ↔
      (asBytes profile).length ≤ maxGreetingFieldLength ∧
        (asBytes banner).length ≤ maxGreetingFieldLength ∧
        payload = fieldBytes profile ++ fieldBytes banner := by
  rw [encodeGreeting]
  constructor
  · intro h
    cases hprofile : appendGreetingField [] profile with
    | error error => rw [hprofile] at h; exact absurd h (by simp [bind, Except.bind])
    | ok encoded =>
      rw [hprofile] at h
      obtain ⟨hle, rfl⟩ := appendGreetingField_eq_ok_iff.mp hprofile
      obtain ⟨hle', rfl⟩ := appendGreetingField_eq_ok_iff.mp h
      exact ⟨hle, hle', rfl⟩
  · rintro ⟨hle, hle', rfl⟩
    rw [appendGreetingField_eq_ok_iff.mpr ⟨hle, rfl⟩]
    exact appendGreetingField_eq_ok_iff.mpr ⟨hle', rfl⟩

theorem getRange_eq_some {payload field rest : List UInt8} {offset length : ℕ}
    (hoffset : offset ≤ payload.length) (h : payload.drop offset = field ++ rest)
    (hlength : field.length = length) : getRange payload offset (offset + length) = some field := by
  have hfit := congrArg List.length h
  rw [List.length_drop, List.length_append, hlength] at hfit
  rw [getRange, if_pos ⟨Nat.le_add_right _ _, by omega⟩, h, Nat.add_sub_cancel_left,
    List.take_left' hlength]

/-- A field is what was written there. -/
theorem decodeGreetingField_eq {payload rest : List UInt8} {offset : ℕ} {field : String}
    (hlength : (asBytes field).length ≤ maxGreetingFieldLength) (hoffset : offset ≤ payload.length)
    (h : payload.drop offset = fieldBytes field ++ rest) (hpayload : payload.length < 2 ^ 64) :
    decodeGreetingField payload offset = .ok (field, offset + (fieldBytes field).length) := by
  have hmax : maxGreetingFieldLength = 256 := rfl
  have hbytes : (fieldBytes field).length = 2 + (asBytes field).length := by simp [fieldBytes]
  have hfit := congrArg List.length h
  rw [List.length_drop, List.length_append, hbytes] at hfit
  rw [fieldBytes, List.append_assoc] at h
  have hfield := drop_field h (length_toBe 2 _)
  have hnumber : ofBe (toBe 2 (asBytes field).length) = (asBytes field).length :=
    ofBe_toBe (lt_of_le_of_lt hlength (by decide))
  rw [decodeGreetingField, checkedAdd_eq_some (by omega)]
  dsimp only
  rw [getRange_eq_some hoffset h (length_toBe 2 _)]
  dsimp only
  rw [hnumber, if_neg (not_lt.mpr hlength), checkedAdd_eq_some (by omega)]
  dsimp only
  rw [getRange_eq_some (by omega) hfield rfl]
  dsimp only
  rw [fromUTF8?_asBytes, hbytes, Nat.add_assoc]

/-- **The fields of an encoded greeting are read back.** -/
theorem decodeGreeting_encodeGreeting {profile banner : String} {payload : List UInt8}
    (h : encodeGreeting profile banner = .ok payload) :
    decodeGreeting payload = .ok ⟨banner, profile⟩ := by
  obtain ⟨hprofile, hbanner, rfl⟩ := encodeGreeting_eq_ok_iff.mp h
  have hmax : maxGreetingFieldLength = 256 := rfl
  have hlength (field : String) : (fieldBytes field).length = 2 + (asBytes field).length := by
    simp [fieldBytes]
  have hpayload : (fieldBytes profile ++ fieldBytes banner).length < 2 ^ 64 := by
    rw [List.length_append, hlength, hlength]
    omega
  have hdrop : (fieldBytes profile ++ fieldBytes banner).drop (0 + (fieldBytes profile).length) =
      fieldBytes banner ++ [] := by
    rw [List.append_nil, List.drop_left' (Nat.zero_add _).symm]
  have hle : 0 + (fieldBytes profile).length ≤
      (fieldBytes profile ++ fieldBytes banner).length := by
    rw [Nat.zero_add, List.length_append]
    exact Nat.le_add_right _ _
  rw [decodeGreeting, decodeGreetingField_eq hprofile (Nat.zero_le _) rfl hpayload]
  dsimp only [bind, Except.bind]
  rw [decodeGreetingField_eq hbanner hle hdrop hpayload, Nat.zero_add, ← List.length_append]
  exact if_neg (not_not.mpr rfl)

/-! ## What is accepted -/

/-- A text is read from its own bytes. -/
theorem asBytes_of_fromUTF8? {bytes : List UInt8} {text : String}
    (h : String.fromUTF8? bytes.toByteArray = some text) : asBytes text = bytes := by
  rw [String.fromUTF8?] at h
  split at h
  · obtain rfl := Option.some_inj.mp h
    rw [asBytes, String.toUTF8_eq_toByteArray]
    exact congrArg Array.toList List.data_toByteArray
  · exact absurd h (by simp)

theorem getRange_eq_some_iff {payload bytes : List UInt8} {start finish : ℕ} :
    getRange payload start finish = some bytes ↔
      start ≤ finish ∧ finish ≤ payload.length ∧ bytes = (payload.drop start).take
        (finish - start) := by
  rw [getRange]
  split_ifs with h
  · rw [Option.some_inj, eq_comm, and_iff_right h.1, and_iff_right h.2]
  · exact ⟨fun hnone ↦ absurd hnone (by simp), fun hsome ↦ absurd ⟨hsome.1, hsome.2.1⟩ h⟩

/-- A range of a payload is followed by the rest of it. -/
theorem drop_of_getRange {payload bytes : List UInt8} {start length : ℕ}
    (h : getRange payload start (start + length) = some bytes) :
    payload.drop start = bytes ++ payload.drop (start + length) ∧ bytes.length = length ∧
      start + length ≤ payload.length := by
  obtain ⟨-, hfinish, rfl⟩ := getRange_eq_some_iff.mp h
  rw [Nat.add_sub_cancel_left]
  refine ⟨?_, ?_, hfinish⟩
  · rw [← List.drop_drop, List.take_append_drop]
  · rw [List.length_take, List.length_drop]
    omega

/-- **A field that is accepted is one that is written.** -/
theorem decodeGreetingField_eq_ok {payload : List UInt8} {offset fieldEnd : ℕ} {field : String}
    (h : decodeGreetingField payload offset = .ok (field, fieldEnd)) :
    (asBytes field).length ≤ maxGreetingFieldLength ∧
      payload.drop offset = fieldBytes field ++ payload.drop fieldEnd ∧
      fieldEnd ≤ payload.length := by
  rw [decodeGreetingField] at h
  split at h
  · exact absurd h (by simp)
  rename_i lengthEnd hlengthEnd
  split at h
  · exact absurd h (by simp)
  rename_i lengthBytes hlengthBytes
  dsimp only at h
  split at h
  · exact absurd h (by simp)
  rename_i hshort
  split at h
  · exact absurd h (by simp)
  rename_i fieldEnd' hfieldEnd
  split at h
  · exact absurd h (by simp)
  rename_i bytes hbytes
  split at h
  · exact absurd h (by simp)
  rename_i field' hfield
  obtain ⟨rfl, rfl⟩ := Prod.mk.inj (Except.ok.inj h)
  obtain ⟨-, rfl⟩ := checkedAdd_eq_some_iff.mp hlengthEnd
  obtain ⟨-, rfl⟩ := checkedAdd_eq_some_iff.mp hfieldEnd
  obtain ⟨hdrop, hlength, -⟩ := drop_of_getRange hlengthBytes
  obtain ⟨hdrop', hlength', hend⟩ := drop_of_getRange hbytes
  obtain rfl := asBytes_of_fromUTF8? hfield
  refine ⟨hlength' ▸ not_lt.mp hshort, ?_, hend⟩
  rw [hdrop, hdrop', fieldBytes, hlength', toBe_ofBe_of_length hlength, List.append_assoc]

/-- **A greeting that is accepted is the one that is written.** -/
theorem encodeGreeting_of_decodeGreeting {payload : List UInt8} {greeting : Greeting}
    (h : decodeGreeting payload = .ok greeting) :
    encodeGreeting greeting.profile greeting.banner = .ok payload := by
  rw [decodeGreeting] at h
  cases hprofile : decodeGreetingField payload 0 with
  | error error => rw [hprofile] at h; exact absurd h (by simp [bind, Except.bind])
  | ok read =>
    obtain ⟨profile, afterProfile⟩ := read
    rw [hprofile] at h
    replace h : (decodeGreetingField payload afterProfile >>= fun read ↦
        if read.2 ≠ payload.length then .error .trailingBytes else .ok ⟨read.1, profile⟩) =
      .ok greeting := h
    cases hbanner : decodeGreetingField payload afterProfile with
    | error error => rw [hbanner] at h; exact absurd h (by simp [bind, Except.bind])
    | ok read =>
      obtain ⟨banner, afterBanner⟩ := read
      rw [hbanner] at h
      replace h : (if afterBanner ≠ payload.length then .error .trailingBytes
        else .ok ⟨banner, profile⟩) = (.ok greeting : Except GreetingDecodeError Greeting) := h
      split_ifs at h with hend
      obtain rfl := Except.ok.inj h
      obtain ⟨hle, hdrop, -⟩ := decodeGreetingField_eq_ok hprofile
      obtain ⟨hle', hdrop', -⟩ := decodeGreetingField_eq_ok hbanner
      refine encodeGreeting_eq_ok_iff.mpr ⟨hle, hle', ?_⟩
      rw [List.drop_zero] at hdrop
      rw [not_not.mp hend, List.drop_length, List.append_nil] at hdrop'
      rw [hdrop, hdrop']

/-- **The greeting codec is a bijection on its image.**  What is encoded is decoded to the same
fields, and what is decoded is the encoding of the fields; so the payloads that are accepted are
those of the greetings whose fields have at most `maxGreetingFieldLength` bytes, one for each. -/
theorem greeting_bijective :
    (∀ profile banner payload, encodeGreeting profile banner = .ok payload →
      decodeGreeting payload = .ok ⟨banner, profile⟩) ∧
    (∀ payload greeting, decodeGreeting payload = .ok greeting →
      encodeGreeting greeting.profile greeting.banner = .ok payload) ∧
    (∀ profile banner, (∃ payload, encodeGreeting profile banner = .ok payload) ↔
      (asBytes profile).length ≤ maxGreetingFieldLength ∧
        (asBytes banner).length ≤ maxGreetingFieldLength) ∧
    ∀ payload payload' greeting, decodeGreeting payload = .ok greeting →
      decodeGreeting payload' = .ok greeting → payload = payload' := by
  refine ⟨fun _ _ _ ↦ decodeGreeting_encodeGreeting, fun _ _ ↦ encodeGreeting_of_decodeGreeting,
    fun profile banner ↦ ⟨?_, ?_⟩, fun payload payload' greeting h h' ↦ ?_⟩
  · rintro ⟨payload, h⟩
    obtain ⟨hprofile, hbanner, -⟩ := encodeGreeting_eq_ok_iff.mp h
    exact ⟨hprofile, hbanner⟩
  · rintro ⟨hprofile, hbanner⟩
    exact ⟨_, encodeGreeting_eq_ok_iff.mpr ⟨hprofile, hbanner, rfl⟩⟩
  · exact Except.ok.inj ((encodeGreeting_of_decodeGreeting h).symm.trans
      (encodeGreeting_of_decodeGreeting h'))

end Renee.Wire
