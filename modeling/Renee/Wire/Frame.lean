import Renee.Wire.UpdateRecord

/-!
# The envelope

Every message travels in an envelope: the magic of the profile, version, message type, correlation
identifier, and the payload of the message.  An envelope body is at most `maxBodyLength` bytes long,
so a payload is at most `maxApplicationPayloadLength`.

* `decodeBody_encodeBody`: what is encoded decodes to the same envelope.
* `encodeBody_eq_ok`: a body can be encoded when its payload is not too long.
-/

set_option autoImplicit false

namespace Renee.Wire

open ByteString

/-- A version or a message type. -/
abbrev U16 := Fin (2 ^ 16)

instance neZero_u16 : NeZero (2 ^ 16 : ℕ) := ⟨by decide⟩

/-- `RNE0`. -/
def magic : List UInt8 := [82, 78, 69, 48]

/-- The only supported experimental envelope version. -/
def version : U16 := 0

/-- One decoded experimental application envelope. -/
@[ext] structure Envelope where
  /-- Opaque request correlation identifier. -/
  correlationId : Bytes 16
  /-- Numeric application message type. -/
  messageType : U16
  /-- Message-specific bytes. -/
  payload : List UInt8
  /-- Experimental envelope version. -/
  version : U16
deriving DecidableEq

/-- A structural envelope decoding error. -/
inductive DecodeError
  | tooLong
  | truncated
  | invalidMagic
deriving DecidableEq

/-- Why a body cannot be encoded. -/
inductive FrameError
  | lengthOverflow
  | exceedsActiveLimit
deriving DecidableEq

/-- The bytes of an envelope body. -/
def bodyBytes (envelope : Envelope) : List UInt8 :=
  magic ++ (toBe 2 envelope.version ++ (toBe 2 envelope.messageType ++
    (envelope.correlationId.toList ++ envelope.payload)))

/-- Encode one envelope body without its length prefix. -/
def encodeBody (envelope : Envelope) : Except FrameError (List UInt8) :=
  match checkedAdd 64 envelopeHeaderLength envelope.payload.length with
  | none => .error .lengthOverflow
  | some bodyLength =>
    if bodyLength > maxBodyLength then .error .exceedsActiveLimit else .ok (bodyBytes envelope)

def copyArray (length : ℕ) (body : List UInt8) (offset : ℕ) : Except DecodeError (Bytes length) :=
  match Bytes.slice? length body offset with
  | none => .error .truncated
  | some bytes => .ok bytes

/-- Decode an envelope body after its length prefix has been removed. -/
def decodeBody (body : List UInt8) : Except DecodeError Envelope :=
  if body.length > maxBodyLength then .error .tooLong
  else if body.length < envelopeHeaderLength then .error .truncated
  else if body.take 4 ≠ magic then .error .invalidMagic
  else do
    let version ← copyArray 2 body 4
    let messageType ← copyArray 2 body 6
    let correlationId ← copyArray 16 body 8
    pure ⟨correlationId, ⟨messageType.toNat, messageType.toNat_lt⟩, body.drop envelopeHeaderLength,
      ⟨version.toNat, version.toNat_lt⟩⟩

@[simp] theorem length_bodyBytes (envelope : Envelope) :
    (bodyBytes envelope).length = envelopeHeaderLength + envelope.payload.length := by
  simp only [bodyBytes, List.length_append, length_toBe, envelope.correlationId.length_eq,
    show magic.length = 4 from rfl, show envelopeHeaderLength = 24 from rfl]
  omega

/-- A body can be encoded when its payload is not too long. -/
theorem encodeBody_eq_ok {envelope : Envelope}
    (h : envelope.payload.length ≤ maxApplicationPayloadLength) :
    encodeBody envelope = .ok (bodyBytes envelope) := by
  have hheader : envelopeHeaderLength = 24 := rfl
  have hbody : maxBodyLength = 4096 := rfl
  have hpayload : maxApplicationPayloadLength = 4072 := rfl
  rw [encodeBody, checkedAdd_eq_some (by omega)]
  simp only
  rw [if_neg (by omega)]

theorem copyArray_eq {length offset : ℕ} {body rest : List UInt8} (bytes : Bytes length)
    (h : body.drop offset = bytes.toList ++ rest) : copyArray length body offset = .ok bytes := by
  rw [copyArray, Bytes.slice?_eq_some bytes h]

theorem decodeBody_bodyBytes {envelope : Envelope}
    (h : envelope.payload.length ≤ maxApplicationPayloadLength) :
    decodeBody (bodyBytes envelope) = .ok envelope := by
  have hheader : envelopeHeaderLength = 24 := rfl
  have hbody : maxBodyLength = 4096 := rfl
  have hpayload : maxApplicationPayloadLength = 4072 := rfl
  have hmagic : (bodyBytes envelope).take 4 = magic := List.take_left' rfl
  have hversion : (bodyBytes envelope).drop 4 = (Bytes.ofNat 2 envelope.version).toList ++
      ((Bytes.ofNat 2 envelope.messageType).toList ++
        (envelope.correlationId.toList ++ envelope.payload)) := List.drop_left' rfl
  have htype := drop_field hversion (Bytes.length_eq _)
  have hcorrelation := drop_field htype (Bytes.length_eq _)
  have hrest := drop_field hcorrelation (Bytes.length_eq _)
  rw [decodeBody, length_bodyBytes, if_neg (by omega), if_neg (by omega),
    if_neg (not_not.mpr hmagic), copyArray_eq _ hversion, copyArray_eq _ htype,
    copyArray_eq _ hcorrelation]
  refine congrArg Except.ok (Envelope.ext rfl (Fin.ext ?_) hrest (Fin.ext ?_))
  · exact Bytes.toNat_ofNat envelope.messageType.isLt
  · exact Bytes.toNat_ofNat envelope.version.isLt

/-- **An encoded envelope fits a frame and decodes to itself.** -/
theorem decodeBody_encodeBody {envelope : Envelope} {body : List UInt8}
    (h : encodeBody envelope = .ok body) :
    body.length ≤ maxBodyLength ∧ decodeBody body = .ok envelope := by
  have hheader : envelopeHeaderLength = 24 := rfl
  have hbody : maxBodyLength = 4096 := rfl
  have hpayload : maxApplicationPayloadLength = 4072 := rfl
  have hshort : envelope.payload.length ≤ maxApplicationPayloadLength := by
    rw [encodeBody] at h
    split at h
    · exact absurd h (by simp)
    · rename_i length hlength
      split at h
      · exact absurd h (by simp)
      · rename_i hle
        rw [checkedAdd] at hlength
        split at hlength
        · rw [Option.some_inj] at hlength
          omega
        · exact absurd hlength (by simp)
  rw [encodeBody_eq_ok hshort] at h
  obtain rfl := Except.ok.inj h
  exact ⟨by rw [length_bodyBytes]; omega, decodeBody_bodyBytes hshort⟩

end Renee.Wire
