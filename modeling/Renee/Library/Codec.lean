import Mathlib.Logic.Basic

/-!
# Codecs that invert each other

An encoder and a decoder, each of which may refuse.  `Codec.MutuallyInverse` says that either undoes
the other, on the values that each side is meant for; so a value that is read has one encoding, and
two encodings that are read are compared as the values they spell (`MutuallyInverse.eq_iff`).

`Codec.Exact` is for a decoder that knows which values are valid: the encoder writes every valid
value, the decoder reads it back, and the decoder accepts nothing else.
-/

set_option autoImplicit false

namespace Codec

variable {α β ε : Type}

/-- What `encode` writes of a `writable` value is read as that value, and what `decode` reads as a
`readable` value is what `encode` writes of it. -/
structure MutuallyInverse (writable readable : α → Prop) (encode : α → Except ε β)
    (decode : β → Except ε α) : Prop where
  decode_of_encode : ∀ a b, writable a → encode a = .ok b → decode b = .ok a
  encode_of_decode : ∀ a b, readable a → decode b = .ok a → encode a = .ok b
  unique : ∀ a b b', readable a → decode b = .ok a → decode b' = .ok a → b = b'

variable {writable readable : α → Prop} {encode : α → Except ε β} {decode : β → Except ε α}

/-- The two directions are enough: the encoder writes one encoding. -/
theorem MutuallyInverse.of_directions
    (hdecode : ∀ a b, writable a → encode a = .ok b → decode b = .ok a)
    (hencode : ∀ a b, readable a → decode b = .ok a → encode a = .ok b) :
    MutuallyInverse writable readable encode decode := by
  refine ⟨hdecode, hencode, fun a b b' ha hb hb' ↦ ?_⟩
  have heq := (hencode a b ha hb).symm.trans (hencode a b' ha hb')
  exact Except.ok.inj heq

/-- **To compare the encodings is to compare the values.** -/
theorem MutuallyInverse.eq_iff (h : MutuallyInverse writable readable encode decode) {a a' : α}
    {b b' : β} (ha : readable a) (hb : decode b = .ok a) (hb' : decode b' = .ok a') :
    b = b' ↔ a = a' := by
  constructor
  · rintro rfl
    exact Except.ok.inj (hb.symm.trans hb')
  · rintro rfl
    exact h.unique a b b' ha hb hb'

/-- Every valid value is written and read back, what is read is valid and is written as the same
bytes, and no two strings are read as one value. -/
structure Exact (valid : α → Prop) (encode : α → Except ε β) (decode : β → Except ε α) : Prop where
  decode_of_encode : ∀ a, valid a → ∃ b, encode a = .ok b ∧ decode b = .ok a
  encode_of_decode : ∀ a b, decode b = .ok a → valid a ∧ encode a = .ok b
  unique : ∀ a b b', decode b = .ok a → decode b' = .ok a → b = b'

/-- The bytes of a value and the decoder's acceptance of them are enough. -/
theorem Exact.of_iff {valid : α → Prop} (bytes : α → β)
    (hencode : ∀ a, valid a → encode a = .ok (bytes a))
    (hdecode : ∀ a b, decode b = .ok a ↔ valid a ∧ b = bytes a) : Exact valid encode decode where
  decode_of_encode a ha := ⟨bytes a, hencode a ha, (hdecode a _).mpr ⟨ha, rfl⟩⟩
  encode_of_decode a b h := by
    obtain ⟨ha, rfl⟩ := (hdecode a b).mp h
    exact ⟨ha, hencode a ha⟩
  unique a b b' h h' := ((hdecode a b).mp h).2.trans ((hdecode a b').mp h').2.symm

end Codec
