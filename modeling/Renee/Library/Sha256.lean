import Renee.Library.Bytes

/-!
# SHA-256

The hash function, on byte strings, as a computable definition.  Results about programs that hash
take the function as a parameter; this one is for running such programs.

Words are natural numbers below `2 ^ 32`, so that evaluation is arithmetic.  A message is padded to
whole blocks, each block is expanded to a schedule of sixty-four words, and the
words are folded into the state one block after another.
-/

set_option autoImplicit false

namespace Sha256

open ByteString

/-- The round constants. -/
def roundConstants : List ℕ :=
  [0x428a2f98, 0x71374491, 0xb5c0fbcf, 0xe9b5dba5, 0x3956c25b, 0x59f111f1, 0x923f82a4, 0xab1c5ed5,
   0xd807aa98, 0x12835b01, 0x243185be, 0x550c7dc3, 0x72be5d74, 0x80deb1fe, 0x9bdc06a7, 0xc19bf174,
   0xe49b69c1, 0xefbe4786, 0x0fc19dc6, 0x240ca1cc, 0x2de92c6f, 0x4a7484aa, 0x5cb0a9dc, 0x76f988da,
   0x983e5152, 0xa831c66d, 0xb00327c8, 0xbf597fc7, 0xc6e00bf3, 0xd5a79147, 0x06ca6351, 0x14292967,
   0x27b70a85, 0x2e1b2138, 0x4d2c6dfc, 0x53380d13, 0x650a7354, 0x766a0abb, 0x81c2c92e, 0x92722c85,
   0xa2bfe8a1, 0xa81a664b, 0xc24b8b70, 0xc76c51a3, 0xd192e819, 0xd6990624, 0xf40e3585, 0x106aa070,
   0x19a4c116, 0x1e376c08, 0x2748774c, 0x34b0bcb5, 0x391c0cb3, 0x4ed8aa4a, 0x5b9cca4f, 0x682e6ff3,
   0x748f82ee, 0x78a5636f, 0x84c87814, 0x8cc70208, 0x90befffa, 0xa4506ceb, 0xbef9a3f7, 0xc67178f2]

/-- Rotate a word to the right. -/
def rotr (n x : ℕ) : ℕ := x >>> n ||| (x <<< (32 - n)) % 2 ^ 32

/-- The eight words of the state. -/
structure State where
  a : ℕ
  b : ℕ
  c : ℕ
  d : ℕ
  e : ℕ
  f : ℕ
  g : ℕ
  h : ℕ

/-- The state before the first block. -/
def State.initial : State :=
  ⟨0x6a09e667, 0xbb67ae85, 0x3c6ef372, 0xa54ff53a, 0x510e527f, 0x9b05688c, 0x1f83d9ab, 0x5be0cd19⟩

/-- One round, with its constant and its word of the schedule. -/
def State.round (s : State) (k w : ℕ) : State :=
  let choice := (s.e &&& s.f) ^^^ ((2 ^ 32 - 1 - s.e) &&& s.g)
  let majority := (s.a &&& s.b) ^^^ (s.a &&& s.c) ^^^ (s.b &&& s.c)
  let t₁ := s.h + (rotr 6 s.e ^^^ rotr 11 s.e ^^^ rotr 25 s.e) + choice + k + w
  let t₂ := (rotr 2 s.a ^^^ rotr 13 s.a ^^^ rotr 22 s.a) + majority
  ⟨(t₁ + t₂) % 2 ^ 32, s.a, s.b, s.c, (s.d + t₁) % 2 ^ 32, s.e, s.f, s.g⟩

/-- Add two states word by word. -/
def State.add (s s' : State) : State :=
  ⟨(s.a + s'.a) % 2 ^ 32, (s.b + s'.b) % 2 ^ 32, (s.c + s'.c) % 2 ^ 32, (s.d + s'.d) % 2 ^ 32,
   (s.e + s'.e) % 2 ^ 32, (s.f + s'.f) % 2 ^ 32, (s.g + s'.g) % 2 ^ 32, (s.h + s'.h) % 2 ^ 32⟩

/-- The next word of a schedule, given the words so far with the latest first. -/
def nextWord (w : List ℕ) : ℕ :=
  let s₀ := rotr 7 (w.getD 14 0) ^^^ rotr 18 (w.getD 14 0) ^^^ w.getD 14 0 >>> 3
  let s₁ := rotr 17 (w.getD 1 0) ^^^ rotr 19 (w.getD 1 0) ^^^ w.getD 1 0 >>> 10
  (w.getD 15 0 + s₀ + w.getD 6 0 + s₁) % 2 ^ 32

/-- Extend a schedule, latest word first, by `n` words. -/
def extendSchedule : ℕ → List ℕ → List ℕ
  | 0, w => w
  | n + 1, w => extendSchedule n (nextWord w :: w)

/-- The pieces of a byte string, `n` of them, of `size` bytes each. -/
def pieces (size : ℕ) : ℕ → List UInt8 → List (List UInt8)
  | 0, _ => []
  | n + 1, bytes => bytes.take size :: pieces size n (bytes.drop size)

/-- Fold one block into the state. -/
def State.compress (s : State) (block : List UInt8) : State :=
  let schedule := (extendSchedule 48 ((pieces 4 16 block).map ofBe).reverse).reverse
  s.add ((roundConstants.zip schedule).foldl (fun s kw ↦ s.round kw.1 kw.2) s)

/-- A message, padded to whole blocks. -/
def pad (message : List UInt8) : List UInt8 :=
  message ++ (0x80 :: (List.replicate ((119 - message.length % 64) % 64) 0 ++
    toBe 8 (8 * message.length)))

/-- The words of a state, as bytes. -/
def State.digest (s : State) : Bytes 32 where
  toList := toBe 4 s.a ++ toBe 4 s.b ++ toBe 4 s.c ++ toBe 4 s.d ++ toBe 4 s.e ++ toBe 4 s.f ++
    toBe 4 s.g ++ toBe 4 s.h
  length_eq := by simp only [List.length_append, length_toBe]

/-- The hash of a message. -/
def hash (message : List UInt8) : Bytes 32 :=
  ((pieces 64 ((pad message).length / 64) (pad message)).foldl State.compress .initial).digest

example : ofBe (Sha256.hash "abc".toUTF8.data.toList).toList =
    0xba7816bf8f01cfea414140de5dae2223b00361a396177a9cb410ff61f20015ad := by
  decide +kernel

end Sha256
