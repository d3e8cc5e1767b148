import Mathlib.Algebra.Group.Nat.Defs
import Mathlib.Data.List.Induction
import Mathlib.Order.Basic
import Mathlib.Order.Nat

/-!
# Byte strings: fixed-width fields, and reading them back

Two things every binary format needs.

**Big-endian fields.**  `toBe n x` is the low `n` bytes of `x`, most significant first, and `ofBe`
the number a byte string spells.  They are inverse to each other (`ofBe_toBe`, `toBe_ofBe`), so a
field of fixed width is a bijection between the numbers below `256 ^ n` and the strings of length
`n`.  `Bytes n` is the type of those strings.

**Readers.**  A `Reader ε α` consumes a prefix of its input and returns a value of type `α`, or
fails with an `ε`.  A decoder written as a chain of readers is understood from the end: it succeeded
with a value, so each reader in the chain did.  `run_bind_eq_ok` and the lemmas `run_*_eq_ok` turn
that success into the equation saying what the input was.  `Canonical r valid enc` is the strongest
such statement about a single reader — it accepts exactly the encodings of the valid values — and
`Canonical.many` passes it to a counted repetition.
-/

set_option autoImplicit false

namespace ByteString

/-! ## Big-endian numbers -/

/-- The low `n` bytes of `x`, most significant first. -/
def toBe : ℕ → ℕ → List UInt8
  | 0, _ => []
  | n + 1, x => toBe n (x / 256) ++ [UInt8.ofNat x]

/-- The number spelled by a byte string, most significant byte first. -/
def ofBe (bytes : List UInt8) : ℕ := bytes.foldl (fun acc b ↦ acc * 256 + b.toNat) 0

@[simp] theorem length_toBe (n x : ℕ) : (toBe n x).length = n := by
  induction n generalizing x with
  | zero => rfl
  | succ n ih => rw [toBe, List.length_append, ih, List.length_singleton]

@[simp] theorem ofBe_nil : ofBe [] = 0 := rfl

theorem ofBe_append_singleton (l : List UInt8) (b : UInt8) :
    ofBe (l ++ [b]) = ofBe l * 256 + b.toNat := by
  simp [ofBe, List.foldl_append]

theorem ofBe_lt (l : List UInt8) : ofBe l < 256 ^ l.length := by
  induction l using List.reverseRecOn with
  | nil => simp
  | append_singleton l b ih =>
    have hb : b.toNat < 256 := b.toNat_lt
    rw [ofBe_append_singleton, List.length_append, List.length_singleton, Nat.pow_succ]
    omega

theorem ofBe_toBe {n x : ℕ} (h : x < 256 ^ n) : ofBe (toBe n x) = x := by
  induction n generalizing x with
  | zero => rw [Nat.pow_zero] at h; simp [toBe, Nat.lt_one_iff.mp h]
  | succ n ih =>
    have hdiv : x / 256 < 256 ^ n :=
      Nat.div_lt_of_lt_mul (by rw [Nat.mul_comm, ← Nat.pow_succ]; exact h)
    rw [toBe, ofBe_append_singleton, ih hdiv, UInt8.toNat_ofNat']
    omega

theorem toBe_ofBe (l : List UInt8) : toBe l.length (ofBe l) = l := by
  induction l using List.reverseRecOn with
  | nil => rfl
  | append_singleton l b ih =>
    have hb : b.toNat < 256 := b.toNat_lt
    rw [List.length_append, List.length_singleton, toBe, ofBe_append_singleton,
      show (ofBe l * 256 + b.toNat) / 256 = ofBe l by omega, ih]
    congr 2
    rw [UInt8.ofNat_eq_iff_mod_eq_toNat]
    omega

theorem toBe_ofBe_of_length {l : List UInt8} {n : ℕ} (h : l.length = n) :
    toBe n (ofBe l) = l := by
  subst h; exact toBe_ofBe l

/-- What stands after a field of an input. -/
theorem drop_field {input field rest : List UInt8} {offset length : ℕ}
    (h : input.drop offset = field ++ rest) (hlength : field.length = length) :
    input.drop (offset + length) = rest := by
  rw [← List.drop_drop, h, List.drop_left' hlength]

/-- A byte string of length `n`. -/
@[ext] structure Bytes (n : ℕ) where
  /-- The bytes. -/
  toList : List UInt8
  /-- There are `n` of them. -/
  length_eq : toList.length = n
deriving DecidableEq

namespace Bytes

variable {n : ℕ}

/-- `n` copies of one byte. -/
def replicate (n : ℕ) (b : UInt8) : Bytes n := ⟨List.replicate n b, List.length_replicate⟩

/-- A list of bytes of the right length, as `try_from` converts it. -/
def ofList? (n : ℕ) (l : List UInt8) : Option (Bytes n) :=
  if h : l.length = n then some ⟨l, h⟩ else none

theorem ofList?_eq_some_iff {l : List UInt8} {b : Bytes n} : ofList? n l = some b ↔
    b.toList = l := by
  rw [ofList?]
  constructor
  · intro h
    split at h
    · rw [← Option.some_inj.mp h]
    · exact absurd h (by simp)
  · rintro rfl
    rw [dif_pos b.length_eq]

/-- The `n` bytes of an input from an offset on, if it has them. -/
def slice? (n : ℕ) (input : List UInt8) (offset : ℕ) : Option (Bytes n) :=
  ofList? n ((input.drop offset).take n)

/-- A field of an input is what was written there. -/
theorem slice?_eq_some {offset : ℕ} {input rest : List UInt8} (field : Bytes n)
    (h : input.drop offset = field.toList ++ rest) : slice? n input offset = some field := by
  have htake : (input.drop offset).take n = field.toList := by
    rw [h, List.take_left' field.length_eq]
  rw [slice?, ofList?_eq_some_iff.mpr htake.symm]

/-- The low `n` bytes of a number. -/
def ofNat (n x : ℕ) : Bytes n := ⟨toBe n x, length_toBe n x⟩

/-- The number a byte string spells. -/
def toNat (b : Bytes n) : ℕ := ofBe b.toList

theorem toNat_lt (b : Bytes n) : b.toNat < 256 ^ n := by
  have h := ofBe_lt b.toList
  rwa [b.length_eq] at h

theorem toNat_ofNat {x : ℕ} (h : x < 256 ^ n) : (ofNat n x).toNat = x := ofBe_toBe h

theorem ofNat_toNat (b : Bytes n) : ofNat n b.toNat = b :=
  Bytes.ext (toBe_ofBe_of_length b.length_eq)

theorem toBe_toNat (b : Bytes n) : toBe n b.toNat = b.toList := toBe_ofBe_of_length b.length_eq

theorem toNat_injective : Function.Injective (toNat : Bytes n → ℕ) :=
  Function.LeftInverse.injective ofNat_toNat

/-- Byte strings of one length in lexicographic order, which is the order of the numbers they
spell. -/
instance : LinearOrder (Bytes n) := LinearOrder.lift' toNat toNat_injective

end Bytes

/-! ## Readers -/

/-- Consume a prefix of the input. -/
abbrev Reader (ε α : Type) := StateT (List UInt8) (Except ε) α

namespace Reader

variable {ε α β : Type}

/-- Split `n` bytes off the input. -/
def take (truncated : ε) (n : ℕ) : Reader ε (List UInt8) := fun input ↦
  if n ≤ input.length then .ok (input.take n, input.drop n) else .error truncated

/-- Split `n` bytes off the input, as a string of that length. -/
def takeBytes (truncated : ε) (n : ℕ) : Reader ε (Bytes n) := fun input ↦
  if h : n ≤ input.length then
    .ok (⟨input.take n, by rw [List.length_take, Nat.min_eq_left h]⟩, input.drop n)
  else .error truncated

/-- Read a number of `n` bytes, most significant first. -/
def takeBe (truncated : ε) (n : ℕ) : Reader ε ℕ := do
  let bytes ← takeBytes truncated n
  pure bytes.toNat

/-- Fail unless the condition holds. -/
def check (c : Prop) [Decidable c] (e : ε) : Reader ε Unit := if c then pure () else throw e

/-- Succeed with the value of `x`, consuming nothing. -/
def lift (x : Except ε α) : Reader ε α := fun input ↦ x.map fun a ↦ (a, input)

/-- Read one value after another, `n` times. -/
def many (r : Reader ε α) : ℕ → Reader ε (List α)
  | 0 => pure []
  | n + 1 => do
    let x ← r
    let xs ← many r n
    pure (x :: xs)

@[simp] theorem run_bind_eq_ok {r : Reader ε α} {k : α → Reader ε β} {input rest : List UInt8}
    {b : β} : (r >>= k) input = .ok (b, rest) ↔
      ∃ a mid, r input = .ok (a, mid) ∧ k a mid = .ok (b, rest) := by
  change (r input >>= fun p ↦ k p.1 p.2) = _ ↔ _
  cases r input with
  | error e => exact ⟨fun h ↦ (nomatch h), fun ⟨_, _, h, _⟩ ↦ (nomatch h)⟩
  | ok p =>
    obtain ⟨a, mid⟩ := p
    refine ⟨fun h ↦ ⟨a, mid, rfl, h⟩, ?_⟩
    rintro ⟨_, _, h, hk⟩
    cases h
    exact hk

@[simp] theorem run_pure_eq_ok {a b : α} {input rest : List UInt8} :
    (pure a : Reader ε α) input = .ok (b, rest) ↔ a = b ∧ input = rest := by
  show (Except.ok (a, input) : Except ε _) = _ ↔ _
  simp

@[simp] theorem run_take_eq_ok {e : ε} {n : ℕ} {input rest value : List UInt8} :
    take e n input = .ok (value, rest) ↔ value.length = n ∧ input = value ++ rest := by
  rw [take]
  constructor
  · intro h
    split at h
    · rename_i hn
      rw [Except.ok.injEq, Prod.mk.injEq] at h
      obtain ⟨rfl, rfl⟩ := h
      exact ⟨by rw [List.length_take, Nat.min_eq_left hn], (List.take_append_drop n input).symm⟩
    · exact absurd h (by simp)
  · rintro ⟨rfl, rfl⟩
    rw [if_pos (by simp)]
    simp

@[simp] theorem run_takeBytes_eq_ok {e : ε} {n : ℕ} {input rest : List UInt8} {value : Bytes n} :
    takeBytes e n input = .ok (value, rest) ↔ input = value.toList ++ rest := by
  rw [takeBytes]
  constructor
  · intro h
    split at h
    · rw [Except.ok.injEq, Prod.mk.injEq] at h
      obtain ⟨rfl, rfl⟩ := h
      exact (List.take_append_drop n input).symm
    · exact absurd h (by simp)
  · rintro rfl
    obtain ⟨value, rfl⟩ := value
    rw [dif_pos (by simp), Except.ok.injEq, Prod.mk.injEq]
    exact ⟨Bytes.ext List.take_left, List.drop_left⟩

@[simp] theorem run_takeBe_eq_ok {e : ε} {n x : ℕ} {input rest : List UInt8} :
    takeBe e n input = .ok (x, rest) ↔ x < 256 ^ n ∧ input = toBe n x ++ rest := by
  simp only [takeBe, run_bind_eq_ok, run_takeBytes_eq_ok, run_pure_eq_ok]
  constructor
  · rintro ⟨b, _, rfl, rfl, rfl⟩
    exact ⟨b.toNat_lt, by rw [b.toBe_toNat]⟩
  · rintro ⟨hx, rfl⟩
    exact ⟨Bytes.ofNat n x, rest, rfl, Bytes.toNat_ofNat hx, rfl⟩

@[simp] theorem run_check_eq_ok {c : Prop} [Decidable c] {e : ε} {input rest : List UInt8}
    {u : Unit} : check c e input = .ok (u, rest) ↔ c ∧ input = rest := by
  rw [check]
  split
  · rename_i hc; simp [hc]
  · rename_i hc
    simp only [hc, false_and, iff_false]
    exact fun h ↦ by cases h

@[simp] theorem run_lift_eq_ok {x : Except ε α} {input rest : List UInt8} {a : α} :
    lift x input = .ok (a, rest) ↔ x = .ok a ∧ input = rest := by
  cases x <;> simp [lift, Except.map]

/-- Running a reader for its value, whatever it leaves. -/
theorem run'_eq_ok {r : Reader ε α} {input : List UInt8} {a : α} :
    StateT.run' r input = .ok a ↔ ∃ rest, r input = .ok (a, rest) := by
  show (Prod.fst <$> r input) = _ ↔ _
  cases r input with
  | error e => simp [Functor.map, Except.map]
  | ok p =>
    obtain ⟨value, rest⟩ := p
    simp [Functor.map, Except.map]

/-- `r` accepts exactly the encodings of the valid values. -/
def Canonical (r : Reader ε α) (valid : α → Prop) (enc : α → List UInt8) : Prop :=
  ∀ input a rest, r input = .ok (a, rest) ↔ valid a ∧ input = enc a ++ rest

/-- **A counted repetition of a canonical reader is canonical.** -/
theorem Canonical.many {r : Reader ε α} {valid : α → Prop} {enc : α → List UInt8}
    (h : Canonical r valid enc) {n : ℕ} {input rest : List UInt8} {l : List α} :
    many r n input = .ok (l, rest) ↔
      l.length = n ∧ (∀ a ∈ l, valid a) ∧ input = l.flatMap enc ++ rest := by
  induction n generalizing input rest l with
  | zero =>
    rw [Reader.many, run_pure_eq_ok]
    constructor
    · rintro ⟨rfl, rfl⟩; simp
    · rintro ⟨hl, -, rfl⟩
      obtain rfl := List.length_eq_zero_iff.mp hl
      simp
  | succ n ih =>
    simp only [Reader.many, run_bind_eq_ok, run_pure_eq_ok, ih, h _ _ _]
    constructor
    · rintro ⟨a, mid, ⟨ha, rfl⟩, l', mid', ⟨hl, hv, rfl⟩, rfl, rfl⟩
      refine ⟨by simp [hl], ?_, by simp⟩
      intro x hx
      rcases List.mem_cons.mp hx with rfl | hx
      · exact ha
      · exact hv x hx
    · rintro ⟨hl, hv, rfl⟩
      cases l with
      | nil => simp at hl
      | cons a l' =>
        refine ⟨a, _, ⟨hv a (by simp), by simp⟩, l', rest, ⟨by simpa using hl, ?_, rfl⟩, rfl, rfl⟩
        exact fun x hx ↦ hv x (List.mem_cons_of_mem a hx)

end Reader

end ByteString
