import Mathlib.Data.List.Basic

/-!
# Sources of bytes

A source gives the bytes of a stream in pieces, as few at a time as it likes, and then ends or
fails.  What is read from it exactly depends on the bytes alone, not on the pieces they come in.

* `ByteSource` carries its law: a piece is a nonempty part of what is still to come, no longer than
  what was asked for; only the end of the stream gives nothing.
* `ByteSource.readExact` reads until it has what it was asked for (`readExact_of_le`), or fails
  (`readExact_of_lt`).
* `ByteSource.pieces` is the source that gives the pieces of a list.
-/

set_option autoImplicit false

/-- A source in a state `σ`, which may fail with an `ε`. -/
structure ByteSource (σ ε : Type) where
  /-- Read into a buffer of the given length; nothing is read only at the end. -/
  read : ℕ → σ → Except ε (List UInt8) × σ
  /-- What is still to come. -/
  bytes : σ → List UInt8
  /-- How the stream fails after its bytes, if it does. -/
  failure : σ → Option ε
  read_bytes : ∀ {n s}, 0 < n → bytes s ≠ [] → ∃ piece s', read n s = (.ok piece, s') ∧ piece ≠ [] ∧
    piece.length ≤ n ∧ bytes s = piece ++ bytes s' ∧ failure s' = failure s
  read_end : ∀ {n s}, 0 < n → bytes s = [] → (read n s).1 = (failure s).elim (.ok []) .error

namespace ByteSource

variable {σ ε : Type}

/-- Why a buffer was not filled. -/
inductive ReadExactError (ε : Type)
  | unexpectedEof
  | failed (error : ε)
deriving DecidableEq

/-- How reading fails at the end of a stream. -/
def ReadExactError.atEnd : Option ε → ReadExactError ε
  | none => .unexpectedEof
  | some error => .failed error

variable (S : ByteSource σ ε)

/-- Fill a buffer of the given length. -/
def readExact (n : ℕ) (s : σ) : Except (ReadExactError ε) (List UInt8) × σ :=
  if n = 0 then (.ok [], s)
  else match S.read n s with
  | (.error error, s) => (.error (.failed error), s)
  | (.ok [], s) => (.error .unexpectedEof, s)
  | (.ok (b :: piece), s) =>
    match readExact (n - (b :: piece).length) s with
    | (.ok rest, s) => (.ok (b :: piece ++ rest), s)
    | (.error error, s) => (.error error, s)
termination_by n
decreasing_by simp only [List.length_cons]; omega

variable {S} {n : ℕ} {s : σ}

theorem readExact_zero : S.readExact 0 s = (.ok [], s) := by
  rw [readExact, if_pos rfl]

/-- A piece that has been read is followed by the rest. -/
theorem readExact_of_read {piece : List UInt8} {s' : σ} (hn : n ≠ 0)
    (h : S.read n s = (.ok piece, s')) (hne : piece ≠ []) :
    S.readExact n s = ((S.readExact (n - piece.length) s').1.map (piece ++ ·),
      (S.readExact (n - piece.length) s').2) := by
  obtain ⟨b, piece, rfl⟩ := List.exists_cons_of_ne_nil hne
  rw [readExact, if_neg hn, h]
  dsimp only
  split
  · rename_i rest s'' hrest
    rw [hrest]
    rfl
  · rename_i error s'' hrest
    rw [hrest]
    rfl

theorem readExact_of_end (hn : n ≠ 0) (h : S.bytes s = []) :
    (S.readExact n s).1 = .error (.atEnd (S.failure s)) := by
  have hread := S.read_end (Nat.pos_of_ne_zero hn) h
  rw [readExact, if_neg hn]
  cases hfailure : S.failure s with
  | none =>
    rw [hfailure, Option.elim_none] at hread
    split
    · rename_i heq
      exact absurd (hread.symm.trans (congrArg Prod.fst heq)) (by simp)
    · rfl
    · rename_i heq
      exact absurd (hread.symm.trans (congrArg Prod.fst heq)) (by simp)
  | some error =>
    rw [hfailure, Option.elim_some] at hread
    split
    · rename_i error' s' heq
      obtain rfl := Except.error.inj (hread.symm.trans (congrArg Prod.fst heq))
      rfl
    · rename_i heq
      exact absurd (hread.symm.trans (congrArg Prod.fst heq)) (by simp)
    · rename_i heq
      exact absurd (hread.symm.trans (congrArg Prod.fst heq)) (by simp)

/-- **What is there is read**, however many pieces it takes. -/
theorem readExact_of_le (h : n ≤ (S.bytes s).length) :
    ∃ s', S.readExact n s = (.ok ((S.bytes s).take n), s') ∧ S.bytes s' = (S.bytes s).drop n ∧
      S.failure s' = S.failure s := by
  induction n using Nat.strongRecOn generalizing s with
  | ind n ih =>
    by_cases hn : n = 0
    · subst hn
      exact ⟨s, readExact_zero, rfl, rfl⟩
    have hbytes : S.bytes s ≠ [] := fun hnil ↦ hn (by simpa [hnil] using h)
    obtain ⟨piece, s₁, hread, hne, hle, hsplit, hfailure⟩ :=
      S.read_bytes (Nat.pos_of_ne_zero hn) hbytes
    have hpos : 0 < piece.length := List.length_pos_of_ne_nil hne
    have hrest : n - piece.length ≤ (S.bytes s₁).length := by
      rw [hsplit, List.length_append] at h
      omega
    obtain ⟨s', hexact, hdrop, hfailure'⟩ := ih (n - piece.length) (by omega) hrest
    refine ⟨s', ?_, ?_, hfailure'.trans hfailure⟩
    · rw [readExact_of_read hn hread hne, hexact, hsplit, List.take_append,
        List.take_of_length_le hle]
      rfl
    · rw [hdrop, hsplit, List.drop_append, List.drop_of_length_le hle, List.nil_append]

/-- **What is not there is missed.** -/
theorem readExact_of_lt (h : (S.bytes s).length < n) :
    (S.readExact n s).1 = .error (.atEnd (S.failure s)) := by
  induction n using Nat.strongRecOn generalizing s with
  | ind n ih =>
    have hn : n ≠ 0 := by omega
    by_cases hbytes : S.bytes s = []
    · exact readExact_of_end hn hbytes
    obtain ⟨piece, s₁, hread, hne, hle, hsplit, hfailure⟩ :=
      S.read_bytes (Nat.pos_of_ne_zero hn) hbytes
    have hpos : 0 < piece.length := List.length_pos_of_ne_nil hne
    have hrest : (S.bytes s₁).length < n - piece.length := by
      rw [hsplit, List.length_append] at h
      omega
    have hmissed := ih (n - piece.length) (by omega) hrest
    rw [readExact_of_read hn hread hne, hmissed, hfailure]
    rfl

/-! ## A source from a list of pieces -/

/-- Read from the first piece that is not empty. -/
def readPiece (n : ℕ) : List (List UInt8) → List UInt8 × List (List UInt8)
  | [] => ([], [])
  | [] :: pieces => readPiece n pieces
  | piece :: pieces =>
    if piece.length ≤ n then (piece, pieces) else (piece.take n, piece.drop n :: pieces)

theorem readPiece_spec {n : ℕ} (hn : 0 < n) (pieces : List (List UInt8)) :
    pieces.flatten = (readPiece n pieces).1 ++ (readPiece n pieces).2.flatten ∧
      (readPiece n pieces).1.length ≤ n ∧
      (pieces.flatten ≠ [] → (readPiece n pieces).1 ≠ []) := by
  induction pieces with
  | nil => simp [readPiece]
  | cons piece pieces ih =>
    cases piece with
    | nil => simpa [readPiece] using ih
    | cons b piece =>
      rw [readPiece]
      · split
        · rename_i hle
          exact ⟨rfl, hle, fun _ ↦ by simp⟩
        · refine ⟨?_, List.length_take_le .., fun _ ↦ ?_⟩
          · rw [List.flatten_cons, List.flatten_cons, ← List.append_assoc, List.take_append_drop]
          · obtain ⟨m, rfl⟩ := Nat.exists_eq_add_of_lt hn
            simp
      · simp

/-- The source that gives the pieces of a list, in which an empty piece is one that takes its time,
and then ends, or fails. -/
def pieces (failure : Option ε) : ByteSource (List (List UInt8)) ε where
  read n pieces :=
    match readPiece n pieces with
    | ([], pieces) => (failure.elim (.ok []) .error, pieces)
    | (piece, pieces) => (.ok piece, pieces)
  bytes := List.flatten
  failure _ := failure
  read_bytes {n pieces} hn hbytes := by
    obtain ⟨hsplit, hle, hne⟩ := readPiece_spec hn pieces
    refine ⟨(readPiece n pieces).1, (readPiece n pieces).2, ?_, hne hbytes, hle, hsplit, rfl⟩
    split
    · rename_i heq
      exact absurd (by rw [heq]) (hne hbytes)
    · rename_i heq
      rw [heq]
  read_end {n pieces} hn hbytes := by
    obtain ⟨hsplit, -, -⟩ := readPiece_spec hn pieces
    rw [hbytes] at hsplit
    split
    · rfl
    · rename_i hne heq
      exact absurd (List.append_eq_nil_iff.mp hsplit.symm).1 (by rw [heq]; exact hne)

end ByteSource
