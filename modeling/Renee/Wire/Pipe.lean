import Renee.Wire.Framing

/-!
# Pipes of frames

Two processes that are joined by a stream see it as a list of bodies: what the writer has written,
each body in a frame of its own, and how many of them the reader has read.  A read or a write may
fail, and a reader meets the end of the stream once the writer is gone.

What a failing write leaves behind is the beginning of a frame; nothing is written after it, and its
reader meets the end of the stream, or an error.
-/

set_option autoImplicit false

namespace Renee.Wire

variable {ε : Type}

/-- Why a body has not been written. -/
inductive WriteFailure (ε : Type)
  | body (error : WriteError)
  | io (error : ε)

/-- `write_body` to a stream on which bodies have been written already, and which may fail. -/
def writeFrame (fault : Option ε) (written : List (List UInt8)) (body : List UInt8) :
    Except (WriteFailure ε) (List (List UInt8)) :=
  match writeBody [] body with
  | .error error => .error (.body error)
  | .ok _ =>
    match fault with
    | some error => .error (.io error)
    | none => .ok (written ++ [body])

theorem writeFrame_eq_ok {fault : Option ε} {written output : List (List UInt8)} {body : List UInt8}
    (h : writeFrame fault written body = .ok output) : output = written ++ [body] := by
  rw [writeFrame.eq_def] at h
  split at h
  · exact absurd h (by simp)
  · split at h
    · exact absurd h (by simp)
    · exact (Except.ok.inj h).symm

/-- What a reader that has read so many bodies meets next; it waits where nothing has been written
and the writer may still write. -/
def nextFrame (fault : Option (ReadBodyError ε)) (written : List (List UInt8)) (count : ℕ)
    (closed : Bool) : Option (BodyResult ε) :=
  match fault with
  | some error => some (.error error)
  | none =>
    match written[count]? with
    | some body => some (.ok (some body))
    | none => if closed then some (.ok none) else none

/-- How many bodies have been read after a read. -/
def readCount (count : ℕ) : BodyResult ε → ℕ
  | .ok (some _) => count + 1
  | _ => count

/-- Whether a reader returns after what it has read. -/
def terminal : BodyResult ε → Bool
  | .ok (some _) => false
  | _ => true

/-- The bodies among what has been read. -/
def bodiesOf : List (BodyResult ε) → List (List UInt8)
  | [] => []
  | .ok (some body) :: frames => body :: bodiesOf frames
  | _ :: frames => bodiesOf frames

@[simp] theorem bodiesOf_nil : bodiesOf ([] : List (BodyResult ε)) = [] := rfl

@[simp] theorem bodiesOf_body (body : List UInt8) (frames : List (BodyResult ε)) :
    bodiesOf (.ok (some body) :: frames) = body :: bodiesOf frames := rfl

theorem bodiesOf_append (frames frames' : List (BodyResult ε)) :
    bodiesOf (frames ++ frames') = bodiesOf frames ++ bodiesOf frames' := by
  induction frames with
  | nil => rfl
  | cons frame frames ih =>
    match frame with
    | .ok (some body) => simp only [List.cons_append, bodiesOf_body, ih]
    | .ok none | .error _ => exact ih

/-- **What is read is what was written next.** -/
theorem bodiesOf_nextFrame {fault : Option (ReadBodyError ε)} {written : List (List UInt8)}
    {count : ℕ} {closed : Bool} {frame : BodyResult ε}
    (h : nextFrame fault written count closed = some frame) (hcount : count ≤ written.length) :
    written.drop count = bodiesOf [frame] ++ written.drop (readCount count frame) ∧
      readCount count frame ≤ written.length := by
  rw [nextFrame.eq_def] at h
  split at h
  · obtain rfl := Option.some_inj.mp h
    exact ⟨rfl, hcount⟩
  · split at h
    · rename_i body hbody
      obtain rfl := Option.some_inj.mp h
      obtain ⟨hlt, rfl⟩ := List.getElem?_eq_some_iff.mp hbody
      exact ⟨List.drop_eq_getElem_cons hlt, hlt⟩
    · split at h
      · obtain rfl := Option.some_inj.mp h
        exact ⟨rfl, hcount⟩
      · exact absurd h (by simp)

end Renee.Wire
