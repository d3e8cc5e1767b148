import Renee.Library.ByteSource
import Renee.Wire.Frame

/-!
# Framing

On a stream, every envelope body follows its length in four bytes.  Two writers produce such frames,
`encodeFrame` and `writeBody`, and two readers take them apart: `readBody` from an asynchronous
source, and `readStandardBody` from the standard input of a session.

* `frame` is what either writer produces of a body that is not too long.
* `nextBody` is what one read does to the bytes of a stream, and `repeated` reads until the end or
  an error.  Either reader does what `nextBody` does, in whatever pieces the bytes arrive (`Reads`).
* `repeated_iff`: the bodies that are read are those of the frames that the stream begins with, and
  the rest of the stream says how reading ends.
* `framing_transparent` collects what this means for senders and receivers.
-/

set_option autoImplicit false

namespace Renee.Wire

open ByteString

/-! ## Writers -/

/-- Why a frame is not written. -/
inductive WriteError
  | encode (error : FrameError)
  | lengthConversion
  | exceedsActiveLimit
deriving DecidableEq

/-- The length of a body as an `u32`. -/
def lengthBytes (length : ℕ) : Except WriteError (List UInt8) :=
  if length < 2 ^ 32 then .ok (toBe 4 length) else .error .lengthConversion

/-- Encode one complete length-delimited frame. -/
def encodeFrame (envelope : Envelope) : Except WriteError (List UInt8) :=
  match encodeBody envelope with
  | .error error => .error (.encode error)
  | .ok body =>
    match lengthBytes body.length with
    | .error error => .error error
    | .ok length => .ok (length ++ body)

/-- Write one already-bounded frame body after what has been written. -/
def writeBody (written body : List UInt8) : Except WriteError (List UInt8) :=
  if body.length > maxBodyLength then .error .exceedsActiveLimit
  else match lengthBytes body.length with
  | .error error => .error error
  | .ok length => .ok (written ++ length ++ body)

/-- Write the bodies of envelopes one after another. -/
def writeEnvelopes (written : List UInt8) : List Envelope → Except WriteError (List UInt8)
  | [] => .ok written
  | envelope :: envelopes =>
    match encodeBody envelope with
    | .error error => .error (.encode error)
    | .ok body =>
      match writeBody written body with
      | .error error => .error error
      | .ok written => writeEnvelopes written envelopes

/-! ## Readers -/

/-- Why a body is not read. -/
inductive ReadBodyError (ε : Type)
  | io (error : ε)
  | unexpectedEof
  | lengthConversion
  | exceedsActiveLimit
  | emptyPrefix
deriving DecidableEq

variable {σ τ ε : Type}

def ReadBodyError.ofReadExact : ByteSource.ReadExactError ε → ReadBodyError ε
  | .unexpectedEof => .unexpectedEof
  | .failed error => .io error

/-- An `u32` as an `usize`. -/
def usizeOfU32 (length : ℕ) : Option ℕ := if length < 2 ^ 64 then some length else none

/-- What one read of a body answers. -/
abbrev BodyResult (ε : Type) : Type := Except (ReadBodyError ε) (Option (List UInt8))

/-- Read one bounded frame body; there is none at a clean end before a length. -/
def readBody (S : ByteSource σ ε) (s : σ) : BodyResult ε × σ :=
  match S.read 1 s with
  | (.error error, s) => (.error (.io error), s)
  | (.ok [], s) => (.ok none, s)
  | (.ok (firstByte :: _), s) =>
    -- once a byte of the length has arrived, the end is a truncated frame
    match S.readExact 3 s with
    | (.error error, s) => (.error (.ofReadExact error), s)
    | (.ok remaining, s) =>
      match usizeOfU32 (ofBe (firstByte :: remaining)) with
      | none => (.error .lengthConversion, s)
      | some length =>
        if length > maxBodyLength then (.error .exceedsActiveLimit, s)
        else match S.readExact length s with
        | (.error error, s) => (.error (.ofReadExact error), s)
        | (.ok body, s) => (.ok (some body), s)

/-- `read_standard_body`: the buffer of the length is filled in two parts. -/
def readStandardBody (S : ByteSource σ ε) (s : σ) : BodyResult ε × σ :=
  let lengthBuffer : List UInt8 := [0, 0, 0, 0]
  match S.read (lengthBuffer.take 1).length s with
  | (.error error, s) => (.error (.io error), s)
  | (.ok read, s) =>
    if read.length = 0 then (.ok none, s)
    else
      let lengthBuffer := read ++ lengthBuffer.drop 1
      match S.readExact (lengthBuffer.drop 1).length s with
      | (.error error, s) => (.error (.ofReadExact error), s)
      | (.ok read, s) =>
        let lengthBuffer := lengthBuffer.take 1 ++ read
        match usizeOfU32 (ofBe lengthBuffer) with
        | none => (.error .lengthConversion, s)
        | some length =>
          if length > maxBodyLength then (.error .exceedsActiveLimit, s)
          else match S.readExact length s with
          | (.error error, s) => (.error (.ofReadExact error), s)
          | (.ok body, s) => (.ok (some body), s)

/-- Read bodies until the end or an error, at most as many as allowed: the bodies, and how reading
has ended, if it has. -/
def repeated (reader : σ → BodyResult ε × σ) :
    ℕ → σ → List (List UInt8) × Option (Except (ReadBodyError ε) Unit)
  | 0, _ => ([], none)
  | fuel + 1, s =>
    match reader s with
    | (.ok (some body), s) =>
      let (bodies, ending) := repeated reader fuel s
      (body :: bodies, ending)
    | (.ok none, _) => ([], some (.ok ()))
    | (.error error, _) => ([], some (.error error))

/-! ## Reading from the bytes of a stream -/

/-- How reading fails in the middle of a frame at the end of a stream. -/
def ReadBodyError.cut (failure : Option ε) : ReadBodyError ε := .ofReadExact (.atEnd failure)

/-- One read of a stream of which some bytes are still to come. -/
def nextBody (stream : List UInt8 × Option ε) : BodyResult ε × (List UInt8 × Option ε) :=
  let (bytes, failure) := stream
  let length := ofBe (bytes.take 4)
  if bytes = [] then (failure.elim (.ok none) fun error ↦ .error (.io error), stream)
  else if bytes.length < 4 then (.error (.cut failure), ([], failure))
  else if length > maxBodyLength then (.error .exceedsActiveLimit, (bytes.drop 4, failure))
  else if (bytes.drop 4).length < length then (.error (.cut failure), ([], failure))
  else (.ok (some ((bytes.drop 4).take length)), ((bytes.drop 4).drop length, failure))

/-- A reader answers what `nextBody` answers of the bytes to come, and goes on from the bytes after
a body. -/
def Reads (S : ByteSource σ ε) (reader : σ → BodyResult ε × σ) : Prop :=
  ∀ s, (reader s).1 = (nextBody (S.bytes s, S.failure s)).1 ∧
    ∀ body, (reader s).1 = .ok (some body) →
      (S.bytes (reader s).2, S.failure (reader s).2) = (nextBody (S.bytes s, S.failure s)).2

theorem usizeOfU32_eq {length : ℕ} (h : length < 2 ^ 32) : usizeOfU32 length = some length :=
  if_pos (h.trans (by decide))

theorem ofBe_lt_of_length {bytes : List UInt8} (h : bytes.length = 4) : ofBe bytes < 2 ^ 32 := by
  have hlt := ofBe_lt bytes
  rw [h] at hlt
  exact hlt.trans_eq (by decide)

/-- A stream that is over ends, or fails. -/
theorem read_of_end {S : ByteSource σ ε} {s : σ} (h : S.bytes s = []) :
    ∃ s', S.read 1 s = ((S.failure s).elim (.ok []) .error, s') :=
  ⟨_, Prod.ext (S.read_end Nat.one_pos h) rfl⟩

theorem readBody_of_end {S : ByteSource σ ε} {s : σ} (h : S.bytes s = []) :
    (readBody S s).1 = (S.failure s).elim (.ok none) fun error ↦ .error (.io error) := by
  obtain ⟨s', hread⟩ := read_of_end h
  rw [readBody, hread]
  cases S.failure s <;> rfl

/-- A stream that goes on gives its first byte. -/
theorem read_one {S : ByteSource σ ε} {s : σ} {b : UInt8} {bytes : List UInt8}
    (h : S.bytes s = b :: bytes) :
    ∃ s', S.read 1 s = (.ok [b], s') ∧ S.bytes s' = bytes ∧ S.failure s' = S.failure s := by
  obtain ⟨piece, s', hread, hne, hle, hsplit, hfailure⟩ :=
    S.read_bytes Nat.one_pos (h ▸ List.cons_ne_nil b bytes)
  obtain ⟨b', rfl⟩ := List.length_eq_one_iff.mp (le_antisymm hle (List.length_pos_of_ne_nil hne))
  obtain ⟨rfl, rfl⟩ := List.cons.inj (h.symm.trans hsplit)
  exact ⟨s', hread, rfl, hfailure⟩

theorem reads_readBody (S : ByteSource σ ε) : Reads S (readBody S) := by
  intro s
  cases hbytes : S.bytes s with
  | nil =>
    rw [readBody_of_end hbytes, nextBody, if_pos rfl]
    refine ⟨rfl, fun body hbody ↦ ?_⟩
    cases hfailure : S.failure s with
    | none => rw [hfailure] at hbody; exact absurd hbody (by simp)
    | some error => rw [hfailure] at hbody; exact absurd hbody (by simp)
  | cons b bytes =>
    obtain ⟨s₁, hread, hbytes₁, hfailure₁⟩ := read_one hbytes
    rw [readBody, hread, nextBody, if_neg (by simp)]
    dsimp only
    by_cases hshort : bytes.length < 3
    · obtain ⟨s₂, hexact⟩ : ∃ s₂, S.readExact 3 s₁ = (.error (.atEnd (S.failure s)), s₂) :=
        ⟨_, Prod.ext (hfailure₁ ▸ ByteSource.readExact_of_lt (hbytes₁ ▸ hshort)) rfl⟩
      rw [hexact, if_pos (by simpa using by omega)]
      exact ⟨rfl, fun body hbody ↦ absurd hbody (by simp)⟩
    obtain ⟨s₂, hexact, hbytes₂, hfailure₂⟩ :=
      ByteSource.readExact_of_le (S := S) (s := s₁) (n := 3) (by rw [hbytes₁]; omega)
    rw [hbytes₁] at hexact hbytes₂
    have hprefixed : (b :: bytes).take 4 = b :: bytes.take 3 := rfl
    have hlt : ofBe (b :: bytes.take 3) < 2 ^ 32 := ofBe_lt_of_length (by simpa using by omega)
    rw [hexact, if_neg (by simpa using by omega), hprefixed]
    simp only [usizeOfU32_eq hlt]
    by_cases hlong : ofBe (b :: bytes.take 3) > maxBodyLength
    · rw [if_pos hlong, if_pos hlong]
      exact ⟨rfl, fun body hbody ↦ absurd hbody (by simp)⟩
    rw [if_neg hlong, if_neg hlong, List.drop_succ_cons]
    by_cases hcut : (bytes.drop 3).length < ofBe (b :: bytes.take 3)
    · obtain ⟨s₃, hrest⟩ : ∃ s₃, S.readExact (ofBe (b :: bytes.take 3)) s₂ =
          (.error (.atEnd (S.failure s)), s₃) :=
        ⟨_, Prod.ext (hfailure₁ ▸ hfailure₂ ▸ ByteSource.readExact_of_lt (hbytes₂ ▸ hcut)) rfl⟩
      rw [hrest, if_pos hcut]
      exact ⟨rfl, fun body hbody ↦ absurd hbody (by simp)⟩
    · obtain ⟨s₃, hrest, hbytes₃, hfailure₃⟩ := ByteSource.readExact_of_le (S := S) (s := s₂)
        (n := ofBe (b :: bytes.take 3)) (by rw [hbytes₂]; omega)
      rw [hbytes₂] at hrest hbytes₃
      rw [hrest, if_neg hcut]
      exact ⟨rfl, fun _ _ ↦ Prod.ext hbytes₃ ((hfailure₃.trans hfailure₂).trans hfailure₁)⟩

/-- The two readers do the same. -/
theorem readStandardBody_eq (S : ByteSource σ ε) : readStandardBody S = readBody S := by
  funext s
  rw [readStandardBody, readBody]
  cases hbytes : S.bytes s with
  | nil =>
    obtain ⟨s', hread⟩ := read_of_end hbytes
    rw [List.length_take, List.length_cons, Nat.min_eq_left (by simp), hread]
    cases S.failure s <;> rfl
  | cons b bytes =>
    obtain ⟨s₁, hread, -⟩ := read_one hbytes
    simp [hread]

theorem reads_readStandardBody (S : ByteSource σ ε) : Reads S (readStandardBody S) := by
  rw [readStandardBody_eq]
  exact reads_readBody S

/-- **However the bytes arrive**, a reader reads from them what there is to read. -/
theorem Reads.repeated_eq {S : ByteSource σ ε} {reader : σ → BodyResult ε × σ} (h : Reads S reader)
    (fuel : ℕ) (s : σ) :
    repeated reader fuel s = repeated nextBody fuel (S.bytes s, S.failure s) := by
  induction fuel generalizing s with
  | zero => rfl
  | succ fuel ih =>
    obtain ⟨hresult, hrest⟩ := h s
    rw [repeated, repeated]
    generalize hnext : nextBody (S.bytes s, S.failure s) = next at hresult hrest
    obtain ⟨result, stream⟩ := next
    generalize hreader : reader s = read at hresult hrest
    obtain ⟨result', s'⟩ := read
    obtain rfl : result' = result := hresult
    match result' with
    | .ok (some body) =>
      obtain rfl := hrest body rfl
      dsimp only
      rw [ih s']
    | .ok none => rfl
    | .error error => rfl

/-! ## Frames in a stream -/

/-- A body behind its length. -/
def frame (body : List UInt8) : List UInt8 := toBe 4 body.length ++ body

/-- What is left of a stream after its frames, and how reading ends there. -/
inductive Ends (failure : Option ε) : List UInt8 → Except (ReadBodyError ε) Unit → Prop
  | clean (no_failure : failure = none) : Ends failure [] (.ok ())
  | failed (error : ε) (failure_eq : failure = some error) : Ends failure [] (.error (.io error))
  /-- The stream is cut inside a length, or inside a body of that length. -/
  | cut {rest : List UInt8} (nonempty : rest ≠ [])
      (short : rest.length < 4 ∨ ofBe (rest.take 4) ≤ maxBodyLength ∧
        rest.length < 4 + ofBe (rest.take 4)) :
      Ends failure rest (.error (.cut failure))
  | oversized {rest : List UInt8} (complete : 4 ≤ rest.length)
      (long : maxBodyLength < ofBe (rest.take 4)) :
      Ends failure rest (.error .exceedsActiveLimit)

variable {failure : Option ε} {body rest : List UInt8} {ending : Except (ReadBodyError ε) Unit}

theorem length_lt_of_le {length : ℕ} (h : length ≤ maxBodyLength) : length < 256 ^ 4 :=
  h.trans_lt (by decide)

theorem nextBody_frame (failure : Option ε) (rest : List UInt8) (h : body.length ≤ maxBodyLength) :
    nextBody (frame body ++ rest, failure) = (.ok (some body), (rest, failure)) := by
  have htake : (frame body ++ rest).take 4 = toBe 4 body.length := by
    rw [frame, List.append_assoc]
    exact List.take_left' (length_toBe 4 _)
  have hdrop : (frame body ++ rest).drop 4 = body ++ rest := by
    rw [frame, List.append_assoc]
    exact List.drop_left' (length_toBe 4 _)
  have hlength : ofBe (toBe 4 body.length) = body.length := ofBe_toBe (length_lt_of_le h)
  have hne : frame body ++ rest ≠ [] := fun hnil ↦ by
    have hzero := congrArg List.length hnil
    simp [frame] at hzero
  rw [nextBody, htake, hdrop, hlength]
  rw [if_neg hne, if_neg (by simp [frame]), if_neg (not_lt.mpr h), if_neg (by simp),
    List.take_left', List.drop_left'] <;> rfl

theorem nextBody_of_ends (h : Ends failure rest ending) :
    (nextBody (rest, failure)).1 = ending.map fun _ ↦ none := by
  cases h with
  | clean no_failure => rw [nextBody, if_pos rfl, no_failure]; rfl
  | failed error failure_eq => rw [nextBody, if_pos rfl, failure_eq]; rfl
  | cut nonempty short =>
    rw [nextBody, if_neg nonempty]
    by_cases hlength : rest.length < 4
    · rw [if_pos hlength]
      rfl
    · obtain ⟨hle, hlt⟩ := short.resolve_left hlength
      rw [if_neg hlength, if_neg (not_lt.mpr hle), if_pos (by rw [List.length_drop]; omega)]
      rfl
  | oversized complete long =>
    rw [nextBody, if_neg (fun hnil ↦ by simp [hnil] at complete), if_neg (not_lt.mpr complete),
      if_pos long]
    rfl

/-- **A stream begins with a frame, or reading ends.** -/
theorem frame_or_ends (bytes : List UInt8) (failure : Option ε) :
    (∃ body rest, body.length ≤ maxBodyLength ∧ bytes = frame body ++ rest) ∨
      ∃ ending, Ends failure bytes ending := by
  by_cases hnil : bytes = []
  · subst hnil
    cases failure with
    | none => exact .inr ⟨_, .clean rfl⟩
    | some error => exact .inr ⟨_, .failed error rfl⟩
  by_cases hlength : bytes.length < 4
  · exact .inr ⟨_, .cut hnil (.inl hlength)⟩
  by_cases hlong : maxBodyLength < ofBe (bytes.take 4)
  · exact .inr ⟨_, .oversized (not_lt.mp hlength) hlong⟩
  by_cases hcut : bytes.length < 4 + ofBe (bytes.take 4)
  · exact .inr ⟨_, .cut hnil (.inr ⟨not_lt.mp hlong, hcut⟩)⟩
  have htake : (bytes.take 4).length = 4 := by rw [List.length_take]; omega
  have hbody : ((bytes.drop 4).take (ofBe (bytes.take 4))).length = ofBe (bytes.take 4) := by
    rw [List.length_take, List.length_drop]
    omega
  refine .inl ⟨(bytes.drop 4).take (ofBe (bytes.take 4)), (bytes.drop 4).drop (ofBe (bytes.take 4)),
    hbody.le.trans (not_lt.mp hlong), ?_⟩
  rw [frame, hbody, toBe_ofBe_of_length htake, List.append_assoc, List.take_append_drop,
    List.take_append_drop]

/-- Frames are read one after another, and then what is left. -/
theorem repeated_frames {bodies : List (List UInt8)}
    (h : ∀ body ∈ bodies, body.length ≤ maxBodyLength)
    (hends : Ends failure rest ending) {fuel : ℕ} (hfuel : bodies.length < fuel) :
    repeated nextBody fuel ((bodies.map frame).flatten ++ rest, failure) =
      (bodies, some ending) := by
  induction bodies generalizing fuel with
  | nil =>
    obtain ⟨fuel, rfl⟩ := Nat.exists_eq_succ_of_ne_zero (Nat.ne_of_gt hfuel)
    have hnext := nextBody_of_ends hends
    rw [List.map_nil, List.flatten_nil, List.nil_append, repeated]
    generalize nextBody (rest, failure) = next at hnext
    obtain ⟨result, stream⟩ := next
    obtain rfl : result = _ := hnext
    cases ending <;> rfl
  | cons body bodies ih =>
    obtain ⟨fuel, rfl⟩ := Nat.exists_eq_succ_of_ne_zero (Nat.ne_of_gt (Nat.zero_lt_of_lt hfuel))
    obtain ⟨hbody, hbodies⟩ := List.forall_mem_cons.mp h
    rw [List.map_cons, List.flatten_cons, List.append_assoc, repeated, nextBody_frame _ _ hbody]
    dsimp only
    rw [ih hbodies (Nat.lt_of_succ_lt_succ hfuel)]

/-- **Every stream is some frames and a rest at which reading ends.** -/
theorem exists_frames (bytes : List UInt8) (failure : Option ε) :
    ∃ (bodies : List (List UInt8)) (rest : List UInt8) (ending : Except (ReadBodyError ε) Unit),
      (∀ body ∈ bodies, body.length ≤ maxBodyLength) ∧ bytes = (bodies.map frame).flatten ++ rest ∧
        Ends failure rest ending := by
  induction hlength : bytes.length using Nat.strongRecOn generalizing bytes with
  | ind n ih =>
    rcases frame_or_ends bytes failure with ⟨body, rest, hbody, hbytes⟩ | ⟨ending, hends⟩
    · have hlt : rest.length < n := by
        rw [← hlength, hbytes, List.length_append, frame, List.length_append, length_toBe]
        omega
      obtain ⟨bodies, rest', ending, hbodies, hrest, hends⟩ := ih rest.length hlt rest rfl
      refine ⟨body :: bodies, rest', ending, List.forall_mem_cons.mpr ⟨hbody, hbodies⟩, ?_, hends⟩
      rw [hbytes, hrest, List.map_cons, List.flatten_cons, List.append_assoc]
    · exact ⟨[], bytes, ending, by simp, rfl, hends⟩

theorem length_le_flatten_frames (bodies : List (List UInt8)) :
    bodies.length ≤ (bodies.map frame).flatten.length := by
  induction bodies with
  | nil => exact Nat.le_refl 0
  | cons body bodies ih =>
    rw [List.map_cons, List.flatten_cons, List.length_append, List.length_cons, frame,
      List.length_append, length_toBe]
    omega

/-- **What is read is what there is**: the bodies of the frames that the stream begins with, and an
ending that the rest of the stream calls for. -/
theorem Reads.repeated_iff {S : ByteSource σ ε} {reader : σ → BodyResult ε × σ} (h : Reads S reader)
    {fuel : ℕ} {s : σ} (hfuel : (S.bytes s).length < fuel) {bodies : List (List UInt8)} :
    repeated reader fuel s = (bodies, some ending) ↔
      (∀ body ∈ bodies, body.length ≤ maxBodyLength) ∧ ∃ rest,
        S.bytes s = (bodies.map frame).flatten ++ rest ∧ Ends (S.failure s) rest ending := by
  have hforward : ∀ {bodies : List (List UInt8)} {rest : List UInt8}
      {ending : Except (ReadBodyError ε) Unit},
      (∀ body ∈ bodies, body.length ≤ maxBodyLength) →
      S.bytes s = (bodies.map frame).flatten ++ rest → Ends (S.failure s) rest ending →
      repeated reader fuel s = (bodies, some ending) := by
    intro bodies rest ending hbodies hbytes hends
    have hle := length_le_flatten_frames bodies
    rw [h.repeated_eq, hbytes]
    refine repeated_frames hbodies hends (lt_of_le_of_lt ?_ hfuel)
    rw [hbytes, List.length_append]
    omega
  constructor
  · intro hread
    obtain ⟨bodies', rest, ending', hbodies, hbytes, hends⟩ :=
      exists_frames (S.bytes s) (S.failure s)
    obtain ⟨rfl, hending⟩ := Prod.mk.inj (hread.symm.trans (hforward hbodies hbytes hends))
    obtain rfl := Option.some_inj.mp hending
    exact ⟨hbodies, rest, hbytes, hends⟩
  · rintro ⟨hbodies, rest, hbytes, hends⟩
    exact hforward hbodies hbytes hends

/-! ## Envelopes -/

theorem toList_of_copyArray {length offset : ℕ} {body : List UInt8} {bytes : Bytes length}
    (h : copyArray length body offset = .ok bytes) :
      bytes.toList = (body.drop offset).take length := by
  rw [copyArray] at h
  split at h
  · exact absurd h (by simp)
  · rename_i bytes' hslice
    obtain rfl := Except.ok.inj h
    rw [Bytes.slice?, Bytes.ofList?_eq_some_iff] at hslice
    exact hslice

/-- **A body that is decoded is the body of its envelope.** -/
theorem encodeBody_of_decodeBody {body : List UInt8} {envelope : Envelope}
    (h : decodeBody body = .ok envelope) : encodeBody envelope = .ok body := by
  have hheader : envelopeHeaderLength = 24 := rfl
  have hmax : maxBodyLength = 4096 := rfl
  have hpayload : maxApplicationPayloadLength = 4072 := rfl
  rw [decodeBody] at h
  split at h
  · exact absurd h (by simp)
  rename_i hlong
  split at h
  · exact absurd h (by simp)
  rename_i hshort
  split at h
  · exact absurd h (by simp)
  rename_i hmagic
  rw [not_not] at hmagic
  cases hversion : copyArray 2 body 4 with
  | error e => rw [hversion] at h; exact absurd h (by simp [bind, Except.bind])
  | ok version =>
  cases htype : copyArray 2 body 6 with
  | error e => rw [hversion, htype] at h; exact absurd h (by simp [bind, Except.bind])
  | ok messageType =>
  cases hcorrelation : copyArray 16 body 8 with
  | error e => rw [hversion, htype, hcorrelation] at h; exact absurd h (by simp [bind, Except.bind])
  | ok correlationId =>
  rw [hversion, htype, hcorrelation] at h
  obtain rfl := Except.ok.inj h
  rw [encodeBody_eq_ok (by rw [List.length_drop]; omega), bodyBytes]
  refine congrArg Except.ok ?_
  simp only [Bytes.toBe_toNat, toList_of_copyArray hversion, toList_of_copyArray htype,
    toList_of_copyArray hcorrelation, ← hmagic, hheader]
  -- each field is followed by the next
  have h₂₄ : body.drop 24 = (body.drop 8).drop 16 := by rw [List.drop_drop]
  have h₈ : body.drop 8 = (body.drop 6).drop 2 := by rw [List.drop_drop]
  have h₆ : body.drop 6 = (body.drop 4).drop 2 := by rw [List.drop_drop]
  rw [h₂₄, List.take_append_drop, h₈, List.take_append_drop, h₆, List.take_append_drop,
    List.take_append_drop]

theorem lengthBytes_eq {body : List UInt8} (h : body.length ≤ maxBodyLength) :
    lengthBytes body.length = .ok (toBe 4 body.length) :=
  if_pos ((length_lt_of_le h).trans_eq (by decide))

variable {envelope : Envelope}

theorem encodeFrame_eq (h : envelopeHeaderLength + envelope.payload.length ≤ maxBodyLength) :
    encodeFrame envelope = .ok (frame (bodyBytes envelope)) := by
  have hbody : (bodyBytes envelope).length ≤ maxBodyLength := (length_bodyBytes envelope).trans_le h
  rw [encodeFrame, encodeBody_eq_ok (Nat.le_sub_of_add_le' h)]
  dsimp only
  rw [lengthBytes_eq hbody]
  rfl

theorem writeBody_eq {body : List UInt8} (written : List UInt8) (h : body.length ≤ maxBodyLength) :
    writeBody written body = .ok (written ++ frame body) := by
  rw [writeBody, if_neg (not_lt.mpr h), lengthBytes_eq h]
  dsimp only
  rw [frame, List.append_assoc]

theorem writeEnvelopes_eq {envelopes : List Envelope}
    (h : ∀ envelope ∈ envelopes, envelopeHeaderLength + envelope.payload.length ≤ maxBodyLength)
    (written : List UInt8) :
    writeEnvelopes written envelopes =
      .ok (written ++ (envelopes.map fun envelope ↦ frame (bodyBytes envelope)).flatten) := by
  induction envelopes generalizing written with
  | nil => rw [writeEnvelopes, List.map_nil, List.flatten_nil, List.append_nil]
  | cons envelope envelopes ih =>
    obtain ⟨hlength, hrest⟩ := List.forall_mem_cons.mp h
    have hbody : (bodyBytes envelope).length ≤ maxBodyLength :=
      (length_bodyBytes envelope).trans_le hlength
    rw [writeEnvelopes, encodeBody_eq_ok (Nat.le_sub_of_add_le' hlength)]
    dsimp only
    rw [writeBody_eq written hbody]
    dsimp only
    rw [ih hrest, List.map_cons, List.flatten_cons, List.append_assoc]

theorem mapM_encodeFrame {envelopes : List Envelope}
    (h : ∀ envelope ∈ envelopes, envelopeHeaderLength + envelope.payload.length ≤ maxBodyLength) :
    envelopes.mapM encodeFrame =
      .ok (envelopes.map fun envelope ↦ frame (bodyBytes envelope)) := by
  induction envelopes with
  | nil => rfl
  | cons envelope envelopes ih =>
    obtain ⟨hlength, hrest⟩ := List.forall_mem_cons.mp h
    rw [List.mapM_cons, encodeFrame_eq hlength, ih hrest]
    rfl

/-- **Framing is transparent.**  What is written of envelopes, by either writer, is read back as
these envelopes and a clean end; a body that is decoded is encoded to the same bytes; the two
readers read the same from streams of the same bytes, in whatever pieces they arrive; and reading a
stream always ends, with the bodies of the frames that it begins with and as its rest calls for:
with an error, unless the stream is over after a frame. -/
theorem framing_transparent :
    (∀ envelopes : List Envelope,
      (∀ envelope ∈ envelopes, envelopeHeaderLength + envelope.payload.length ≤ maxBodyLength) →
      ∃ frames, envelopes.mapM encodeFrame = .ok frames ∧
        writeEnvelopes [] envelopes = .ok frames.flatten ∧
        ∀ {σ ε : Type} (S : ByteSource σ ε) (s : σ) (fuel : ℕ), S.bytes s = frames.flatten →
          S.failure s = none → frames.flatten.length < fuel →
          (repeated (readBody S) fuel s).1.map decodeBody = envelopes.map .ok ∧
            (repeated (readBody S) fuel s).2 = some (.ok ())) ∧
    (∀ (body : List UInt8) (envelope : Envelope),
      decodeBody body = .ok envelope → encodeBody envelope = .ok body) ∧
    (∀ {σ τ ε : Type} (S : ByteSource σ ε) (T : ByteSource τ ε) (s : σ) (t : τ),
      S.bytes s = T.bytes t → S.failure s = T.failure t →
      ∀ fuel, repeated (readBody S) fuel s = repeated (readStandardBody T) fuel t) ∧
    ∀ {σ ε : Type} (S : ByteSource σ ε) (s : σ) (fuel : ℕ), (S.bytes s).length < fuel →
      (∃ bodies ending, repeated (readBody S) fuel s = (bodies, some ending)) ∧
      ∀ bodies ending, repeated (readBody S) fuel s = (bodies, some ending) ↔
        (∀ body ∈ bodies, body.length ≤ maxBodyLength) ∧ ∃ rest,
          S.bytes s = (bodies.map frame).flatten ++ rest ∧ Ends (S.failure s) rest ending := by
  refine ⟨fun envelopes h ↦ ⟨_, mapM_encodeFrame h, writeEnvelopes_eq h [], ?_⟩,
    fun _ _ ↦ encodeBody_of_decodeBody, fun S T s t hbytes hfailure fuel ↦ ?_,
    fun S s fuel hfuel ↦ ⟨?_, fun _ _ ↦ (reads_readBody S).repeated_iff hfuel⟩⟩
  · intro σ ε S s fuel hbytes hfailure hfuel
    have hread : repeated (readBody S) fuel s = (envelopes.map bodyBytes, some (.ok ())) := by
      refine ((reads_readBody S).repeated_iff (hbytes ▸ hfuel)).mpr ⟨fun body hbody ↦ ?_, [], ?_,
        .clean hfailure⟩
      · obtain ⟨envelope, henvelope, rfl⟩ := List.mem_map.mp hbody
        exact (length_bodyBytes envelope).trans_le (h envelope henvelope)
      · rw [hbytes, List.map_map, List.append_nil]
        rfl
    rw [hread, List.map_map]
    refine ⟨List.map_congr_left fun envelope henvelope ↦ ?_, rfl⟩
    exact decodeBody_bodyBytes (Nat.le_sub_of_add_le' (h envelope henvelope))
  · rw [(reads_readBody S).repeated_eq, (reads_readStandardBody T).repeated_eq, hbytes, hfailure]
  · obtain ⟨bodies, rest, ending, hbodies, hbytes, hends⟩ := exists_frames (S.bytes s) (S.failure s)
    exact ⟨bodies, ending, ((reads_readBody S).repeated_iff hfuel).mpr
      ⟨hbodies, rest, hbytes, hends⟩⟩

end Renee.Wire
