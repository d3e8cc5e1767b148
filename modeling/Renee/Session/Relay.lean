import Renee.Library.Transition
import Renee.Session.Negotiation
import Renee.Wire.Framing

/-!
# The relay of a session

The session daemon stands between the gateway and the store.  One task reads the frames of the
gateway, one those of the store, and both send what they read to one queue; the loop of `main` takes
one after another from it.  Requests of the gateway are negotiated or forwarded, frames of the store
are handed to the gateway.

* `handle` is the body of the loop, with everything that leaves it: a read that fails, the end of
  either stream, an envelope that cannot be decoded, and a write that fails.
* `step` is the daemon with its two readers.  The steps are taken in any order: a reader is held up
  only by a full queue, the loop only by an empty one.
* `Fed` says what a reader has to do with the stream that it reads: the frames that the loop has
  taken, those in the queue and the bytes to come are the stream.

Both outputs are the bodies that have been written, each in a frame of its own.  What a failing
write leaves behind is the beginning of a frame, which no reader takes for one; the loop is left
with it.
-/

set_option autoImplicit false

namespace Renee.Session

open Wire

variable {σ τ ε : Type}

/-- How many frames wait for the loop at most. -/
def relayQueueCapacity : ℕ := 64

inductive RelaySource
  | gateway
  | store
deriving DecidableEq

/-- What a reader has read: a frame, the end of its stream, or an error. -/
structure RelayFrame (ε : Type) where
  source : RelaySource
  frame : BodyResult ε

/-- The errors that `main` returns. -/
inductive SessionError (ε : Type)
  | read (error : ReadBodyError ε)
  | storeClosed
  | greeting (error : GreetingEncodeError)
  | encode (error : FrameError)
  | writeBody (error : WriteError)
  | io (error : ε)

/-- What `main` returns when the loop is left. -/
abbrev Outcome (ε : Type) : Type := Except (SessionError ε) Unit

/-- The variables of the loop. -/
structure Relay where
  negotiated : Bool
  output : List (List UInt8)
  storeOutput : List (List UInt8)

/-- `write_body` to a stream, which may fail. -/
def write (fault : Option ε) (written : List (List UInt8)) (body : List UInt8) :
    Except (SessionError ε) (List (List UInt8)) :=
  match writeBody [] body with
  | .error error => .error (.writeBody error)
  | .ok _ =>
    match fault with
    | none => .ok (written ++ [body])
    | some error => .error (.io error)

/-- Serve a request of the gateway: the loop afterwards, and how it is left, if it is. -/
def handleRequest (fault : Option ε) (relay : Relay) (body : List UInt8) (request : Envelope) :
    Relay × Option (Outcome ε) :=
  if relay.negotiated = false ∨ request.messageType = clientHello then
    match negotiate request relay.negotiated with
    | .error error => (relay, some (.error (.greeting error)))
    | .ok response =>
      let relay :=
        if response.messageType = serverHello then { relay with negotiated := true } else relay
      match encodeBody response with
      | .error error => (relay, some (.error (.encode error)))
      | .ok responseBody =>
        match write fault relay.output responseBody with
        | .error error => (relay, some (.error error))
        | .ok output => ({ relay with output }, none)
  else
    match write fault relay.storeOutput body with
    | .error error => (relay, some (.error error))
    | .ok storeOutput => ({ relay with storeOutput }, none)

/-- The body of the loop. -/
def handle (fault : Option ε) (relay : Relay) (taken : RelayFrame ε) :
    Relay × Option (Outcome ε) :=
  match taken.source, taken.frame with
  | .gateway, .error error => (relay, some (.error (.read error)))
  | .gateway, .ok none => (relay, some (.ok ()))
  | .gateway, .ok (some body) =>
    match decodeBody body with
    -- no correlation identifier to answer under: the loop is left, which closes the connection
    | .error _ => (relay, some (.ok ()))
    | .ok request => handleRequest fault relay body request
  | .store, .error error => (relay, some (.error (.read error)))
  | .store, .ok none => (relay, some (.error .storeClosed))
  | .store, .ok (some response) =>
    match write fault relay.output response with
    | .error error => (relay, some (.error error))
    | .ok output => ({ relay with output }, none)

/-! ## The daemon with its readers -/

/-- The daemon of a session: what the two readers have yet to read, the queue, and the loop. -/
structure Daemon (σ τ ε : Type) where
  gatewayInput : σ
  /-- Whether the reader of the gateway has not returned. -/
  gatewayReading : Bool
  storeInput : τ
  storeReading : Bool
  queue : List (RelayFrame ε)
  relay : Relay
  ended : Option (Outcome ε)

/-- The steps of a session: those of its readers, and those of the loop, whose write may fail. -/
inductive Action (ε : Type)
  | readGateway
  | readStore
  | receive (fault : Option ε)

/-- Whether a reader reads on after what it has read. -/
def isBody : BodyResult ε → Bool
  | .ok (some _) => true
  | _ => false

/-- One step of a session.  A reader reads a frame and sends it once the queue has room; nothing
more is received once the loop has been left. -/
def step (S : ByteSource σ ε) (T : ByteSource τ ε) (session : Daemon σ τ ε) (action : Action ε) :
    Option (Daemon σ τ ε) :=
  if session.ended.isSome then none
  else match action with
  | .readGateway =>
    if session.gatewayReading ∧ session.queue.length < relayQueueCapacity then
      let (frame, input) := readStandardBody S session.gatewayInput
      some { session with
        gatewayInput := input
        gatewayReading := isBody frame
        queue := session.queue ++ [⟨.gateway, frame⟩] }
    else none
  | .readStore =>
    if session.storeReading ∧ session.queue.length < relayQueueCapacity then
      let (frame, input) := readBody T session.storeInput
      some { session with
        storeInput := input
        storeReading := isBody frame
        queue := session.queue ++ [⟨.store, frame⟩] }
    else none
  | .receive fault =>
    match session.queue with
    | [] =>
      -- the queue is closed when both readers have returned
      if session.gatewayReading ∨ session.storeReading then none
      else some { session with ended := some (.ok ()) }
    | taken :: queue =>
      let (relay, ended) := handle fault session.relay taken
      some { session with relay, ended, queue }

/-- A session whose daemon has reached the store. -/
def start (s : σ) (t : τ) : Daemon σ τ ε :=
  ⟨s, true, t, true, [], ⟨false, [], []⟩, none⟩

/-! ## What a reader has to do with its stream -/

/-- What waits in a queue from one source. -/
def waiting (source : RelaySource) (queue : List (RelayFrame ε)) : List (BodyResult ε) :=
  (queue.filter (·.source = source)).map (·.frame)

/-- A stream is the frames of the bodies that have been taken and of those that wait, and what the
reader has yet to read; a reader that has returned has sent how its stream ends. -/
inductive Fed (S : ByteSource σ ε) (s : σ) (taken : List (List UInt8)) :
    List (BodyResult ε) → Bool → σ → Prop
  | reading {bodies : List (List UInt8)} {input : σ}
      (fit : ∀ body ∈ taken ++ bodies, body.length ≤ maxBodyLength)
      (bytes : S.bytes s = ((taken ++ bodies).map frame).flatten ++ S.bytes input)
      (failure : S.failure input = S.failure s) :
      Fed S s taken (bodies.map fun body ↦ .ok (some body)) true input
  | returned {bodies : List (List UInt8)} {rest : List UInt8} {last : BodyResult ε} {input : σ}
      (fit : ∀ body ∈ taken ++ bodies, body.length ≤ maxBodyLength)
      (bytes : S.bytes s = ((taken ++ bodies).map frame).flatten ++ rest)
      (last_eq : last = (nextBody (rest, S.failure s)).1) (terminal : isBody last = false) :
      Fed S s taken ((bodies.map fun body ↦ .ok (some body)) ++ [last]) false input

variable {S : ByteSource σ ε} {s input : σ} {taken : List (List UInt8)} {body : List UInt8}
  {queue : List (BodyResult ε)} {reading : Bool}

theorem Fed.start (S : ByteSource σ ε) (s : σ) : Fed S s [] [] true s := by
  have h : Fed S s [] (([] : List (List UInt8)).map fun body ↦ .ok (some body)) true s :=
    .reading (by simp) rfl rfl
  exact h

/-- What a body is read of begins with its frame. -/
theorem nextBody_eq_body {stream stream' : List UInt8 × Option ε}
    (h : nextBody stream = (.ok (some body), stream')) :
    body.length ≤ maxBodyLength ∧ stream.1 = frame body ++ stream'.1 ∧ stream.2 = stream'.2 := by
  obtain ⟨bytes, failure⟩ := stream
  rcases frame_or_ends bytes failure with ⟨body', rest, hfit, rfl⟩ | ⟨ending, hends⟩
  · rw [nextBody_frame failure rest hfit] at h
    obtain ⟨hbody, rfl⟩ := Prod.mk.inj h
    obtain rfl := Option.some_inj.mp (Except.ok.inj hbody)
    exact ⟨hfit, rfl, rfl⟩
  · have hnext := nextBody_of_ends hends
    rw [h] at hnext
    cases ending <;> exact absurd hnext (by simp [Except.map])

/-- A reader reads on. -/
theorem Fed.read {reader : σ → BodyResult ε × σ} (hreader : Reads S reader)
    (h : Fed S s taken queue true input) :
    Fed S s taken (queue ++ [(reader input).1]) (isBody (reader input).1) (reader input).2 := by
  cases h with
  | reading fit bytes failure =>
    rename_i bodies
    obtain ⟨hresult, hrest⟩ := hreader input
    generalize hread : reader input = read at hresult hrest
    obtain ⟨result, input'⟩ := read
    dsimp only at hresult hrest ⊢
    cases hbody : isBody result with
    | false =>
      refine .returned fit bytes ?_ hbody
      rw [hresult, failure]
    | true =>
      match result, hbody with
      | .ok (some body), _ =>
        obtain ⟨hfit, hstart, hsame⟩ :=
          nextBody_eq_body (Prod.ext hresult.symm (hrest body rfl).symm)
        dsimp only at hstart hsame
        have hqueue : (bodies.map fun body ↦ .ok (some body)) ++ [.ok (some body)] =
            (bodies ++ [body]).map fun body ↦ (.ok (some body) : BodyResult ε) := by
          rw [List.map_append]
          rfl
        rw [hqueue]
        refine .reading (fun other hother ↦ ?_) ?_ (hsame.symm.trans failure)
        · rw [← List.append_assoc] at hother
          rcases List.mem_append.mp hother with hother | hother
          · exact fit other hother
          · exact List.mem_singleton.mp hother ▸ hfit
        · rw [bytes, hstart, ← List.append_assoc, List.map_append, List.flatten_append,
            List.append_assoc]
          simp

/-- The loop takes a body. -/
theorem Fed.take (h : Fed S s taken (.ok (some body) :: queue) reading input) :
    body.length ≤ maxBodyLength ∧ Fed S s (taken ++ [body]) queue reading input := by
  generalize hall : (.ok (some body) :: queue : List (BodyResult ε)) = all at h
  cases h with
  | reading fit bytes failure =>
    rename_i bodies
    cases bodies with
    | nil => exact absurd hall (by simp)
    | cons body' bodies =>
      obtain ⟨hbody, rfl⟩ := List.cons.inj hall
      obtain rfl := Option.some_inj.mp (Except.ok.inj hbody)
      rw [List.append_cons] at fit bytes
      exact ⟨fit body (by simp), .reading fit bytes failure⟩
  | returned fit bytes last_eq terminal =>
    rename_i bodies rest last
    cases bodies with
    | nil =>
      obtain ⟨rfl, -⟩ := List.cons.inj hall
      exact absurd terminal (by simp [isBody])
    | cons body' bodies =>
      obtain ⟨hbody, rfl⟩ := List.cons.inj hall
      obtain rfl := Option.some_inj.mp (Except.ok.inj hbody)
      rw [List.append_cons] at fit bytes
      exact ⟨fit body (by simp), .returned fit bytes last_eq terminal⟩

/-- What has been taken begins the stream. -/
theorem Fed.exists_rest (h : Fed S s taken queue reading input) :
    (∀ body ∈ taken, body.length ≤ maxBodyLength) ∧
      ∃ rest, S.bytes s = (taken.map frame).flatten ++ rest := by
  cases h with
  | reading fit bytes failure =>
    refine ⟨fun body hbody ↦ fit body (List.mem_append_left _ hbody), ?_⟩
    rw [List.map_append, List.flatten_append, List.append_assoc] at bytes
    exact ⟨_, bytes⟩
  | returned fit bytes last_eq terminal =>
    refine ⟨fun body hbody ↦ fit body (List.mem_append_left _ hbody), ?_⟩
    rw [List.map_append, List.flatten_append, List.append_assoc] at bytes
    exact ⟨_, bytes⟩

/-- The loop takes how the stream ends, after everything else that was sent. -/
theorem Fed.last {last : BodyResult ε} (h : Fed S s taken (last :: queue) reading input)
    (hlast : isBody last = false) :
    ∃ rest, S.bytes s = (taken.map frame).flatten ++ rest ∧
    last = (nextBody (rest, S.failure s)).1 := by
  generalize hall : (last :: queue : List (BodyResult ε)) = all at h
  cases h with
  | reading fit bytes failure =>
    rename_i bodies
    cases bodies with
    | nil => exact absurd hall (by simp)
    | cons body bodies =>
      obtain ⟨rfl, -⟩ := List.cons.inj hall
      exact absurd hlast (by simp [isBody])
  | returned fit bytes last_eq terminal =>
    rename_i bodies rest last
    cases bodies with
    | nil =>
      obtain ⟨rfl, -⟩ := List.cons.inj hall
      rw [List.append_nil] at bytes
      exact ⟨rest, bytes, last_eq⟩
    | cons body bodies =>
      obtain ⟨rfl, -⟩ := List.cons.inj hall
      exact absurd hlast (by simp [isBody])

end Renee.Session
