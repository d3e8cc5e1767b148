import Renee.Wire.Pipe
import Renee.Wire.SubscriptionMessages

/-!
# The dispatcher of the gateway

One loop routes what passes between a client and its session (`relay_session`).  Every public
request has a stream and a task of its own, which reads it, submits it to the loop and writes its
response (`relay_public_request`); another task reads what the session writes
(`read_session_output`).  The loop keeps the requests that await their response under their
correlation identifiers.

* `Dispatcher.step` is the dispatcher with its tasks, in any order.  The two places where an arm of
  the loop waits, for the delivery of an acknowledgement and for the stream of an event, are what it
  can be `busy` with.
* A task is known by the number of tasks before it.
* `transport` is what the client sees: the responses that have been completely delivered, and the
  events whose stream has been opened.

Loop and tasks end together: when the loop is left, the tasks are aborted and the connection is
closed.
-/

set_option autoImplicit false

namespace Renee.Gateway

open ByteString Wire

variable {ε : Type}

def maxConnectionRequests : ℕ := 64

/-- Requests the control-signed certificate manifest. -/
def certificateManifest : U16 := 4

/-- Contains the control-signed certificate manifest. -/
def certificateManifestResponse : U16 := 5

/-- Why the dispatcher, or a task of it, ends. -/
inductive RelayError (ε : Type)
  | decode (error : DecodeError)
  | encode (error : FrameError)
  | read (error : ReadBodyError ε)
  | write (error : WriteFailure ε)
  | io (error : ε)
  | invalidData (message : String)
  | other (message : String)

/-- How far the task of a public request is. -/
inductive RequestTask (ε : Type)
  | reading
  /-- The request has been submitted. -/
  | waiting
  /-- The response has come; `acknowledges` says whether its delivery is awaited. -/
  | responding (body : List UInt8) (acknowledges : Bool)
  | finished (result : Except (RelayError ε) Unit)
  | joined

/-- What the client sees. -/
inductive Delivery
  /-- A response has been completely written to the stream of a request. -/
  | response (task : ℕ) (body : List UInt8)
  /-- The stream of an event has been opened. -/
  | event (body : List UInt8)
deriving DecidableEq

/-- What an arm of the loop waits for. -/
inductive Busy
  | acknowledgement (task : ℕ) (body : List UInt8)
  | event (body : List UInt8)

structure Dispatcher (ε : Type) where
  tasks : List (RequestTask ε)
  requests : List (ℕ × List UInt8)
  pending : List (Bytes 16 × ℕ)
  /-- How many bodies of the session have been read. -/
  count : ℕ
  reading : Bool
  sessionOutput : List (BodyResult ε)
  busy : Option Busy
  sessionInput : List (List UInt8)
  ended : Option (Except (RelayError ε) Unit)
  transport : List Delivery
  /-- The requests that have been submitted; no step reads them. -/
  submitted : List (ℕ × List UInt8)
  /-- The responses of the session that have been handed to tasks; no step reads them. -/
  handed : List (ℕ × List UInt8)

namespace Dispatcher

def start : Dispatcher ε := ⟨[], [], [], 0, true, [], none, [], none, [], [], []⟩

def leave (g : Dispatcher ε) (outcome : Except (RelayError ε) Unit) : Dispatcher ε :=
  { g with ended := some outcome }

def setTask (g : Dispatcher ε) (task : ℕ) (phase : RequestTask ε) : Dispatcher ε :=
  { g with tasks := g.tasks.set task phase }

/-! ## The task of a request -/

/-- A task has read its request, up to the end of its stream, and submits it; without one it is
done. -/
def submit (g : Dispatcher ε) (task : ℕ) (request : Except (RelayError ε) (Option (List UInt8))) :
    Option (Dispatcher ε) :=
  match g.tasks[task]? with
  | some .reading =>
    match request with
    | .error error => some (g.setTask task (.finished (.error error)))
    | .ok none => some (g.setTask task (.finished (.ok ())))
    | .ok (some body) =>
      if g.requests.length < maxConnectionRequests then
        some { g.setTask task .waiting with
          requests := g.requests ++ [(task, body)]
          submitted := g.submitted ++ [(task, body)] }
      else none
  | _ => none

/-- A task writes its response and finishes its stream. -/
def deliver (g : Dispatcher ε) (task : ℕ) (fault : Option ε) : Option (Dispatcher ε) :=
  match g.tasks[task]? with
  | some (.responding body _) =>
    match writeFrame fault [] body with
    | .error error => some (g.setTask task (.finished (.error (.write error))))
    | .ok _ =>
      some { g.setTask task (.finished (.ok ())) with
        transport := g.transport ++ [.response task body] }
  | _ => none

/-! ## The loop -/

/-- Accept a request stream, or notice that there are no more. -/
def accept (g : Dispatcher ε) (stream : Bool) : Dispatcher ε :=
  if stream = false then g.leave (.ok ())
  else if maxConnectionRequests ≤ g.tasks.countP fun task ↦ !(task matches .joined) then
    g.leave (.error (.other "connection request limit exceeded"))
  else { g with tasks := g.tasks ++ [.reading] }

/-- `certificate_manifest_response`, which only debug builds have. -/
def manifestResponse (manifest : Option (List UInt8)) (request : Envelope) :
    Except FrameError (Option (List UInt8)) :=
  match manifest with
  | none => .ok none
  | some manifest =>
    if request.version ≠ version ∨ request.messageType ≠ certificateManifest then .ok none
    else (encodeBody ⟨request.correlationId, certificateManifestResponse, manifest,
      version⟩).map some

/-- Send a response to a task; there is nobody to receive it unless the task waits. -/
def respond (g : Dispatcher ε) (task : ℕ) (body : List UInt8) (acknowledges : Bool) :
    Option (Dispatcher ε) :=
  match g.tasks[task]? with
  | some .waiting => some (g.setTask task (.responding body acknowledges))
  | _ => none

/-- Send a response of the session to a task. -/
def hand (g : Dispatcher ε) (task : ℕ) (body : List UInt8) (acknowledges : Bool) :
    Option (Dispatcher ε) :=
  (g.respond task body acknowledges).map fun g ↦ { g with handed := g.handed ++ [(task, body)] }

/-- Register a request and forward it to the session. -/
def forward (g : Dispatcher ε) (fault : Option ε) (task : ℕ) (body : List UInt8)
    (request : Envelope) : Dispatcher ε :=
  if maxConnectionRequests ≤ g.pending.length then
    g.leave (.error (.other "connection correlation limit exceeded"))
  else if g.pending.any fun entry ↦ entry.1 = request.correlationId then
    g.leave (.error (.invalidData "duplicate active correlation identifier"))
  else
    let g := { g with pending := g.pending ++ [(request.correlationId, task)] }
    match writeFrame fault g.sessionInput body with
    | .error error => g.leave (.error (.write error))
    | .ok sessionInput => { g with sessionInput }

/-- The arm of the loop that receives a request. -/
def receiveRequest (manifest : Option (List UInt8)) (g : Dispatcher ε) (fault : Option ε) :
    Option (Dispatcher ε) :=
  match g.requests with
  -- the loop keeps a sender itself, so the queue is never closed
  | [] => none
  | (task, body) :: requests =>
    let g := { g with requests }
    match decodeBody body with
    | .error error => some (g.leave (.error (.decode error)))
    | .ok request =>
      match manifestResponse manifest request with
      | .error error => some (g.leave (.error (.encode error)))
      | .ok (some response) => some ((g.respond task response false).getD g)
      | .ok none => some (g.forward fault task body request)

/-- Route a response to the request that is pending under its correlation identifier. -/
def routeResponse (g : Dispatcher ε) (response : List UInt8) (envelope : Envelope) : Dispatcher ε :=
  match g.pending.find? fun entry ↦ entry.1 = envelope.correlationId with
  | none =>
    g.leave (.error (.invalidData "sessiond returned an impossible correlation identifier"))
  | some (_, task) =>
    let g := { g with pending := g.pending.filter fun entry ↦ entry.1 ≠ envelope.correlationId }
    if envelope.messageType = subscribeUpdatesAck then
      match g.hand task response true with
      | none => g.leave (.error (.other "subscription client closed before acknowledgement"))
      | some g => { g with busy := some (.acknowledgement task response) }
    else (g.hand task response false).getD g

/-- Route a frame of the session. -/
def route (g : Dispatcher ε) (fault : Option ε) (response : List UInt8) : Dispatcher ε :=
  match decodeBody response with
  | .error error => g.leave (.error (.decode error))
  | .ok envelope =>
    if isUpdateSubscriptionEvent envelope.messageType then
      match fault with
      | some error => g.leave (.error (.io error))
      | none => { g with busy := some (.event response), transport := g.transport ++
        [.event response] }
    else g.routeResponse response envelope

/-- The arm of the loop that receives what the session has written. -/
def receiveOutput (g : Dispatcher ε) (fault : Option ε) : Option (Dispatcher ε) :=
  match g.sessionOutput with
  | [] => if g.reading then none else
    some (g.leave (.error (.other "sessiond closed before response")))
  | .error error :: _ => some (g.leave (.error (.read error)))
  | .ok none :: _ => some (g.leave (.error (.other "sessiond closed before response")))
  | .ok (some response) :: sessionOutput => some ({ g with sessionOutput }.route fault response)

/-- The loop goes on when what it waits for has come about. -/
def resume (g : Dispatcher ε) (fault : Option ε) : Option (Dispatcher ε) :=
  match g.busy with
  | none => none
  | some (.event body) =>
    match writeFrame fault [] body with
    | .error error => some (g.leave (.error (.write error)))
    | .ok _ => some { g with busy := none }
  | some (.acknowledgement task _) =>
    match g.tasks[task]? with
    | some (.finished (.ok _)) => some { g with busy := none }
    | some (.finished (.error _)) =>
      some (g.leave (.error (.other "subscription acknowledgement stream closed early")))
    | _ => none

/-- The arm of the loop that joins a task. -/
def join (g : Dispatcher ε) (task : ℕ) : Option (Dispatcher ε) :=
  match g.tasks[task]? with
  | some (.finished (.ok _)) => some (g.setTask task .joined)
  | some (.finished (.error error)) => some (g.leave (.error error))
  | _ => none

/-- The reader of what the session writes. -/
def readOutput (g : Dispatcher ε) (fault : Option (ReadBodyError ε)) (written : List (List UInt8))
    (closed : Bool) : Option (Dispatcher ε) :=
  if g.reading ∧ g.sessionOutput.length < maxConnectionRequests then
    (nextFrame fault written g.count closed).map fun frame ↦
      { g with
        count := readCount g.count frame
        reading := !terminal frame
        sessionOutput := g.sessionOutput ++ [frame] }
  else none

end Dispatcher

/-- The steps of a dispatcher. -/
inductive DispatcherAction (ε : Type)
  | submit (task : ℕ) (request : Except (RelayError ε) (Option (List UInt8)))
  | deliver (task : ℕ) (fault : Option ε)
  | readOutput (fault : Option (ReadBodyError ε))
  | resume (fault : Option ε)
  | accept (stream : Bool)
  | receiveRequest (fault : Option ε)
  | receiveOutput (fault : Option ε)
  | join (task : ℕ)
  /-- The connection has been closed. -/
  | close

/-- One step of a dispatcher, where `written` is what the session has written so far.  An arm of the
loop is taken only while the loop is not busy with one. -/
def Dispatcher.step (manifest : Option (List UInt8)) (written : List (List UInt8)) (closed : Bool)
    (g : Dispatcher ε) (action : DispatcherAction ε) : Option (Dispatcher ε) :=
  if g.ended.isSome then none
  else match action, g.busy with
  | .submit task request, _ => g.submit task request
  | .deliver task fault, _ => g.deliver task fault
  | .readOutput fault, _ => g.readOutput fault written closed
  | .resume fault, _ => g.resume fault
  | .accept stream, none => some (g.accept stream)
  | .receiveRequest fault, none => g.receiveRequest manifest fault
  | .receiveOutput fault, none => g.receiveOutput fault
  | .join task, none => g.join task
  | .close, none => some (g.leave (.ok ()))
  | _, some _ => none

end Renee.Gateway
