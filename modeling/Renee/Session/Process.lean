import Renee.Session.Refinement
import Renee.Wire.Pipe
import Renee.Wire.SubscriptionMessages

/-!
# The session daemon between its pipes

The daemon of `Renee.Session.Relay`, whose streams are pipes that others write while it runs.  The
loop is the same `handle`; the readers read what has been written so far.

`SessionProcess.Moves` says what a step does to the frames of the store on their way to the gateway:
they are passed on in order, with answers of the daemon itself between them (`step_moves`).
-/

set_option autoImplicit false

namespace Renee.Session

open Wire

variable {ε : Type}

/-- A running session daemon. -/
structure SessionProcess (ε : Type) where
  /-- How many bodies of the gateway have been read. -/
  gatewayCount : ℕ
  gatewayReading : Bool
  /-- How many bodies of the store have been read. -/
  storeCount : ℕ
  storeReading : Bool
  queue : List (RelayFrame ε)
  relay : Relay
  ended : Option (Outcome ε)
  /-- What the daemon itself has answered; no step reads it. -/
  answered : List (List UInt8)

/-- What others have written to a session, and whether they still can. -/
structure SessionPipes where
  gateway : List (List UInt8)
  gatewayClosed : Bool
  store : List (List UInt8)
  storeClosed : Bool

inductive SessionAction (ε : Type)
  | readGateway (fault : Option (ReadBodyError ε))
  | readStore (fault : Option (ReadBodyError ε))
  | receive (fault : Option ε)

namespace SessionProcess

def start : SessionProcess ε := ⟨0, true, 0, true, [], ⟨false, [], []⟩, none, []⟩

/-- One step of a session: those of `step`, with pipes for streams. -/
def step (pipes : SessionPipes) (p : SessionProcess ε) (action : SessionAction ε) :
    Option (SessionProcess ε) :=
  if p.ended.isSome then none
  else match action with
  | .readGateway fault =>
    if p.gatewayReading ∧ p.queue.length < relayQueueCapacity then
      (nextFrame fault pipes.gateway p.gatewayCount pipes.gatewayClosed).map fun frame ↦
        { p with
          gatewayCount := readCount p.gatewayCount frame
          gatewayReading := !terminal frame
          queue := p.queue ++ [⟨.gateway, frame⟩] }
    else none
  | .readStore fault =>
    if p.storeReading ∧ p.queue.length < relayQueueCapacity then
      (nextFrame fault pipes.store p.storeCount pipes.storeClosed).map fun frame ↦
        { p with
          storeCount := readCount p.storeCount frame
          storeReading := !terminal frame
          queue := p.queue ++ [⟨.store, frame⟩] }
    else none
  | .receive fault =>
    match p.queue with
    | [] =>
      if p.gatewayReading ∨ p.storeReading then none else some { p with ended := some (.ok ()) }
    | taken :: queue =>
      let (relay, ended) := handle fault p.relay taken
      some { p with
        relay, ended, queue
        answered := p.answered ++
          if taken.source = .gateway then relay.output.drop p.relay.output.length else [] }

/-! ## What a step does -/

/-- What the store has written and the loop has yet to receive. -/
def incoming (p : SessionProcess ε) (written : List (List UInt8)) : List (List UInt8) :=
  bodiesOf (waiting .store p.queue) ++ written.drop p.storeCount

/-- What a step can do to the frames of the store. -/
inductive Moves (written : List (List UInt8)) (p p' : SessionProcess ε) : Prop
  | quiet (ended : p'.ended = none) (output : p'.relay.output = p.relay.output)
      (incoming : p'.incoming written = p.incoming written) (answered : p'.answered = p.answered)
  | answer (body : List UInt8) (plain : Plain body) (ended : p'.ended = none)
      (output : p'.relay.output = p.relay.output ++ [body])
      (incoming : p'.incoming written = p.incoming written)
      (answered : p'.answered = p.answered ++ [body])
  | relay (body : List UInt8) (ended : p'.ended = none)
      (output : p'.relay.output = p.relay.output ++ [body])
      (incoming : p.incoming written = body :: p'.incoming written)
      (answered : p'.answered = p.answered)
  | leave (ended : p'.ended ≠ none) (output : p'.relay.output = p.relay.output)
      (answered : p'.answered = p.answered)

variable {fault : Option ε} {relay relay' : Relay} {taken : RelayFrame ε}
  {ended : Option (Outcome ε)} {body : List UInt8}

theorem write_eq_ok {written output : List (List UInt8)}
    (h : write fault written body = .ok output) : output = written ++ [body] := by
  rw [write.eq_def] at h
  split at h
  · exact absurd h (by simp)
  · split at h
    · exact (Except.ok.inj h).symm
    · exact absurd h (by simp)

/-- What the daemon answers is plain. -/
theorem plain_of_negotiate {request response : Envelope} {negotiated : Bool}
    (h : negotiate request negotiated = .ok response) (hbody : encodeBody response = .ok body) :
    Plain body := by
  obtain ⟨response', hresponse, hcases⟩ := exists_negotiate_eq_ok request negotiated
  obtain rfl := Except.ok.inj (h.symm.trans hresponse)
  have hdecode := (decodeBody_encodeBody hbody).2
  rcases hcases with rfl | ⟨payload, -, rfl⟩
  · exact plain_of_decodeBody hdecode (by dsimp only [selection]; decide)
  · exact plain_of_decodeBody hdecode (by dsimp only [rejection]; decide)

/-- What the loop makes of a request. -/
theorem handleRequest_cases {request : Envelope}
    (h : handleRequest fault relay body request = (relay', ended)) :
    (ended ≠ none ∧ relay'.output = relay.output) ∨
      (ended = none ∧ (relay'.output = relay.output ∨
        ∃ answer, Plain answer ∧ relay'.output = relay.output ++ [answer])) := by
  rw [handleRequest.eq_def] at h
  split_ifs at h
  · split at h
    · obtain ⟨rfl, rfl⟩ := Prod.mk.inj h
      exact .inl ⟨by simp, rfl⟩
    · rename_i response hnegotiate
      have hsame : (if response.messageType = serverHello then { relay with negotiated := true }
          else relay).output = relay.output := by
        split_ifs <;> rfl
      dsimp only at h
      split at h
      · obtain ⟨rfl, rfl⟩ := Prod.mk.inj h
        exact .inl ⟨by simp, hsame⟩
      · rename_i answer hencode
        split at h
        · obtain ⟨rfl, rfl⟩ := Prod.mk.inj h
          exact .inl ⟨by simp, hsame⟩
        · rename_i output hwrite
          obtain ⟨rfl, rfl⟩ := Prod.mk.inj h
          rw [hsame] at hwrite
          exact .inr ⟨rfl, .inr ⟨answer, plain_of_negotiate hnegotiate hencode, write_eq_ok hwrite⟩⟩
  · split at h
    · obtain ⟨rfl, rfl⟩ := Prod.mk.inj h
      exact .inl ⟨by simp, rfl⟩
    · obtain ⟨rfl, rfl⟩ := Prod.mk.inj h
      exact .inr ⟨rfl, .inl rfl⟩

/-- What the loop makes of a frame. -/
theorem handle_cases (h : handle fault relay taken = (relay', ended)) :
    (ended ≠ none ∧ relay'.output = relay.output) ∨
      (ended = none ∧ taken.source = .gateway ∧ (relay'.output = relay.output ∨
        ∃ answer, Plain answer ∧ relay'.output = relay.output ++ [answer])) ∨
      (ended = none ∧ taken.source = .store ∧ ∃ body, taken.frame = .ok (some body) ∧
        relay'.output = relay.output ++ [body]) := by
  rw [handle.eq_def] at h
  split at h
  · obtain ⟨rfl, rfl⟩ := Prod.mk.inj h
    exact .inl ⟨by simp, rfl⟩
  · obtain ⟨rfl, rfl⟩ := Prod.mk.inj h
    exact .inl ⟨by simp, rfl⟩
  · rename_i hsource _
    split at h
    · obtain ⟨rfl, rfl⟩ := Prod.mk.inj h
      exact .inl ⟨by simp, rfl⟩
    · exact (handleRequest_cases h).imp_right fun h ↦ .inl ⟨h.1, hsource, h.2⟩
  · obtain ⟨rfl, rfl⟩ := Prod.mk.inj h
    exact .inl ⟨by simp, rfl⟩
  · obtain ⟨rfl, rfl⟩ := Prod.mk.inj h
    exact .inl ⟨by simp, rfl⟩
  · rename_i body hsource hframe
    split at h
    · obtain ⟨rfl, rfl⟩ := Prod.mk.inj h
      exact .inl ⟨by simp, rfl⟩
    · rename_i hwrite
      obtain ⟨rfl, rfl⟩ := Prod.mk.inj h
      exact .inr (.inr ⟨rfl, hsource, body, hframe, write_eq_ok hwrite⟩)

variable {pipes : SessionPipes} {p p' : SessionProcess ε}

theorem running_of_step {action : SessionAction ε} (h : p.step pipes action = some p') :
    p.ended = none := by
  rw [step.eq_def] at h
  split at h
  · exact absurd h (by simp)
  · rename_i hended
    simpa using hended

/-- **What a step of a session does to the frames of the store.** -/
theorem step_moves {action : SessionAction ε} (hcount : p.storeCount ≤ pipes.store.length)
    (h : p.step pipes action = some p') :
    p.Moves pipes.store p' ∧ p'.storeCount ≤ pipes.store.length := by
  rw [step.eq_def] at h
  split at h
  · exact absurd h (by simp)
  rename_i hended
  have hrunning : p.ended = none := by simpa using hended
  split at h
  · split_ifs at h
    obtain ⟨frame, -, rfl⟩ := Option.map_eq_some_iff.mp h
    refine ⟨.quiet hrunning rfl ?_ rfl, hcount⟩
    rw [incoming, waiting_append, if_neg (by simp), List.append_nil]
    rfl
  · split_ifs at h
    obtain ⟨frame, hframe, rfl⟩ := Option.map_eq_some_iff.mp h
    obtain ⟨hdrop, hcount'⟩ := bodiesOf_nextFrame hframe hcount
    refine ⟨.quiet hrunning rfl ?_ rfl, hcount'⟩
    rw [incoming, waiting_append, if_pos rfl, bodiesOf_append, List.append_assoc, ← hdrop]
    rfl
  · split at h
    · split_ifs at h
      obtain rfl := Option.some_inj.mp h
      exact ⟨.leave (by simp) rfl rfl, hcount⟩
    · rename_i taken queue hqueue
      generalize hhandle : handle _ p.relay taken = handled at h
      obtain ⟨relay, ended⟩ := handled
      obtain rfl := Option.some_inj.mp h
      refine ⟨?_, hcount⟩
      rcases handle_cases hhandle with ⟨hleft, houtput⟩ | ⟨rfl, hsource, houtput⟩ |
        ⟨rfl, hsource, body, hframe, houtput⟩
      · exact .leave hleft houtput (by simp [houtput])
      · have hincoming : p.incoming pipes.store =
            bodiesOf (waiting .store queue) ++ pipes.store.drop p.storeCount := by
          rw [incoming, hqueue, waiting_cons, if_neg (by simp [hsource]), List.nil_append]
        rcases houtput with houtput | ⟨answer, hplain, houtput⟩
        · exact .quiet rfl houtput hincoming.symm (by simp [houtput])
        · exact .answer answer hplain rfl houtput hincoming.symm (by simp [houtput, hsource])
      · refine .relay body rfl houtput ?_ (by simp [hsource])
        rw [incoming, hqueue, waiting_cons, if_pos hsource, hframe]
        rfl

end SessionProcess

end Renee.Session
