import Renee.Gateway.DispatcherSpec
import Renee.Service.Connection
import Renee.Session.Process

/-!
# From a client to the store and back

The three processes that serve one connection of a client: the dispatcher of the gateway, its
session, and the connection of the store.  What one writes is what the next one reads; a process
that has ended closes what it has written.

* `System.step` takes the steps of the three in any order, and of the tasks of each.
* `System.upcoming` is everything on its way to the client, as one line: what the dispatcher has yet
  to receive, then the session, then the store, with the events in its queue at the end.
* `Routed` is what every step keeps: the line carries responses and events, and what an event
  requires, the acknowledgement of its subscription, comes before it.
-/

set_option autoImplicit false

namespace Renee.Gateway

open ByteString Wire SharedLine Session Service

variable {ε : Type}

/-- The processes that serve a connection of a client. -/
structure System (ε : Type) where
  dispatcher : Dispatcher ε
  session : SessionProcess ε
  connection : Connection ε

inductive Action (ε : Type)
  | dispatcher (action : DispatcherAction ε)
  | session (action : SessionAction ε)
  | connection (action : ConnectionAction ε)

/-- What does not change while a connection is served. -/
structure Setting where
  sha256 : List UInt8 → Bytes verifierLength
  /-- The certificate manifest of a debug build. -/
  manifest : Option (List UInt8)
  channel : BrokerChannel

namespace System

def start : System ε := ⟨.start, .start, .start⟩

/-- Whether the loop of the store has ended, which closes the connection. -/
def storeClosed (s : System ε) : Bool := s.connection.phase matches .ended _

def pipes (s : System ε) : SessionPipes where
  gateway := s.dispatcher.sessionInput
  gatewayClosed := s.dispatcher.ended.isSome
  store := s.connection.output
  storeClosed := s.storeClosed

def step (setting : Setting) (s : System ε) : Action ε → Option (System ε)
  | .dispatcher action =>
    (s.dispatcher.step setting.manifest s.session.relay.output s.session.ended.isSome action).map
      fun dispatcher ↦ { s with dispatcher }
  | .session action => (s.session.step s.pipes action).map fun session ↦ { s with session }
  | .connection action =>
    (s.connection.step setting.sha256 setting.channel s.session.relay.storeOutput
      s.session.ended.isSome action).map fun connection ↦ { s with connection }

/-! ## The line to the client -/

/-- What the session has yet to pass on, and what the store has yet to write; it is of no use once
the session has ended. -/
def behind (session : SessionProcess ε) (connection : Connection ε) : List (List UInt8) :=
  if session.ended.isSome then []
  else session.incoming connection.output ++ connection.traffic.events

/-- Everything that is on its way to the client. -/
def upcoming (s : System ε) : List (List UInt8) :=
  s.dispatcher.arriving s.session.relay.output ++ behind s.session s.connection

/-- Everything that has been sent as a response. -/
def responses (s : System ε) : List (List UInt8) := s.session.answered ++ s.connection.responses

end System

/-- Responses and events are routed. -/
structure Routed (s : System ε) : Prop where
  keyed : s.dispatcher.Keyed
  read : s.dispatcher.count ≤ s.session.relay.output.length
  readStore : s.session.storeCount ≤ s.connection.output.length
  sound : s.connection.traffic.Sound
  answered : ∀ body ∈ s.session.answered, isEvent body = false
  carried : Carried isEvent s.dispatcher.opened (s.dispatcher.handed.map Prod.snd) s.upcoming
    s.connection.produced s.responses
  delivered : Announced Delivery.concerns Delivery.acknowledges ∅ s.dispatcher.transport
  announced : s.dispatcher.ended = none →
    Announced concerns acknowledges s.dispatcher.known s.upcoming
  forwarded : s.dispatcher.ended = none → s.session.ended = none →
    ∀ key ∈ s.connection.traffic.keys,
      key ∈ SharedLine.after acknowledges s.dispatcher.known s.upcoming

namespace Routed

variable {s : System ε}

theorem start : Routed (.start : System ε) where
  keyed := Dispatcher.keyed_start
  read := le_rfl
  readStore := le_rfl
  sound := .start
  answered := by simp [System.start, SessionProcess.start]
  carried := .nil
  delivered := trivial
  announced _ := trivial
  forwarded _ _ := by simp [System.start, Connection.start, Connection.traffic]

/-! ## Steps of the dispatcher -/

theorem upcoming_dispatcher (dispatcher : Dispatcher ε) :
    ({ s with dispatcher } : System ε).upcoming = dispatcher.arriving s.session.relay.output ++
      System.behind s.session s.connection := rfl

theorem mem_of_none {key : SubscriptionKey} {announced : Option SubscriptionKey}
    (h : announced = none) : key ∉ announced := by simp [h]

theorem dispatcher (h : Routed s) {dispatcher : Dispatcher ε} (hrunning : s.dispatcher.ended = none)
    (hkeyed : dispatcher.Keyed) (hread : dispatcher.count ≤ s.session.relay.output.length)
    (hmoves : s.dispatcher.Moves s.session.relay.output dispatcher) :
    Routed { s with dispatcher } := by
  obtain ⟨-, -, hreadStore, hsound, hanswered, hcarried, hdelivered, hannounced, hforwarded⟩ := h
  replace hannounced := hannounced hrunning
  replace hforwarded := hforwarded hrunning
  cases hmoves with
  | quiet arriving transport handed known =>
    have hupcoming : ({ s with dispatcher } : System ε).upcoming = s.upcoming :=
      congrArg (· ++ System.behind s.session s.connection) arriving
    refine ⟨hkeyed, hread, hreadStore, hsound, hanswered, ?_, ?_, fun hended ↦ ?_,
      fun hended hsession key hkey ↦ ?_⟩
    · have hopened : dispatcher.opened = s.dispatcher.opened := by
        rcases transport with htransport | ⟨task, body, htransport⟩
        · rw [Dispatcher.opened, Dispatcher.opened, htransport]
        · rw [Dispatcher.opened, Dispatcher.opened, htransport, List.filterMap_append]
          exact List.append_nil _
      rw [hupcoming, hopened, handed]
      exact hcarried
    · rcases transport with htransport | ⟨task, body, htransport⟩
      · exact htransport ▸ hdelivered
      · exact htransport ▸ hdelivered.concat fun key hkey ↦ absurd hkey (mem_of_none rfl)
    · exact hupcoming ▸ hannounced.mono (known hended)
    · exact hupcoming ▸ after_mono (known hended) (hforwarded hsession key hkey)
  | lose arriving transport handed ended =>
    have hopened : dispatcher.opened = s.dispatcher.opened :=
      congrArg (List.filterMap Delivery.opened) transport
    refine ⟨hkeyed, hread, hreadStore, hsound, hanswered, ?_, transport ▸ hdelivered,
      fun hended ↦ absurd hended ended, fun hended ↦ absurd hended ended⟩
    rw [upcoming_dispatcher, hopened, handed]
    exact hcarried.lose (arriving.append_right _)
  | skip body arriving response acks transport handed known =>
    have hopened : dispatcher.opened = s.dispatcher.opened :=
      congrArg (List.filterMap Delivery.opened) transport
    have hupcoming : s.upcoming = body :: ({ s with dispatcher } : System ε).upcoming :=
      congrArg (· ++ System.behind s.session s.connection) arriving
    have hknown : s.dispatcher.known ∪ {key | key ∈ acknowledges body} ⊆ dispatcher.known :=
      Set.union_subset known fun key hkey ↦ absurd hkey (mem_of_none acks)
    rw [hupcoming] at hcarried hannounced hforwarded
    refine ⟨hkeyed, hread, hreadStore, hsound, hanswered, ?_, transport ▸ hdelivered,
      fun _ ↦ hannounced.tail hknown, fun _ hsession key hkey ↦
        after_tail hknown (hforwarded hsession key hkey)⟩
    rw [hopened, handed]
    exact hcarried.lose (List.sublist_cons_self ..)
  | event body arriving event idle transport handed known =>
    have hupcoming : s.upcoming = body :: ({ s with dispatcher } : System ε).upcoming :=
      congrArg (· ++ System.behind s.session s.connection) arriving
    have hknown : s.dispatcher.known ∪ {key | key ∈ acknowledges body} ⊆ dispatcher.known :=
      Set.union_subset known fun key hkey ↦
        absurd hkey (mem_of_none (acknowledges_of_event event))
    -- the loop waits for nothing, so what it knows has been delivered
    have hidle : s.dispatcher.known = SharedLine.after Delivery.acknowledges ∅
        s.dispatcher.transport := by
      rw [Dispatcher.known, Dispatcher.awaited, idle]
      simp
    rw [hupcoming] at hcarried hannounced hforwarded
    refine ⟨hkeyed, hread, hreadStore, hsound, hanswered, ?_, ?_, fun _ ↦ hannounced.tail hknown,
      fun _ hsession key hkey ↦ after_tail hknown (hforwarded hsession key hkey)⟩
    · have hopened : dispatcher.opened = s.dispatcher.opened ++ [body] := by
        rw [Dispatcher.opened, Dispatcher.opened, transport, List.filterMap_append]
        rfl
      rw [hopened, handed]
      exact hcarried.take_event event
    · exact transport ▸ hdelivered.concat fun key hkey ↦ hidle ▸ hannounced.1 key hkey
  | hand task body envelope arriving response decode pending released transport handed known =>
    have hopened : dispatcher.opened = s.dispatcher.opened :=
      congrArg (List.filterMap Delivery.opened) transport
    have hupcoming : s.upcoming = body :: ({ s with dispatcher } : System ε).upcoming :=
      congrArg (· ++ System.behind s.session s.connection) arriving
    rw [hupcoming] at hcarried hannounced hforwarded
    refine ⟨hkeyed, hread, hreadStore, hsound, hanswered, ?_, transport ▸ hdelivered,
      fun _ ↦ hannounced.tail known, fun _ hsession key hkey ↦
        after_tail known (hforwarded hsession key hkey)⟩
    rw [hopened, handed, List.map_append]
    exact hcarried.take_response response

/-! ## Steps of the session -/

theorem arriving_append {dispatcher : Dispatcher ε} {written : List (List UInt8)}
    (hread : dispatcher.count ≤ written.length) (body : List UInt8) :
    dispatcher.arriving (written ++ [body]) = dispatcher.arriving written ++ [body] := by
  rw [Dispatcher.arriving, Dispatcher.arriving, List.drop_append_of_le_length hread,
    List.append_assoc]

theorem behind_of_running {session : SessionProcess ε} (h : session.ended = none)
    (connection : Connection ε) : System.behind session connection =
      session.incoming connection.output ++ connection.traffic.events := by
  rw [System.behind, h]
  rfl

theorem behind_of_ended {session : SessionProcess ε} (h : session.ended ≠ none)
    (connection : Connection ε) : System.behind session connection = [] :=
  if_pos (Option.isSome_iff_ne_none.mpr h)

theorem session (h : Routed s) {session : SessionProcess ε} (hrunning : s.session.ended = none)
    (hreadStore : session.storeCount ≤ s.connection.output.length)
    (hmoves : s.session.Moves s.connection.output session) : Routed { s with session } := by
  obtain ⟨hkeyed, hread, -, hsound, hanswered, hcarried, hdelivered, hannounced, hforwarded⟩ := h
  have hupcoming : s.upcoming = s.dispatcher.arriving s.session.relay.output ++
      (s.session.incoming s.connection.output ++ s.connection.traffic.events) := by
    rw [System.upcoming, behind_of_running hrunning]
  cases hmoves with
  | quiet ended output incoming answered =>
    have hsame : ({ s with session } : System ε).upcoming = s.upcoming := by
      rw [hupcoming, System.upcoming, behind_of_running ended, incoming, output]
    refine ⟨hkeyed, output ▸ hread, hreadStore, hsound, answered ▸ hanswered, ?_, hdelivered,
      fun hended ↦ hsame ▸ hannounced hended,
      fun hended _ key hkey ↦ hsame ▸ hforwarded hended hrunning key hkey⟩
    rw [hsame, System.responses, answered]
    exact hcarried
  | answer body plain ended output incoming answered =>
    have hmore : ({ s with session } : System ε).upcoming =
        s.dispatcher.arriving s.session.relay.output ++
          body :: (s.session.incoming s.connection.output ++ s.connection.traffic.events) := by
      rw [System.upcoming, behind_of_running ended, incoming, output, arriving_append hread,
        List.append_assoc, List.singleton_append]
    rw [hupcoming] at hcarried hannounced hforwarded
    refine ⟨hkeyed, ?_, hreadStore, hsound, ?_, ?_, hdelivered, fun hended ↦ ?_,
      fun hended _ key hkey ↦ ?_⟩
    · rw [output, List.length_append]
      exact Nat.le_add_right_of_le hread
    · exact answered ▸ Traffic.forall_mem_concat hanswered plain.1
    · rw [hmore, System.responses, answered, List.append_assoc]
      refine (hcarried.respond plain.1).perm ?_
      rw [System.responses, List.append_assoc]
      exact (List.perm_append_comm).append_left _
    · exact hmore ▸ (hannounced hended).insert (concerns_of_not_event plain.1)
    · exact hmore ▸ after_of_subset ((List.sublist_cons_self ..).append_left _).subset
        (hforwarded hended hrunning key hkey)
  | relay body ended output incoming answered =>
    have hsame : ({ s with session } : System ε).upcoming = s.upcoming := by
      rw [hupcoming, System.upcoming, behind_of_running ended, output, arriving_append hread,
        incoming, List.append_assoc, List.singleton_append, List.cons_append]
    refine ⟨hkeyed, ?_, hreadStore, hsound, answered ▸ hanswered, ?_, hdelivered,
      fun hended ↦ hsame ▸ hannounced hended,
      fun hended _ key hkey ↦ hsame ▸ hforwarded hended hrunning key hkey⟩
    · rw [output, List.length_append]
      exact Nat.le_add_right_of_le hread
    · rw [hsame, System.responses, answered]
      exact hcarried
  | leave ended output answered =>
    have hless : ({ s with session } : System ε).upcoming =
        s.dispatcher.arriving s.session.relay.output := by
      rw [System.upcoming, behind_of_ended ended, output, List.append_nil]
    rw [hupcoming] at hcarried hannounced
    refine ⟨hkeyed, output ▸ hread, hreadStore, hsound, answered ▸ hanswered, ?_, hdelivered,
      fun hended ↦ hless ▸ (announced_append.mp (hannounced hended)).1,
      fun _ hsession ↦ absurd hsession ended⟩
    rw [hless, System.responses, answered]
    exact hcarried.lose (List.sublist_append_left ..)

/-! ## Steps of the connection -/

theorem incoming_append {session : SessionProcess ε} {written : List (List UInt8)}
    (hreadStore : session.storeCount ≤ written.length) (body : List UInt8) :
    session.incoming (written ++ [body]) = session.incoming written ++ [body] := by
  rw [SessionProcess.incoming, SessionProcess.incoming, List.drop_append_of_le_length hreadStore,
    List.append_assoc]

/-- The connection of the store takes a step while the session goes on. -/
theorem connection_running (h : Routed s) {connection : Connection ε}
    (hrunning : s.session.ended = none)
    (hmoves : s.connection.traffic.Moves connection.traffic) : Routed { s with connection } := by
  obtain ⟨hkeyed, hread, hreadStore, hsound, hanswered, hcarried, hdelivered, hannounced,
    hforwarded⟩ := h
  replace hforwarded := fun hended ↦ hforwarded hended hrunning
  have hsound' := hsound.moves hmoves
  obtain ⟨_, _, _, houtput, -, -⟩ := hmoves.grows
  have hreadStore' : s.session.storeCount ≤ connection.output.length := by
    have hlength := congrArg List.length houtput
    rw [List.length_append] at hlength
    exact hreadStore.trans (by simp only [Connection.traffic] at hlength; omega)
  have hupcoming : s.upcoming = s.dispatcher.arriving s.session.relay.output ++
      s.session.incoming s.connection.traffic.output ++ s.connection.traffic.events := by
    rw [System.upcoming, behind_of_running hrunning, ← List.append_assoc]
    rfl
  have hupcoming' : ({ s with connection } : System ε).upcoming =
      s.dispatcher.arriving s.session.relay.output ++
        s.session.incoming connection.traffic.output ++ connection.traffic.events := by
    rw [System.upcoming, behind_of_running hrunning, ← List.append_assoc]
    rfl
  suffices hline : Carried isEvent s.dispatcher.opened (s.dispatcher.handed.map Prod.snd)
      ({ s with connection } : System ε).upcoming connection.traffic.produced
        (s.session.answered ++ connection.traffic.responses) ∧
      (s.dispatcher.ended = none → Announced concerns acknowledges s.dispatcher.known
        ({ s with connection } : System ε).upcoming ∧ ∀ key ∈ connection.traffic.keys,
          key ∈ SharedLine.after acknowledges s.dispatcher.known
            ({ s with connection } : System ε).upcoming) from
    ⟨hkeyed, hread, hreadStore', hsound', hanswered, hline.1, hdelivered, fun hended ↦
      (hline.2 hended).1, fun hended _ ↦ (hline.2 hended).2⟩
  rw [hupcoming']
  rw [hupcoming] at hcarried hannounced hforwarded
  have hresponses : s.responses = s.session.answered ++ s.connection.traffic.responses := rfl
  rw [hresponses] at hcarried
  generalize connection.traffic = t' at hmoves
  have hproduced : s.connection.produced = s.connection.traffic.produced := rfl
  have hreadTraffic : s.session.storeCount ≤ s.connection.traffic.output.length := hreadStore
  rw [hproduced] at hcarried
  generalize s.connection.traffic = t at *
  cases hmoves with
  | quiet nextSubscriptionId keys grows subset =>
    exact ⟨hcarried, fun hended ↦
      ⟨hannounced hended, fun key hkey ↦ hforwarded hended key (subset hkey)⟩⟩
  | withhold event events queued =>
    rw [queued] at hcarried hannounced hforwarded
    have hnone : acknowledges event = none :=
      acknowledges_of_event (hsound.queued event (queued ▸ List.mem_cons_self))
    refine ⟨hcarried.lose ((List.sublist_cons_self ..).append_left _), fun hended ↦
      ⟨(hannounced hended).lose hnone, fun key hkey ↦ ?_⟩⟩
    exact after_lose hnone (hforwarded hended key hkey)
  | emit event events queued =>
    have hsame : s.session.incoming (t.output ++ [event]) ++ events =
        s.session.incoming t.output ++ t.events := by
      rw [incoming_append hreadTraffic, queued, List.append_assoc, List.singleton_append]
    rw [List.append_assoc] at hcarried hannounced hforwarded ⊢
    rw [hsame]
    exact ⟨hcarried, fun hended ↦ ⟨hannounced hended, hforwarded hended⟩⟩
  | respond body plain =>
    rw [incoming_append hreadTraffic, ← List.append_assoc, List.append_assoc _ [body],
      List.singleton_append, ← List.append_assoc]
    refine ⟨hcarried.respond plain.1, fun hended ↦
      ⟨(hannounced hended).insert (concerns_of_not_event plain.1), fun key hkey ↦ ?_⟩⟩
    exact after_of_subset ((List.sublist_cons_self ..).append_left _).subset
      (hforwarded hended key hkey)
  | acknowledge body key response acks issued bounded =>
    rw [incoming_append hreadTraffic, ← List.append_assoc, List.append_assoc _ [body],
      List.singleton_append, ← List.append_assoc]
    refine ⟨hcarried.respond response, fun hended ↦
      ⟨(hannounced hended).insert (concerns_of_not_event response), fun key' hkey' ↦ ?_⟩⟩
    rcases List.mem_append.mp hkey' with hkey' | hkey'
    · exact after_of_subset ((List.sublist_cons_self ..).append_left _).subset
        (hforwarded hended key' hkey')
    · exact mem_after_of_mem (List.mem_append_right _ List.mem_cons_self)
        (List.mem_singleton.mp hkey' ▸ acks)
  | produce body key keys event named forwarded subset =>
    rw [← List.append_assoc]
    refine ⟨hcarried.produce event, fun hended ↦
      ⟨(hannounced hended).concat fun key' hkey' ↦ ?_, fun key' hkey' ↦ ?_⟩⟩
    · obtain rfl := Option.some_inj.mp (named.symm.trans hkey')
      exact hforwarded hended key forwarded
    · exact after_of_subset (List.subset_append_left ..) (hforwarded hended key' (subset hkey'))

/-- The connection of the store takes a step after the session has ended. -/
theorem connection_ended (h : Routed s) {connection : Connection ε}
    (hended : s.session.ended ≠ none)
    (hmoves : s.connection.traffic.Moves connection.traffic) : Routed { s with connection } := by
  obtain ⟨output, responses, produced, houtput, hresponses, hproduced⟩ := hmoves.grows
  have hupcoming : ({ s with connection } : System ε).upcoming = s.upcoming := by
    rw [System.upcoming, System.upcoming, behind_of_ended hended, behind_of_ended hended]
  refine ⟨h.keyed, h.read, ?_, h.sound.moves hmoves, h.answered, ?_, h.delivered,
    fun hdispatcher ↦ hupcoming ▸ h.announced hdispatcher, fun _ hsession ↦ absurd hsession hended⟩
  · have hlength := congrArg List.length houtput
    rw [List.length_append] at hlength
    exact h.readStore.trans (Nat.le.intro hlength.symm)
  · have hmore := h.carried.mono produced responses
    rw [System.responses, List.append_assoc] at hmore
    have hproduced' : connection.produced = s.connection.produced ++ produced := hproduced
    have hresponses' : connection.responses = s.connection.responses ++ responses := hresponses
    show Carried isEvent s.dispatcher.opened (s.dispatcher.handed.map Prod.snd)
      ({ s with connection } : System ε).upcoming connection.produced
      (s.session.answered ++ connection.responses)
    rw [hupcoming, hproduced', hresponses']
    exact hmore

theorem connection (h : Routed s) {connection : Connection ε}
    (hmoves : s.connection.traffic.Moves connection.traffic) : Routed { s with connection } := by
  by_cases hended : s.session.ended = none
  · exact h.connection_running hended hmoves
  · exact h.connection_ended hended hmoves

/-! ## Runs -/

/-- **Every step keeps responses and events routed.** -/
theorem step {setting : Setting} {action : Action ε} {s' : System ε} (h : Routed s)
    (hstep : s.step setting action = some s') : Routed s' := by
  cases action with
  | dispatcher action =>
    obtain ⟨dispatcher, hdispatcher, rfl⟩ := Option.map_eq_some_iff.mp hstep
    obtain ⟨hmoves, hread⟩ := Dispatcher.step_moves h.keyed h.read hdispatcher
    exact h.dispatcher (Dispatcher.running_of_step hdispatcher)
      (h.keyed.step hdispatcher) hread hmoves
  | session action =>
    obtain ⟨session, hsession, rfl⟩ := Option.map_eq_some_iff.mp hstep
    obtain ⟨hmoves, hreadStore⟩ := SessionProcess.step_moves h.readStore hsession
    exact h.session (SessionProcess.running_of_step hsession) hreadStore hmoves
  | connection action =>
    obtain ⟨connection, hconnection, rfl⟩ := Option.map_eq_some_iff.mp hstep
    exact h.connection (Connection.step_moves hconnection)

end Routed

/-- A step hands a response of the session to nobody, or to the request that is pending under its
correlation identifier, and which is not pending any more. -/
theorem System.step_handed {setting : Setting} {action : Action ε} {s s' : System ε} (h : Routed s)
    (hstep : s.step setting action = some s') :
    s'.dispatcher.handed = s.dispatcher.handed ∨ ∃ task body response,
      s'.dispatcher.handed = s.dispatcher.handed ++ [(task, body)] ∧
      decodeBody body = .ok response ∧ (response.correlationId, task) ∈ s.dispatcher.pending ∧
      response.correlationId ∉ s'.dispatcher.pending.map Prod.fst := by
  cases action with
  | dispatcher action =>
    obtain ⟨dispatcher, hdispatcher, rfl⟩ := Option.map_eq_some_iff.mp hstep
    cases (Dispatcher.step_moves h.keyed h.read hdispatcher).1 with
    | quiet _ _ handed _ | lose _ _ handed _ | skip _ _ _ _ _ handed _ | event _ _ _ _ _ handed _ =>
      exact .inl handed
    | hand task body response arriving plain decode pending released transport handed known =>
      refine .inr ⟨task, body, response, handed, decode, pending, ?_⟩
      dsimp only
      rw [released]
      simp
  | session action =>
    obtain ⟨session, -, rfl⟩ := Option.map_eq_some_iff.mp hstep
    exact .inl rfl
  | connection action =>
    obtain ⟨connection, -, rfl⟩ := Option.map_eq_some_iff.mp hstep
    exact .inl rfl

theorem Routed.run {setting : Setting} {actions : List (Action ε)} {s : System ε}
    (hrun : Transition.run (System.step setting) .start actions = some s) : Routed s :=
  Transition.invariant (fun _ _ _ h hstep ↦ h.step hstep) .start hrun

/-- **Responses and events are routed.**  After any steps of the client, the three processes and
their tasks, whatever the client requests and whichever reads and writes fail: no two pending
requests share an identifier; the next step hands a response only to the request that is pending
under its correlation identifier, which is that of the request it has submitted; no task is handed
two responses, and no response is handed more often than it was sent; a response is no event and
what is produced is one, so that neither is taken for the other; events are opened in the order in
which they were produced, each after the acknowledgement of its subscription has been completely
delivered to the request it was handed to. -/
theorem responses_and_events_routed {setting : Setting} {actions : List (Action ε)} {s : System ε}
    (hrun : Transition.run (System.step setting) .start actions = some s) :
    (s.dispatcher.pending.map Prod.fst).Nodup ∧
    (∀ action s', s.step setting action = some s' → s'.dispatcher.handed = s.dispatcher.handed ∨
      ∃ task body response, s'.dispatcher.handed = s.dispatcher.handed ++ [(task, body)] ∧
        decodeBody body = .ok response ∧ (response.correlationId, task) ∈ s.dispatcher.pending ∧
        response.correlationId ∉ s'.dispatcher.pending.map Prod.fst) ∧
    (∀ entry ∈ s.dispatcher.pending, s.dispatcher.Submitted entry.2 entry.1) ∧
    (s.dispatcher.submitted.map Prod.fst).Nodup ∧
    (s.dispatcher.handed.map Prod.fst).Nodup ∧
    (s.dispatcher.handed.map Prod.snd).Subperm s.responses ∧
    (∀ body ∈ s.responses, isEvent body = false ∧ body ∉ s.dispatcher.opened) ∧
    (∀ body ∈ s.connection.produced, isEvent body = true ∧
      body ∉ s.dispatcher.handed.map Prod.snd) ∧
    s.dispatcher.opened.Sublist s.connection.produced ∧
    s.connection.traffic.acknowledged.Nodup ∧
    ∀ before body after, s.dispatcher.transport = before ++ .event body :: after →
      ∃ key task ack, concerns body = some key ∧ acknowledges ack = some key ∧
        .response task ack ∈ before ∧ (task, ack) ∈ s.dispatcher.handed := by
  have h := Routed.run hrun
  have hopened : s.dispatcher.opened.Sublist s.connection.produced :=
    (List.sublist_append_left ..).trans h.carried.events
  have hhanded : (s.dispatcher.handed.map Prod.snd).Subperm s.responses :=
    (List.sublist_append_left ..).subperm.trans h.carried.responses
  have hresponse : ∀ body ∈ s.responses, isEvent body = false := fun body hbody ↦
    (List.mem_append.mp hbody).elim (h.answered body) (h.sound.responses body)
  have hevent : ∀ body ∈ s.connection.produced, isEvent body = true :=
    fun body hbody ↦ (h.sound.produced body hbody).1
  refine ⟨h.keyed.keys, fun _ _ ↦ System.step_handed h, h.keyed.pending, h.keyed.submitted, ?_,
    hhanded, fun body hbody ↦ ⟨hresponse body hbody, fun hmem ↦ ?_⟩,
    fun body hbody ↦ ⟨hevent body hbody, fun hmem ↦ ?_⟩, hopened, h.sound.distinct,
    fun before body after htransport ↦ ?_⟩
  · obtain ⟨l, hperm, hsub⟩ := (List.sublist_append_left ..).subperm.trans h.keyed.taken
    exact hperm.nodup_iff.mp (h.keyed.submitted.sublist hsub)
  · exact absurd ((hresponse body hbody).symm.trans (hevent body (hopened.subset hmem))) (by simp)
  · exact absurd ((hresponse body (hhanded.subset hmem)).symm.trans (hevent body hbody)) (by simp)
  · have hmem : body ∈ s.dispatcher.opened :=
      List.mem_filterMap.mpr
        ⟨.event body, htransport ▸ List.mem_append_right _ List.mem_cons_self, rfl⟩
    obtain ⟨-, key, hkey⟩ := h.sound.produced body (hopened.subset hmem)
    have hdelivered := h.delivered
    rw [htransport] at hdelivered
    rcases hdelivered.mem_after hkey with hnone | ⟨delivery, hbefore, hack⟩
    · exact absurd hnone (Set.notMem_empty key)
    · cases delivery with
      | event => exact absurd hack (by simp [Delivery.acknowledges])
      | response task ack =>
        have hack' : acknowledges ack = some key := hack
        refine ⟨key, task, ack, hkey, hack', hbefore, ?_⟩
        exact (h.keyed.delivered task ack
          (htransport ▸ List.mem_append_left _ hbefore)).resolve_right
          fun hnone ↦ absurd (hnone.symm.trans hack') (by simp)

/-! ### A subscription -/

/-- The store in which the child has been granted everything. -/
def sampleStore : DurableUpdateStore := DurableUpdateStore.initial.run Sample.sha256 Sample.opening

def sampleSetting : Setting := ⟨Sample.sha256, none, Sample.channel⟩

def sampleSurroundings : Surroundings := ⟨⟨0, 0, fun _ ↦ none⟩, ⟨0, 0, fun _ ↦ none⟩, fun _ ↦ none⟩

/-- The hello, and a subscription. -/
def sampleHello : List UInt8 := bodyBytes ⟨.replicate 16 17, clientHello, greetingPayload, version⟩

def sampleSubscribe : List UInt8 := bodyBytes ⟨.replicate 16 18, subscribeUpdates,
  encodeSubscribeUpdatesRequest ⟨⟨Sample.child, Sample.secret 3⟩, Sample.document⟩, version⟩

/-- The session is negotiated, the subscription is acknowledged, and an update is notified before
the acknowledgement has been delivered. -/
def sampleActions : List (Action Unit) :=
  [.dispatcher (.accept true), .dispatcher (.submit 0 (.ok (some sampleHello))),
    .dispatcher (.receiveRequest none), .session (.readGateway none), .session (.receive none),
    .dispatcher (.readOutput none), .dispatcher (.receiveOutput none),
    .dispatcher (.deliver 0 none), .dispatcher (.accept true),
    .dispatcher (.submit 1 (.ok (some sampleSubscribe))), .dispatcher (.receiveRequest none),
    .session (.readGateway none), .session (.receive none), .connection (.read none),
    .connection (.receiveRequest sampleStore sampleSurroundings none),
    .connection (.forward 0 (.notification Sample.update.updateId) false),
    .connection (.receiveEvent true false none), .session (.readStore none),
    .session (.receive none), .session (.readStore none), .session (.receive none),
    .dispatcher (.readOutput none), .dispatcher (.readOutput none),
    .dispatcher (.receiveOutput none), .dispatcher (.deliver 1 none),
    .dispatcher (.resume none), .dispatcher (.receiveOutput none), .dispatcher (.resume none)]

def sampleSystem : Option (System Unit) :=
  Transition.run (System.step sampleSetting) .start sampleActions

theorem responses_and_events_routed_sample : ∃ s, sampleSystem = some s ∧
    s.dispatcher.opened.length = 1 ∧ s.dispatcher.opened.Sublist s.connection.produced := by
  have hrun : sampleSystem.any (fun s ↦ s.dispatcher.opened.length = 1) = true := by decide +kernel
  cases hs : sampleSystem with
  | none => exact absurd hrun (by simp [hs])
  | some s =>
    rw [hs, Option.any_some, decide_eq_true_eq] at hrun
    exact ⟨s, rfl, hrun, (responses_and_events_routed hs).2.2.2.2.2.2.2.2.1⟩

end Renee.Gateway
