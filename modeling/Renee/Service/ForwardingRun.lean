import Renee.Service.Forwarding

/-!
# What a connection keeps up

`Link.Sound` holds after every run of the loop and its forwarders, whatever they meet
(`Sound.step`):

* everything that a forwarder has put into the queue has been settled in that order, is in the hands
  of the loop or still waits, where `Forwarder.made` is what it has put there;
* an acknowledgement comes before any event, and a terminal event is the last;
* what is told of the end has been observed, or the queue was full;
* a forwarder that is not active any more has returned, or the loop is waiting for it.
-/

set_option autoImplicit false

namespace Renee.Emission

open ByteString Service
open UpdateSubscriptionRegistry (UpdateSubscriptionPoll)

variable {log : List (Frame × Bool)} {frame : Frame} {written : Bool} {k : ℕ}
  {events : List (ℕ × Message)} {phase : LinkPhase} {f f' : Forwarder} {L L' : Link}

/-! ## What a step does -/

/-- What a forwarder does next, and what it puts into the queue. -/
inductive Forwarder.Moves (k : ℕ) (f : Forwarder) : LinkAction → List Message → Forwarder → Prop
  | sent (poll : UpdateSubscriptionPoll) (message : Message) (polling : f.stage = .polling)
      (eq : message? poll = some message) (more : message.terminal = false) :
      Moves k f (.handle k poll false) [message] { f with seen := f.seen ++ [poll] }
  | finished (poll : UpdateSubscriptionPoll) (message : Message) (polling : f.stage = .polling)
      (eq : message? poll = some message) (last : message.terminal = true) :
      Moves k f (.handle k poll false) [message]
        { f with stage := .returning, seen := f.seen ++ [poll], sent := some message }
  /-- It has observed an end that gives no event. -/
  | silent (ended : UpdateSubscriptionEnd) (full : Bool) (polling : f.stage = .polling)
      (eq : terminalMessage ended = none) :
      Moves k f (.handle k (.invalidated ended) full) []
        { f with stage := .returning, seen := f.seen ++ [.invalidated ended] }
  /-- The queue is full. -/
  | refused (poll : UpdateSubscriptionPoll) (message : Message) (polling : f.stage = .polling)
      (eq : message? poll = some message) :
      Moves k f (.handle k poll true) [] { f with stage := .overflowing, refused := true }
  | observeCancel (polling : f.stage = .polling) (cancelled : f.cancelled = true) :
      Moves k f (.observeCancel k) [] { f with stage := .cancelling }
  | sendOverflow (overflowing : f.stage = .overflowing) :
      Moves k f (.sendOverflow k) [.overflow] { f with stage := .returning, sent := some .overflow }
  | abandonOverflow (overflowing : f.stage = .overflowing) (cancelled : f.cancelled = true) :
      Moves k f (.abandonOverflow k) [] { f with stage := .returning }
  | drop (cancelling : f.stage = .cancelling) :
      Moves k f (.drop k) [] { f with stage := .returning }
  | finish (returning : f.stage = .returning) :
      Moves k f (.finish k) [] { f with stage := .returned }

namespace Link

/-- What a step does. -/
inductive Stepped (L : Link) : LinkAction → Link → Prop
  | receive (serving : L.phase = .serving) : Stepped L .receive { L with phase := .handling }
  | respond (asked : L.phase = .handling ∨ ∃ answers, L.phase = .subscribing answers) :
      Stepped L .respond (L.settle .response true)
  | subscribe (answers : ℕ) (serving : L.phase = .serving) :
      Stepped L (.subscribe answers) { L with phase := .subscribing answers }
  | acknowledge (answers receiver : ℕ) (subscribing : L.phase = .subscribing answers) :
      Stepped L (.acknowledge receiver) ({ L with
        forwarders := L.forwarders ++ [Forwarder.start receiver]
        active := L.active ++ [L.forwarders.length] }.settle
          (.acknowledgement L.forwarders.length) true)
  | cancel (k : ℕ) (serving : L.phase = .serving) : Stepped L (.cancel k) (L.cancel k)
  | finishCancel (k : ℕ) (f : Forwarder) (cancelling : L.phase = .cancelling k)
      (was : L.forwarders[k]? = some f) (returned : f.stage = .returned) :
      Stepped L .finishCancel (L.settle (.cancelled k) true)
  | join (k : ℕ) (f : Forwarder) (serving : L.phase = .serving) (was : L.forwarders[k]? = some f)
      (returned : f.stage = .returned) :
      Stepped L (.join k) (L.setForwarder k { f with joined := true }).retain
  | take (k : ℕ) (u : UpdateId) (events : List (ℕ × Message)) (serving : L.phase = .serving)
      (waits : L.events = (k, .notification u) :: events) :
      Stepped L .dequeue { L with phase := .entering k u, events }
  | tell (k : ℕ) (message : Message) (events : List (ℕ × Message)) (serving : L.phase = .serving)
      (waits : L.events = (k, message) :: events) (last : message.terminal = true) :
      Stepped L .dequeue ({ L with events }.settle (.event k message) true)
  | enter (k : ℕ) (u : UpdateId) (entering : L.phase = .entering k u) :
      Stepped L .enter { L with phase := .checking k u }
  | authorized (k : ℕ) (u : UpdateId) (checking : L.phase = .checking k u) :
      Stepped L (.checked true) { L with phase := .writing k u }
  | refused (k : ℕ) (u : UpdateId) (checking : L.phase = .checking k u) :
      Stepped L (.checked false) (L.settle (.event k (.notification u)) false)
  | written (k : ℕ) (u : UpdateId) (writing : L.phase = .writing k u) :
      Stepped L .written (L.settle (.event k (.notification u)) true)
  | leave (opened : L.phase ≠ .ended) : Stepped L .leave { L with phase := .ended }
  /-- A forwarder goes on. -/
  | forward {action : LinkAction} (k : ℕ) (f f' : Forwarder) (new : List Message)
      (opened : L.phase ≠ .ended) (was : L.forwarders[k]? = some f)
      (moves : f.Moves k action new f') :
      Stepped L action ({ L with events := L.events ++ new.map (Prod.mk k) }.setForwarder k f')

theorem task_eq_some_iff {stage : Stage} {next : Forwarder → Option Link} :
    L.task k stage next = some L' ↔ L.phase ≠ .ended ∧
      ∃ f, L.forwarders[k]? = some f ∧ f.stage = stage ∧ next f = some L' := by
  rw [task]
  split
  · exact ⟨fun h ↦ absurd h (by simp), fun h ↦ absurd ‹_› h.1⟩
  · rw [Option.bind_eq_some_iff]
    constructor
    · rintro ⟨f, hf, hnext⟩
      obtain ⟨hk, hstage⟩ := Option.filter_eq_some_iff.mp hf
      exact ⟨‹_›, f, hk, of_decide_eq_true hstage, hnext⟩
    · rintro ⟨-, f, hk, hstage, hnext⟩
      exact ⟨f, Option.filter_eq_some_iff.mpr ⟨hk, decide_eq_true hstage⟩, hnext⟩

/-- A forwarder goes on without a message. -/
theorem stepped_forward {action : LinkAction} (hopen : L.phase ≠ .ended)
    (hk : L.forwarders[k]? = some f) (hmoves : f.Moves k action [] f') :
    Stepped L action (L.setForwarder k f') := by
  have hstepped := Stepped.forward k f f' [] hopen hk hmoves
  rwa [List.map_nil, List.append_nil] at hstepped

theorem stepped_handle {poll : UpdateSubscriptionPoll} {full : Bool} (hopen : L.phase ≠ .ended)
    (hk : L.forwarders[k]? = some f) (hpolling : f.stage = .polling)
    (hstep : L.handle k f poll full = some L') : Stepped L (.handle k poll full) L' := by
  have hsend {message : Message} (hmessage : message? poll = some message)
      (hsent : L.trySend k f poll message full = some L') : Stepped L (.handle k poll full) L' := by
    clear hstep
    rw [trySend] at hsent
    cases full with
    | true =>
      rw [if_pos rfl] at hsent
      split at hsent
      · exact absurd hsent (by simp)
      · exact Option.some_inj.mp hsent ▸
          stepped_forward hopen hk (.refused poll message hpolling hmessage)
    | false =>
      rw [if_neg (by simp)] at hsent
      split at hsent
      · exact absurd hsent (by simp)
      dsimp only at hsent
      split at hsent
      · rename_i hlast
        exact Option.some_inj.mp hsent ▸ .forward k f _ [message] hopen hk
          (.finished poll message hpolling hmessage hlast)
      · rename_i hmore
        exact Option.some_inj.mp hsent ▸ .forward k f _ [message] hopen hk
          (.sent poll message hpolling hmessage (Bool.eq_false_of_not_eq_true hmore))
  cases poll with
  | pending => exact absurd hstep (by simp [Link.handle])
  | notification u => exact hsend rfl hstep
  | invalidated ended =>
    cases hmessage : terminalMessage ended with
    | some message =>
      simp only [Link.handle, message?, hmessage] at hstep
      exact hsend hmessage hstep
    | none =>
      simp only [Link.handle, message?, hmessage] at hstep
      exact Option.some_inj.mp hstep ▸
        stepped_forward hopen hk (.silent ended full hpolling hmessage)

theorem stepped_dequeue (hserving : L.phase = .serving) (hstep : L.dequeue = some L') :
    Stepped L .dequeue L' := by
  rw [dequeue] at hstep
  split at hstep
  · exact absurd hstep (by simp)
  · exact Option.some_inj.mp hstep ▸ .take _ _ _ hserving ‹_›
  · rename_i k message events hnot hwaits
    refine Option.some_inj.mp hstep ▸ .tell k message events hserving hwaits ?_
    cases message with
    | notification u => exact absurd rfl (hnot u)
    | overflow | invalidated => rfl

/-- **What a step can do.** -/
theorem stepped {action : LinkAction} (hstep : L.step action = some L') : Stepped L action L' := by
  cases action with
  | receive =>
    rw [step] at hstep
    split at hstep
    · exact Option.some_inj.mp hstep ▸ .receive ‹_›
    · exact absurd hstep (by simp)
  | respond =>
    rw [step] at hstep
    split at hstep
    · exact Option.some_inj.mp hstep ▸ .respond (.inl ‹_›)
    · exact Option.some_inj.mp hstep ▸ .respond (.inr ⟨_, ‹_›⟩)
    · exact absurd hstep (by simp)
  | subscribe answers =>
    rw [step] at hstep
    split at hstep
    · rename_i hguard
      exact Option.some_inj.mp hstep ▸ .subscribe answers hguard.1
    · exact absurd hstep (by simp)
  | acknowledge receiver =>
    rw [step] at hstep
    split at hstep
    · exact Option.some_inj.mp hstep ▸ .acknowledge _ receiver ‹_›
    · exact absurd hstep (by simp)
  | cancel k =>
    rw [step] at hstep
    split at hstep
    · exact Option.some_inj.mp hstep ▸ .cancel k ‹_›
    · exact absurd hstep (by simp)
  | finishCancel =>
    rw [step] at hstep
    split at hstep
    · obtain ⟨-, f, hk, hstage, hnext⟩ := task_eq_some_iff.mp hstep
      exact Option.some_inj.mp hnext ▸ .finishCancel _ f ‹_› hk hstage
    · exact absurd hstep (by simp)
  | join k =>
    rw [step] at hstep
    split at hstep
    · obtain ⟨-, f, hk, hstage, hnext⟩ := task_eq_some_iff.mp hstep
      exact Option.some_inj.mp hnext ▸ .join k f ‹_› hk hstage
    · exact absurd hstep (by simp)
  | dequeue =>
    rw [step] at hstep
    split at hstep
    · exact stepped_dequeue ‹_› hstep
    · exact absurd hstep (by simp)
  | enter =>
    rw [step] at hstep
    split at hstep
    · exact Option.some_inj.mp hstep ▸ .enter _ _ ‹_›
    · exact absurd hstep (by simp)
  | checked authorized =>
    rw [step] at hstep
    split at hstep
    · cases authorized with
      | true => exact Option.some_inj.mp hstep ▸ .authorized _ _ ‹_›
      | false => exact Option.some_inj.mp hstep ▸ .refused _ _ ‹_›
    · exact absurd hstep (by simp)
  | written =>
    rw [step] at hstep
    split at hstep
    · exact Option.some_inj.mp hstep ▸ .written _ _ ‹_›
    · exact absurd hstep (by simp)
  | leave =>
    rw [step] at hstep
    split at hstep
    · exact absurd hstep (by simp)
    · exact Option.some_inj.mp hstep ▸ .leave ‹_›
  | handle k poll full =>
    obtain ⟨hopen, f, hk, hstage, hnext⟩ := task_eq_some_iff.mp hstep
    exact stepped_handle hopen hk hstage hnext
  | observeCancel k =>
    obtain ⟨hopen, f, hk, hstage, hnext⟩ := task_eq_some_iff.mp hstep
    split at hnext
    · exact Option.some_inj.mp hnext ▸ stepped_forward hopen hk (.observeCancel hstage ‹_›)
    · exact absurd hnext (by simp)
  | sendOverflow k =>
    obtain ⟨hopen, f, hk, hstage, hnext⟩ := task_eq_some_iff.mp hstep
    split at hnext
    · exact Option.some_inj.mp hnext ▸ .forward k f _ [.overflow] hopen hk (.sendOverflow hstage)
    · exact absurd hnext (by simp)
  | abandonOverflow k =>
    obtain ⟨hopen, f, hk, hstage, hnext⟩ := task_eq_some_iff.mp hstep
    split at hnext
    · exact Option.some_inj.mp hnext ▸ stepped_forward hopen hk (.abandonOverflow hstage ‹_›)
    · exact absurd hnext (by simp)
  | drop k =>
    obtain ⟨hopen, f, hk, hstage, hnext⟩ := task_eq_some_iff.mp hstep
    exact Option.some_inj.mp hnext ▸ stepped_forward hopen hk (.drop hstage)
  | finish k =>
    obtain ⟨hopen, f, hk, hstage, hnext⟩ := task_eq_some_iff.mp hstep
    exact Option.some_inj.mp hnext ▸ stepped_forward hopen hk (.finish hstage)

end Link

/-! ## What is kept up -/

/-- What has been settled of the messages of a subscription, oldest first. -/
def settled (log : List (Frame × Bool)) (k : ℕ) : List Message :=
  log.filterMap fun entry ↦ entry.1.message? k

/-- What the loop has in hand of them. -/
def held (phase : LinkPhase) (k : ℕ) : List Message :=
  (phase.held?.filter (·.1 = k)).toList.map fun hand ↦ .notification hand.2

/-- What waits in the queue of them. -/
def queued (events : List (ℕ × Message)) (k : ℕ) : List Message :=
  (events.filter (·.1 = k)).map Prod.snd

/-- A cancellation has been responded to after the acknowledgement. -/
def Dismissed (log : List (Frame × Bool)) (k : ℕ) : Prop :=
  ∃ before after, log = before ++ (.cancelled k, true) :: after ∧
    (.acknowledgement k, true) ∈ before

theorem settled_concat : settled (log ++ [(frame, written)]) k =
    settled log k ++ (frame.message? k).toList := by
  rw [settled, List.filterMap_append]
  cases h : frame.message? k <;> simp [settled, h]

theorem held_of_none (h : phase.held? = none) : held phase k = [] := by
  rw [held, h]
  rfl

theorem held_of_some {u : UpdateId} (h : phase.held? = some (k, u)) (k' : ℕ) :
    held phase k' = if k = k' then [.notification u] else [] := by
  rw [held, h, Option.filter]
  by_cases heq : k = k' <;> simp [heq]

theorem dismissed_concat : Dismissed (log ++ [(frame, written)]) k ↔
    Dismissed log k ∨ (frame, written) = (.cancelled k, true) ∧
    (.acknowledgement k, true) ∈ log := by
  constructor
  · rintro ⟨before, after, heq, hack⟩
    rcases List.eq_nil_or_concat after with rfl | ⟨after, last, rfl⟩
    · obtain ⟨rfl, hlast⟩ := List.append_inj' heq rfl
      exact .inr ⟨List.singleton_inj.mp hlast, hack⟩
    · rw [List.concat_eq_append, ← List.cons_append, ← List.append_assoc] at heq
      exact .inl ⟨before, after, (List.append_inj' heq rfl).1, hack⟩
  · rintro (⟨before, after, rfl, hack⟩ | ⟨heq, hack⟩)
    · exact ⟨before, after ++ [(frame, written)], by simp, hack⟩
    · exact ⟨log, [], by rw [heq], hack⟩

namespace Forwarder

/-- What holds of a forwarder at its stage. -/
structure Sound (f : Forwarder) : Prop where
  polling : f.stage = .polling → ∀ poll ∈ f.seen, ∃ u, poll = .notification u
  cancelling : f.stage = .cancelling → f.cancelled = true
  overflowing : f.stage = .overflowing → f.refused = true
  /-- A terminal event is the last that it does. -/
  sent : ∀ message, f.sent = some message → f.closed = true ∧ message.terminal = true
  /-- It returns when it has sent a terminal event, has been cancelled, or has observed an end that
  gives no event. -/
  closed : f.closed = true → f.sent ≠ none ∨ f.cancelled = true ∨
    ∃ ended, .invalidated ended ∈ f.seen ∧ terminalMessage ended = none
  /-- The terminal event is about the end that it has observed, or about the full queue. -/
  reason : ∀ message, f.sent = some message →
    (∃ ended, .invalidated ended ∈ f.seen ∧ terminalMessage ended = some message) ∨
      message = .overflow ∧ f.refused = true
  /-- Once the queue has been full for it, it observes nothing more. -/
  refused : f.refused = true → f.stage ≠ .polling ∧ ∀ poll ∈ f.seen, ∃ u, poll = .notification u

theorem sound_start (receiver : ℕ) : (start receiver).Sound where
  polling _ _ h := absurd h (by simp [start])
  cancelling h := absurd h (by simp [start])
  overflowing h := absurd h (by simp [start])
  sent _ h := absurd h (by simp [start])
  closed h := absurd h (by simp [start, Forwarder.closed])
  reason _ h := absurd h (by simp [start])
  refused h := absurd h (by simp [start])

end Forwarder

namespace Link

/-- What holds after every run, but for what the loop has in hand. -/
structure Kept (L : Link) : Prop where
  forwarder : ∀ f ∈ L.forwarders, f.Sound
  active : ∀ k ∈ L.active, k < L.forwarders.length
  events : ∀ event ∈ L.events, event.1 < L.forwarders.length
  /-- What has been settled is the beginning of what has been put into the queue. -/
  settled : ∀ k f, L.forwarders[k]? = some f → settled L.log k <+: f.made
  unknown : ∀ k, L.forwarders.length ≤ k → ∀ entry ∈ L.log, entry.1.about k = false
  /-- The acknowledgement comes first. -/
  frames : ∀ k < L.forwarders.length, ∃ rest,
    L.log.filter (·.1.about k) = (.acknowledgement k, true) :: rest ∧
      ∀ entry ∈ rest, ∃ message, entry.1 = .event k message
  left_out : ∀ frame, (frame, false) ∈ L.log → ∃ k u, frame = .event k (.notification u)
  dismissed : ∀ k f, L.forwarders[k]? = some f → Dismissed L.log k → f.closed = true

/-- What holds after every run. -/
structure Sound (L : Link) : Prop extends L.Kept where
  held : ∀ k u, L.phase.held? = some (k, u) → k < L.forwarders.length
  /-- What has been put into the queue has been settled, is in hand or is still there, in this
  order. -/
  stream : L.phase ≠ .ended → ∀ k f, L.forwarders[k]? = some f →
    Emission.settled L.log k ++ Emission.held L.phase k ++ queued L.events k = f.made
  /-- What is not active any more is done with, or about to be. -/
  waited : L.phase ≠ .ended → ∀ k f, L.forwarders[k]? = some f →
    k ∈ L.active ∨ L.phase = .cancelling k ∨ f.closed = true
  /-- A cancellation is responded to. -/
  told : L.phase ≠ .ended → ∀ k f, L.forwarders[k]? = some f → f.cancelled = true →
    L.phase = .cancelling k ∨ Dismissed L.log k

theorem sound_start : start.Sound where
  forwarder _ h := absurd h (by simp [start])
  active _ h := absurd h (by simp [start])
  events _ h := absurd h (by simp [start])
  settled _ _ h := absurd h (by simp [start])
  unknown _ _ _ h := absurd h (by simp [start])
  frames _ h := absurd h (by simp [start])
  left_out _ h := absurd h (by simp [start])
  dismissed _ _ h := absurd h (by simp [start])
  held _ _ h := absurd h (by simp [start, LinkPhase.held?])
  stream _ _ _ h := absurd h (by simp [start])
  waited _ _ _ h := absurd h (by simp [start])
  told _ _ _ h := absurd h (by simp [start])

theorem mem_active_retain : k ∈ L.retain.active ↔
    k ∈ L.active ∧ ∃ f, L.forwarders[k]? = some f ∧ f.closed = false := by
  rw [retain, List.mem_filter, Option.any_eq_true]
  simp

/-- A subscription has been acknowledged. -/
theorem Kept.acknowledged (h : L.Kept) (hlt : k < L.forwarders.length) :
    (.acknowledgement k, true) ∈ L.log := by
  obtain ⟨rest, hrest, -⟩ := h.frames k hlt
  exact List.mem_of_mem_filter (hrest ▸ List.mem_cons_self ..)

/-- What has been written about a subscription is about one that there is. -/
theorem Kept.lt_of_about (h : L.Kept) (hmem : frame ∈ L.output) (habout : frame.about k = true) :
    k < L.forwarders.length := by
  by_contra hle
  obtain ⟨entry, hentry, rfl⟩ := List.mem_map.mp hmem
  have hnot := h.unknown k (Nat.not_lt.mp hle) entry (List.mem_of_mem_filter hentry)
  exact absurd (habout.symm.trans hnot) (by simp)

/-- **The loop is done with a frame** that is no acknowledgement. -/
theorem Kept.settle (h : L.Kept) (hstream : ∀ k f, L.forwarders[k]? = some f →
      Emission.settled L.log k ++ (frame.message? k).toList ++ queued L.events k = f.made)
    (hnew : ∀ k, frame ≠ .acknowledgement k)
    (hknown : ∀ k message, frame = .event k message → k < L.forwarders.length)
    (hwritten : written = false → ∃ k u, frame = .event k (.notification u))
    (hclosed : ∀ k f, frame = .cancelled k → L.forwarders[k]? = some f → f.closed = true)
    (hwaited : ∀ k f, L.forwarders[k]? = some f → k ∈ L.active ∨ f.closed = true)
    (htold : ∀ k f, L.forwarders[k]? = some f → f.cancelled = true →
      Dismissed L.log k ∨ frame = .cancelled k ∧ written = true) :
    (L.settle frame written).Sound where
  forwarder := h.forwarder
  active k hmem := h.active k (mem_active_retain.mp hmem).1
  events := h.events
  settled k f hk := by
    change Emission.settled (L.log ++ [(frame, written)]) k <+: f.made
    rw [settled_concat, ← hstream k f hk]
    exact List.prefix_append _ _
  unknown k hle entry hmem := by
    rcases List.mem_append.mp hmem with hold | hlast
    · exact h.unknown k hle entry hold
    · obtain rfl := List.mem_singleton.mp hlast
      cases frame with
      | event k' message =>
        have hlt := hknown k' message rfl
        exact decide_eq_false (by
          rintro rfl
          exact absurd hle (Nat.not_le.mpr hlt))
      | acknowledgement k' => exact absurd rfl (hnew k')
      | response | cancelled k' => rfl
  frames k hlt := by
    obtain ⟨rest, hrest, hevents⟩ := h.frames k hlt
    change ∃ rest, (L.log ++ [(frame, written)]).filter (·.1.about k) = _ ∧ _
    rw [List.filter_append, hrest, List.cons_append]
    refine ⟨_, rfl, fun entry hmem ↦ ?_⟩
    rcases List.mem_append.mp hmem with hold | hlast
    · exact hevents entry hold
    · obtain ⟨hlast, habout⟩ := List.mem_filter.mp hlast
      obtain rfl := List.mem_singleton.mp hlast
      cases frame with
      | event k' message =>
        obtain rfl := of_decide_eq_true habout
        exact ⟨message, rfl⟩
      | acknowledgement k' => exact absurd rfl (hnew k')
      | response | cancelled k' => exact absurd habout (by simp [Frame.about])
  left_out frame' hmem := by
    rcases List.mem_append.mp hmem with hold | hlast
    · exact h.left_out frame' hold
    · obtain ⟨rfl, heq⟩ := Prod.mk.inj (List.mem_singleton.mp hlast)
      exact hwritten heq.symm
  dismissed k f hk hdismissed := by
    rcases dismissed_concat.mp hdismissed with hold | ⟨heq, -⟩
    · exact h.dismissed k f hk hold
    · exact hclosed k f (Prod.mk.inj heq).1 hk
  held k u heq := absurd heq (by simp [Link.settle, retain, LinkPhase.held?])
  stream _ k f hk := by
    change Emission.settled (L.log ++ [(frame, written)]) k ++ [] ++ queued L.events k = f.made
    rw [settled_concat, List.append_nil]
    exact hstream k f hk
  waited _ k f hk := by
    by_cases hf : f.closed = true
    · exact .inr (.inr hf)
    · exact .inl (mem_active_retain.mpr ⟨(hwaited k f hk).resolve_right hf, f, hk,
        Bool.eq_false_iff.mpr hf⟩)
  told _ k f hk hcancelled := by
    refine .inr (dismissed_concat.mpr ((htold k f hk hcancelled).imp id ?_))
    rintro ⟨rfl, rfl⟩
    exact ⟨rfl, h.acknowledged (List.getElem?_eq_some_iff.mp hk).1⟩

theorem settled_of_unknown (h : ∀ entry ∈ log, entry.1.about k = false) :
    Emission.settled log k = [] := by
  refine List.filterMap_eq_nil_iff.mpr fun entry hmem ↦ ?_
  have habout := h entry hmem
  rcases entry with ⟨frame, written⟩
  cases frame with
  | event k' message => exact if_neg (of_decide_eq_false habout)
  | response | acknowledgement k' | cancelled k' => rfl

theorem queued_of_unknown (h : ∀ event ∈ events, event.1 ≠ k) : queued events k = [] := by
  rw [queued, List.map_eq_nil_iff, List.filter_eq_nil_iff]
  exact fun event hmem ↦ by simpa using h event hmem

/-- A subscription is acknowledged. -/
theorem Sound.acknowledge (h : L.Sound) {answers : ℕ} (hphase : L.phase = .subscribing answers)
    (receiver : ℕ) : ({ L with
      forwarders := L.forwarders ++ [Forwarder.start receiver]
      active := L.active ++ [L.forwarders.length] }.settle
        (.acknowledgement L.forwarders.length) true).Sound := by
  have hopen : L.phase ≠ .ended := by simp [hphase]
  have hunknown := h.unknown L.forwarders.length le_rfl
  -- the new subscription, or one that was there
  have hcases {k : ℕ} {f : Forwarder}
    (hk : (L.forwarders ++ [Forwarder.start receiver])[k]? = some f) :
      L.forwarders[k]? = some f ∨ k = L.forwarders.length ∧ f = .start receiver := by
    rcases Nat.lt_or_ge k L.forwarders.length with hlt | hge
    · exact .inl ((List.getElem?_append_left hlt).symm.trans hk)
    · rw [List.getElem?_append_right hge, List.getElem?_singleton,
        Option.ite_none_right_eq_some] at hk
      exact .inr ⟨(Nat.sub_eq_zero_iff_le.mp hk.1).antisymm hge, (Option.some_inj.mp hk.2).symm⟩
  have hstream {k : ℕ} {f : Forwarder}
      (hk : (L.forwarders ++ [Forwarder.start receiver])[k]? = some f) :
      Emission.settled L.log k ++ queued L.events k = f.made := by
    rcases hcases hk with hk | ⟨rfl, rfl⟩
    · have hstream := h.stream hopen k f hk
      rwa [held_of_none (by rw [hphase]; rfl), List.append_nil] at hstream
    · rw [settled_of_unknown hunknown,
        queued_of_unknown fun event hmem ↦ (h.events event hmem).ne]
      rfl
  have hsettled {k : ℕ} :
    Emission.settled (L.log ++ [(.acknowledgement L.forwarders.length, true)]) k =
      Emission.settled L.log k := settled_concat.trans (List.append_nil _)
  refine
    { forwarder := fun f hmem ↦ ?_, active := fun k hmem ↦ ?_, events := fun event hmem ↦ ?_,
      settled := fun k f hk ↦ ?_, unknown := fun k hle entry hmem ↦ ?_, frames := fun k hlt ↦ ?_,
      left_out := fun frame hmem ↦ ?_, dismissed := fun k f hk hdismissed ↦ ?_,
      held := fun k u heq ↦ absurd heq (by simp [Link.settle, retain, LinkPhase.held?]),
      stream := fun _ k f hk ↦ ?_, waited := fun _ k f hk ↦ ?_, told :=
        fun _ k f hk hcancelled ↦ ?_ }
  · rcases List.mem_append.mp hmem with hold | hnew
    · exact h.forwarder f hold
    · exact List.mem_singleton.mp hnew ▸ Forwarder.sound_start receiver
  · change k < (L.forwarders ++ [Forwarder.start receiver]).length
    rw [List.length_append, List.length_singleton]
    rcases List.mem_append.mp (mem_active_retain.mp hmem).1 with hold | hnew
    · exact (h.active k hold).trans (Nat.lt_succ_self _)
    · exact List.mem_singleton.mp hnew ▸ Nat.lt_succ_self _
  · change event.1 < (L.forwarders ++ [Forwarder.start receiver]).length
    rw [List.length_append, List.length_singleton]
    exact (h.events event hmem).trans (Nat.lt_succ_self _)
  · change Emission.settled (L.log ++ _) k <+: f.made
    rw [hsettled, ← hstream hk]
    exact List.prefix_append _ _
  · change (L.forwarders ++ [Forwarder.start receiver]).length ≤ k at hle
    rw [List.length_append, List.length_singleton] at hle
    rcases List.mem_append.mp hmem with hold | hlast
    · exact h.unknown k (Nat.le_of_succ_le hle) entry hold
    · obtain rfl := List.mem_singleton.mp hlast
      exact decide_eq_false (Nat.ne_of_lt hle)
  · change k < (L.forwarders ++ [Forwarder.start receiver]).length at hlt
    rw [List.length_append, List.length_singleton] at hlt
    change ∃ rest, (L.log ++ [(Frame.acknowledgement L.forwarders.length, true)]).filter
      (fun entry ↦ entry.1.about k) = _ ∧ _
    rw [List.filter_append]
    rcases Nat.lt_succ_iff_lt_or_eq.mp hlt with hold | rfl
    · obtain ⟨rest, hrest, hevents⟩ := h.frames k hold
      refine ⟨rest, ?_, hevents⟩
      rw [hrest, List.filter_cons_of_neg (by simp [Frame.about, hold.ne']), List.filter_nil,
        List.append_nil]
    · refine ⟨[], ?_, by simp⟩
      rw [List.filter_eq_nil_iff.mpr fun entry hmem ↦ by simp [hunknown entry hmem]]
      simp [Frame.about]
  · rcases List.mem_append.mp hmem with hold | hlast
    · exact h.left_out frame hold
    · exact absurd hlast (by simp)
  · rcases dismissed_concat.mp hdismissed with hold | ⟨heq, -⟩
    · rcases hcases hk with hk | ⟨rfl, rfl⟩
      · exact h.dismissed k f hk hold
      · obtain ⟨before, after, heq, hack⟩ := hold
        have habout := hunknown _ (heq ▸ List.mem_append_left _ hack)
        exact absurd habout (by simp [Frame.about])
    · exact absurd heq (by simp)
  · change Emission.settled (L.log ++ _) k ++ [] ++ queued L.events k = f.made
    rw [hsettled, List.append_nil, hstream hk]
  · by_cases hf : f.closed = true
    · exact .inr (.inr hf)
    refine .inl (mem_active_retain.mpr ⟨List.mem_append.mpr ?_, f, hk, Bool.eq_false_iff.mpr hf⟩)
    rcases hcases hk with hk | ⟨rfl, -⟩
    · refine .inl ((h.waited hopen k f hk).resolve_right ?_)
      rintro (hcancelling | hclosed)
      · exact absurd (hphase.symm.trans hcancelling) (by simp)
      · exact hf hclosed
    · exact .inr (List.mem_singleton_self _)
  · refine .inr (dismissed_concat.mpr (.inl ?_))
    rcases hcases hk with hk | ⟨-, rfl⟩
    · refine (h.told hopen k f hk hcancelled).resolve_left fun hcancelling ↦ ?_
      exact absurd (hphase.symm.trans hcancelling) (by simp)
    · exact absurd hcancelled (by simp [Forwarder.start])

/-- **A forwarder goes on**, and may put messages into the queue. -/
theorem Sound.forward (h : L.Sound) (hk : L.forwarders[k]? = some f) {new : List Message}
    (hsound : f'.Sound) (hmade : f'.made = f.made ++ new)
    (hclosed : f.closed = true → f'.closed = true) (hcancelled : f'.cancelled = f.cancelled) :
    ({ L with events := L.events ++ new.map (Prod.mk k) }.setForwarder k f').Sound := by
  have hlt := (List.getElem?_eq_some_iff.mp hk).1
  -- the one that goes on, or another
  have hcases {k' : ℕ} {g : Forwarder} (hg : (L.forwarders.set k f')[k']? = some g) :
      k' = k ∧ g = f' ∨ k' ≠ k ∧ L.forwarders[k']? = some g := by
    by_cases heq : k' = k
    · subst heq
      rw [List.getElem?_set_self hlt] at hg
      exact .inl ⟨rfl, (Option.some_inj.mp hg).symm⟩
    · rw [List.getElem?_set_ne (Ne.symm heq)] at hg
      exact .inr ⟨heq, hg⟩
  have hqueued (k' : ℕ) : queued (L.events ++ new.map (Prod.mk k)) k' =
      queued L.events k' ++ if k = k' then new else [] := by
    rw [queued, List.filter_append, List.map_append, queued]
    by_cases heq : k = k' <;> simp [heq, List.filter_map, Function.comp_def]
  refine
    { forwarder := fun g hmem ↦ ?_, active := fun k' hmem ↦ ?_, events := fun event hmem ↦ ?_,
      settled := fun k' g hg ↦ ?_, unknown := fun k' hle ↦ h.unknown k' ?_,
      frames := fun k' hlt ↦ h.frames k' ?_, left_out := h.left_out,
      dismissed := fun k' g hg hdismissed ↦ ?_, held := fun k' u heq ↦ ?_,
      stream := fun hopen k' g hg ↦ ?_, waited := fun hopen k' g hg ↦ ?_,
      told := fun hopen k' g hg hcancel ↦ ?_ }
  · rcases List.mem_or_eq_of_mem_set hmem with hold | rfl
    · exact h.forwarder g hold
    · exact hsound
  · exact (h.active k' hmem).trans_eq (List.length_set ..).symm
  · refine Nat.lt_of_lt_of_eq ?_ (List.length_set ..).symm
    rcases List.mem_append.mp hmem with hold | hnew
    · exact h.events event hold
    · obtain ⟨message, -, rfl⟩ := List.mem_map.mp hnew
      exact hlt
  · rcases hcases hg with ⟨rfl, rfl⟩ | ⟨-, hg⟩
    · exact hmade ▸ (h.settled k' f hk).trans (List.prefix_append _ _)
    · exact h.settled k' g hg
  · exact (List.length_set ..).symm.trans_le hle
  · exact Nat.lt_of_lt_of_eq hlt (List.length_set ..)
  · rcases hcases hg with ⟨rfl, rfl⟩ | ⟨-, hg⟩
    · exact hclosed (h.dismissed k' f hk hdismissed)
    · exact h.dismissed k' g hg hdismissed
  · exact (h.held k' u heq).trans_eq (List.length_set ..).symm
  · change Emission.settled L.log k' ++ Emission.held L.phase k' ++
      queued (L.events ++ _) k' = g.made
    rw [hqueued, ← List.append_assoc]
    rcases hcases hg with ⟨rfl, rfl⟩ | ⟨hne, hg⟩
    · rw [if_pos rfl, h.stream hopen k' f hk, hmade]
    · rw [if_neg (Ne.symm hne), List.append_nil, h.stream hopen k' g hg]
  · rcases hcases hg with ⟨rfl, rfl⟩ | ⟨-, hg⟩
    · exact (h.waited hopen k' f hk).imp id (Or.imp id hclosed)
    · exact h.waited hopen k' g hg
  · rcases hcases hg with ⟨rfl, rfl⟩ | ⟨-, hg⟩
    · exact h.told hopen k' f hk (hcancelled ▸ hcancel)
    · exact h.told hopen k' g hg hcancel

/-- The loop goes on with what it has in hand. -/
theorem Sound.setPhase (h : L.Sound) (hopen : L.phase ≠ .ended)
    (hheld : phase.held? = L.phase.held?)
    (hcancelling : ∀ k, L.phase ≠ .cancelling k) : { L with phase }.Sound := by
  refine { h.toKept with
    held := fun k u heq ↦ h.held k u (hheld ▸ heq)
    stream := fun _ k f hk ↦ ?_
    waited := fun _ k f hk ↦ ?_
    told := fun _ k f hk hcancelled ↦ .inr ?_ }
  · have hstream := h.stream hopen k f hk
    rwa [Emission.held, ← hheld] at hstream
  · exact (h.waited hopen k f hk).imp id fun hor ↦ .inr (hor.resolve_left (hcancelling k))
  · exact (h.told hopen k f hk hcancelled).resolve_left (hcancelling k)

theorem Sound.leave (h : L.Sound) : { L with phase := .ended }.Sound :=
  { h.toKept with
    held := fun _ _ heq ↦ absurd heq (by simp [LinkPhase.held?])
    stream := fun hopen ↦ absurd rfl hopen
    waited := fun hopen ↦ absurd rfl hopen
    told := fun hopen ↦ absurd rfl hopen }

theorem Sound.retain (h : L.Sound) : L.retain.Sound :=
  { h.toKept with
    active := fun k hmem ↦ h.active k (mem_active_retain.mp hmem).1
    held := h.held
    stream := h.stream
    waited := fun hopen k f hk ↦ by
      by_cases hf : f.closed = true
      · exact .inr (.inr hf)
      refine (h.waited hopen k f hk).imp (fun hactive ↦ ?_) id
      exact mem_active_retain.mpr ⟨hactive, f, hk, Bool.eq_false_iff.mpr hf⟩
    told := h.told }

/-- The loop is done with what it has in hand, or with something else if that is nothing. -/
theorem Sound.settle (h : L.Sound) (hopen : L.phase ≠ .ended)
    (hhand : ∀ k, Emission.held L.phase k = (frame.message? k).toList)
    (hnew : ∀ k, frame ≠ .acknowledgement k)
    (hknown : ∀ k message, frame = .event k message → k < L.forwarders.length)
    (hwritten : written = false → ∃ k u, frame = .event k (.notification u))
    (hclosed : ∀ k f, frame = .cancelled k → L.forwarders[k]? = some f → f.closed = true)
    (hcancelling : ∀ k, L.phase = .cancelling k → frame = .cancelled k ∧ written = true) :
    (L.settle frame written).Sound := by
  refine h.toKept.settle (fun k f hk ↦ ?_) hnew hknown hwritten hclosed (fun k f hk ↦ ?_)
    fun k f hk hcancelled ↦ ?_
  · rw [← hhand, h.stream hopen k f hk]
  · refine (h.waited hopen k f hk).imp id fun hor ↦ hor.elim (fun heq ↦ ?_) id
    exact hclosed k f (hcancelling k heq).1 hk
  · exact (h.told hopen k f hk hcancelled).symm.imp id (hcancelling k)

/-- A notification in hand is written, or left out. -/
theorem Sound.settle_hand (h : L.Sound) {u : UpdateId} (hheld : L.phase.held? = some (k, u))
    (written : Bool) : (L.settle (.event k (.notification u)) written).Sound := by
  have hopen : L.phase ≠ .ended := fun heq ↦ by simp [heq, LinkPhase.held?] at hheld
  refine h.settle hopen (fun k' ↦ ?_) (by simp) (fun k' message heq ↦ ?_) (fun _ ↦ ⟨k, u, rfl⟩)
    (by simp) fun k' heq ↦ by simp [heq, LinkPhase.held?] at hheld
  · rw [held_of_some hheld, Frame.message?]
    by_cases heq : k = k' <;> simp [heq]
  · obtain ⟨rfl, -⟩ := Frame.event.inj heq
    exact h.held k u hheld

end Link

namespace Forwarder

variable {action : LinkAction} {new : List Message}

theorem notified_concat (seen : List UpdateSubscriptionPoll) (poll : UpdateSubscriptionPoll) :
    notified (seen ++ [poll]) = notified seen ++ poll.updates := by
  rw [notified, List.flatMap_append, List.flatMap_singleton, notified]

theorem Sound.sent_of_not_closed (h : f.Sound) (hclosed : f.closed = false) : f.sent = none := by
  by_contra hne
  obtain ⟨message, hmessage⟩ := Option.ne_none_iff_exists'.mp hne
  exact absurd ((h.sent message hmessage).1.symm.trans hclosed) (by simp)

theorem closed_eq_false_iff : f.closed = false ↔ f.stage ≠ .returning ∧ f.stage ≠ .returned := by
  simp [closed]

/-- It goes on to drop the subscription, with or without a terminal event. -/
theorem sound_return {seen : List UpdateSubscriptionPoll} {sent : Option Message}
    (hsent : ∀ message, sent = some message → message.terminal = true ∧
      ((∃ ended, .invalidated ended ∈ seen ∧ terminalMessage ended = some message) ∨
        message = .overflow ∧ f.refused = true))
    (hreason : sent ≠ none ∨ f.cancelled = true ∨
      ∃ ended, .invalidated ended ∈ seen ∧ terminalMessage ended = none)
    (hrefused : f.refused = true → ∀ poll ∈ seen, ∃ u, poll = .notification u) :
    Sound { f with stage := .returning, seen, sent } where
  polling heq := absurd heq (by simp)
  cancelling heq := absurd heq (by simp)
  overflowing heq := absurd heq (by simp)
  sent message heq := ⟨rfl, (hsent message heq).1⟩
  closed _ := hreason
  reason message heq := (hsent message heq).2
  refused heq := ⟨by simp, hrefused heq⟩

/-- It goes on without having sent a terminal event. -/
theorem sound_onward {stage : Stage} {refused : Bool}
    (hclosed : stage ≠ .returning ∧ stage ≠ .returned) (hpolling : stage ≠ .polling)
    (hcancelling : stage = .cancelling → f.cancelled = true)
    (hoverflowing : stage = .overflowing → refused = true) (hsent : f.sent = none)
    (hseen : ∀ poll ∈ f.seen, ∃ u, poll = .notification u) :
    Sound { f with stage, refused } where
  polling heq := absurd heq hpolling
  cancelling := hcancelling
  overflowing := hoverflowing
  sent message heq := absurd (hsent.symm.trans heq) (by simp)
  closed heq := absurd heq (Bool.eq_false_iff.mp (closed_eq_false_iff.mpr hclosed))
  reason message heq := absurd (hsent.symm.trans heq) (by simp)
  refused _ := ⟨hpolling, hseen⟩

/-- **What a forwarder does keeps what holds of it**, and adds what it puts into the queue. -/
theorem Moves.sound (h : f.Moves k action new f') (hf : f.Sound) : f'.Sound ∧
    f'.made = f.made ++ new ∧ (f.closed = true → f'.closed = true) := by
  have hsent (hstage : f.stage ≠ .returning ∧ f.stage ≠ .returned) : f.sent = none :=
    hf.sent_of_not_closed (closed_eq_false_iff.mpr hstage)
  have hmade (poll : UpdateSubscriptionPoll) : notified (f.seen ++ [poll]) =
      notified f.seen ++ poll.updates := notified_concat f.seen poll
  -- a forwarder that polls has not found the queue full
  have hroom (hpolling : f.stage = .polling) : f.refused ≠ true := fun h ↦ (hf.refused h).1 hpolling
  cases h with
  | sent poll message polling eq more =>
    have hnone := hsent (by simp [polling])
    obtain ⟨u, rfl, rfl⟩ : ∃ u, poll = .notification u ∧ message = .notification u := by
      cases poll with
      | notification u => exact ⟨u, rfl, (Option.some_inj.mp eq).symm⟩
      | invalidated ended => exact absurd (terminal_of_terminalMessage eq) (by simp [more])
      | pending => exact absurd eq (by simp [message?])
    refine ⟨⟨fun _ poll hmem ↦ ?_, hf.cancelling, hf.overflowing, hf.sent, fun hclosed ↦ ?_,
      fun message heq ↦ ?_, fun h ↦ absurd h (hroom polling)⟩, ?_, id⟩
    · rcases List.mem_append.mp hmem with hold | hnew
      · exact hf.polling polling poll hold
      · exact ⟨u, List.mem_singleton.mp hnew⟩
    · exact absurd hclosed (by simp [Forwarder.closed, polling])
    · exact absurd (hnone.symm.trans heq) (by simp)
    · simp [made, hmade, hnone, UpdateSubscriptionPoll.updates]
  | finished poll message polling eq last =>
    have hnone := hsent (by simp [polling])
    obtain ⟨ended, rfl⟩ : ∃ ended, poll = .invalidated ended := by
      cases poll with
      | invalidated ended => exact ⟨ended, rfl⟩
      | notification u =>
        obtain rfl := Option.some_inj.mp eq
        exact absurd last (by simp [Message.terminal])
      | pending => exact absurd eq (by simp [message?])
    refine ⟨sound_return (fun message' heq ↦ ?_) (.inl (by simp))
      (fun h ↦ absurd h (hroom polling)), ?_, fun _ ↦ rfl⟩
    · obtain rfl := Option.some_inj.mp heq
      exact ⟨last, .inl ⟨ended, List.mem_append_right _ (List.mem_singleton_self _), eq⟩⟩
    · simp [made, hmade, hnone, UpdateSubscriptionPoll.updates]
  | silent ended full polling eq =>
    have hnone := hsent (by simp [polling])
    refine ⟨sound_return (fun message heq ↦ absurd (hnone.symm.trans heq) (by simp))
      (.inr (.inr ⟨ended, List.mem_append_right _ (List.mem_singleton_self _), eq⟩))
      (fun h ↦ absurd h (hroom polling)), ?_, fun _ ↦ rfl⟩
    simp [made, hmade, UpdateSubscriptionPoll.updates]
  | refused poll message polling eq =>
    exact ⟨sound_onward (by simp) (by simp) (by simp) (fun _ ↦ rfl) (hsent (by simp [polling]))
      (hf.polling polling), (List.append_nil _).symm, fun hclosed ↦
        absurd hclosed (by simp [Forwarder.closed, polling])⟩
  | observeCancel polling cancelled =>
    exact ⟨sound_onward (by simp) (by simp) (fun _ ↦ cancelled) (by simp)
      (hsent (by simp [polling])) (hf.polling polling), (List.append_nil _).symm, fun hclosed ↦
        absurd hclosed (by simp [Forwarder.closed, polling])⟩
  | sendOverflow overflowing =>
    have hnone := hsent (by simp [overflowing])
    refine ⟨sound_return (fun message heq ↦ ?_) (.inl (by simp)) (fun h ↦ (hf.refused h).2), ?_,
      fun _ ↦ rfl⟩
    · obtain rfl := Option.some_inj.mp heq
      exact ⟨rfl, .inr ⟨rfl, hf.overflowing overflowing⟩⟩
    · simp [made, hnone]
  | abandonOverflow overflowing cancelled =>
    have hnone := hsent (by simp [overflowing])
    exact ⟨sound_return (fun message heq ↦ absurd (hnone.symm.trans heq) (by simp))
      (.inr (.inl cancelled)) (fun h ↦ (hf.refused h).2), (List.append_nil _).symm, fun _ ↦ rfl⟩
  | drop cancelling =>
    have hnone := hsent (by simp [cancelling])
    exact ⟨sound_return (fun message heq ↦ absurd (hnone.symm.trans heq) (by simp))
      (.inr (.inl (hf.cancelling cancelling))) (fun h ↦ (hf.refused h).2), (List.append_nil _).symm,
      fun _ ↦ rfl⟩
  | finish returning =>
    have hdone : f.closed = true := by simp [Forwarder.closed, returning]
    exact ⟨⟨fun heq ↦ absurd heq (by simp), fun heq ↦ absurd heq (by simp),
      fun heq ↦ absurd heq (by simp), fun message heq ↦ ⟨rfl, (hf.sent message heq).2⟩,
      fun _ ↦ hf.closed hdone, hf.reason, fun h ↦ ⟨by simp, (hf.refused h).2⟩⟩,
      (List.append_nil _).symm, fun _ ↦ rfl⟩

theorem Moves.cancelled_eq (h : f.Moves k action new f') : f'.cancelled = f.cancelled := by
  cases h <;> rfl

end Forwarder

namespace Link

theorem Sound.cancel (h : L.Sound) (hserving : L.phase = .serving) (k : ℕ) :
    (L.cancel k).Sound := by
  have hopen : L.phase ≠ .ended := by simp [hserving]
  rw [Link.cancel]
  split
  · rename_i hactive
    -- the one that is cancelled, or another
    have hcases {k' : ℕ} {g : Forwarder} (hg : (L.forwarders.modify k fun f ↦
        { f with cancelled := true })[k']? = some g) :
        ∃ f, L.forwarders[k']? = some f ∧ g.made = f.made ∧ g.closed = f.closed ∧
          (k' ≠ k → g = f) := by
      rw [List.getElem?_modify] at hg
      obtain ⟨f, hf, rfl⟩ := Option.map_eq_some_iff.mp hg
      by_cases heq : k = k'
      · exact ⟨f, hf, by
          rw [if_pos heq]; rfl, by rw [if_pos heq]; rfl, fun hne ↦ absurd heq.symm hne⟩
      · exact ⟨f, hf, by rw [if_neg heq], by rw [if_neg heq], fun _ ↦ by rw [if_neg heq]⟩
    refine
      { forwarder := fun g hmem ↦ ?_
        active := fun k' hmem ↦ ?_
        events := fun event hmem ↦ (h.events event hmem).trans_eq (List.length_modify ..).symm
        settled := fun k' g hg ↦ ?_
        unknown := fun k' hle ↦ h.unknown k' ((List.length_modify ..).symm.trans_le hle)
        frames := fun k' hlt ↦ h.frames k' (Nat.lt_of_lt_of_eq hlt (List.length_modify ..))
        left_out := h.left_out
        dismissed := fun k' g hg hdismissed ↦ ?_
        held := fun k' u heq ↦ absurd heq (by simp [LinkPhase.held?])
        stream := fun _ k' g hg ↦ ?_
        waited := fun _ k' g hg ↦ ?_
        told := fun _ k' g hg hcancelled ↦ ?_ }
    · obtain ⟨k', hk'⟩ := List.getElem?_of_mem hmem
      rw [List.getElem?_modify] at hk'
      obtain ⟨f, hf, rfl⟩ := Option.map_eq_some_iff.mp hk'
      have hsound := h.forwarder f (List.mem_of_getElem? hf)
      split
      · exact { hsound with cancelling := fun _ ↦ rfl, closed := fun _ ↦ .inr (.inl rfl) }
      · exact hsound
    · exact (h.active k' (List.mem_of_mem_filter hmem)).trans_eq (List.length_modify ..).symm
    · obtain ⟨f, hf, hmade, -⟩ := hcases hg
      exact hmade ▸ h.settled k' f hf
    · obtain ⟨f, hf, -, hclosed, -⟩ := hcases hg
      exact hclosed ▸ h.dismissed k' f hf hdismissed
    · obtain ⟨f, hf, hmade, -⟩ := hcases hg
      have hstream := h.stream hopen k' f hf
      rw [held_of_none (by rw [hserving]; rfl), List.append_nil] at hstream
      change Emission.settled L.log k' ++ [] ++ queued L.events k' = g.made
      rw [List.append_nil, hstream, hmade]
    · obtain ⟨f, hf, -, hclosed, -⟩ := hcases hg
      by_cases heq : k' = k
      · exact .inr (.inl (heq ▸ rfl))
      rcases h.waited hopen k' f hf with hactive | hcancelling | hdone
      · exact .inl (List.mem_filter.mpr ⟨hactive, decide_eq_true heq⟩)
      · exact absurd (hserving.symm.trans hcancelling) (by simp)
      · exact .inr (.inr (hclosed.trans hdone))
    · obtain ⟨f, hf, -, -, hsame⟩ := hcases hg
      by_cases heq : k' = k
      · exact .inl (heq ▸ rfl)
      · refine .inr ((h.told hopen k' f hf (hsame heq ▸ hcancelled)).resolve_left
          fun hcancelling ↦ ?_)
        exact absurd (hserving.symm.trans hcancelling) (by simp)
  · rename_i hgone
    refine h.settle hopen (fun k' ↦ held_of_none (by rw [hserving]; rfl)) (by simp) (by simp)
      (by simp) (fun k' f heq hf ↦ ?_) fun k' heq ↦ absurd (hserving.symm.trans heq) (by simp)
    obtain rfl := Frame.cancelled.inj heq
    rcases h.waited hopen k f hf with hactive | hcancelling | hdone
    · exact absurd hactive hgone
    · exact absurd (hserving.symm.trans hcancelling) (by simp)
    · exact hdone

/-- The loop takes an event from the queue, where it has nothing in hand. -/
theorem Sound.next (h : L.Sound) (hserving : L.phase = .serving) {message : Message}
    {events : List (ℕ × Message)} (hwaits : L.events = (k, message) :: events) :
    { L with events }.Kept ∧ k < L.forwarders.length ∧
    (∀ k' f, L.forwarders[k']? = some f → k' ∈ L.active ∨ f.closed = true) ∧
    (∀ k' f, L.forwarders[k']? = some f → f.cancelled = true → Dismissed L.log k') ∧
    ∀ k' f, L.forwarders[k']? = some f → Emission.settled L.log k' ++
      ((if k = k' then [message] else []) ++ queued events k') = f.made := by
  have hopen : L.phase ≠ .ended := by simp [hserving]
  refine ⟨{ h.toKept with events := fun event hmem ↦ ?_ }, ?_, fun k' f hf ↦ ?_,
    fun k' f hf hcancelled ↦ ?_, fun k' f hf ↦ ?_⟩
  · exact h.events event (hwaits ▸ List.mem_cons_of_mem _ hmem)
  · exact h.events (k, message) (hwaits ▸ List.mem_cons_self ..)
  · exact (h.waited hopen k' f hf).imp id fun hor ↦ hor.resolve_left (by simp [hserving])
  · exact (h.told hopen k' f hf hcancelled).resolve_left (by simp [hserving])
  · have hstream := h.stream hopen k' f hf
    rw [held_of_none (by rw [hserving]; rfl), List.append_nil, hwaits] at hstream
    rw [← hstream, queued, queued]
    by_cases heq : k = k' <;> simp [heq]

theorem Sound.take (h : L.Sound) (hserving : L.phase = .serving) {u : UpdateId}
    {events : List (ℕ × Message)} (hwaits : L.events = (k, .notification u) :: events) :
    { L with phase := .entering k u, events }.Sound := by
  obtain ⟨hkept, hlt, hwaited, htold, hstream⟩ := h.next hserving hwaits
  have hheld : (LinkPhase.entering k u).held? = some (k, u) := rfl
  refine { hkept with
    held := fun k' u' heq ↦ ?_
    stream := fun _ k' f hf ↦ ?_
    waited := fun _ k' f hf ↦ (hwaited k' f hf).imp id .inr
    told := fun _ k' f hf hcancelled ↦ .inr (htold k' f hf hcancelled) }
  · obtain ⟨rfl, -⟩ := Prod.mk.inj (Option.some_inj.mp heq)
    exact hlt
  · rw [← hstream k' f hf, held_of_some hheld, List.append_assoc]

theorem Sound.tell (h : L.Sound) (hserving : L.phase = .serving) {message : Message}
    {events : List (ℕ × Message)} (hwaits : L.events = (k, message) :: events) :
    ({ L with events }.settle (.event k message) true).Sound := by
  obtain ⟨hkept, hlt, hwaited, htold, hstream⟩ := h.next hserving hwaits
  refine hkept.settle (fun k' f hf ↦ ?_) (by simp) (fun k' message' heq ↦ ?_) (by simp) (by simp)
    hwaited fun k' f hf hcancelled ↦ .inl (htold k' f hf hcancelled)
  · rw [← hstream k' f hf, List.append_assoc, Frame.message?]
    by_cases heq : k = k' <;> simp [heq]
  · obtain ⟨rfl, -⟩ := Frame.event.inj heq
    exact hlt

/-- **Every step keeps it.** -/
theorem Sound.step (h : L.Sound) {action : LinkAction} (hstep : L.step action = some L') :
    L'.Sound := by
  cases stepped hstep with
  | receive serving =>
    exact h.setPhase (by simp [serving]) (by rw [serving]; rfl) (by simp [serving])
  | respond asked =>
    have hsettle (hopen : L.phase ≠ .ended) (hheld : L.phase.held? = none)
        (hcancelling : ∀ k, L.phase ≠ .cancelling k) : (L.settle .response true).Sound :=
      h.settle hopen (fun k ↦ held_of_none hheld) (by simp) (by simp) (by simp) (by simp)
        fun k heq ↦ absurd heq (hcancelling k)
    rcases asked with handling | ⟨answers, subscribing⟩
    · exact hsettle (by simp [handling]) (by rw [handling]; rfl) (by simp [handling])
    · exact hsettle (by simp [subscribing]) (by rw [subscribing]; rfl) (by simp [subscribing])
  | subscribe answers serving =>
    exact h.setPhase (by simp [serving]) (by rw [serving]; rfl) (by simp [serving])
  | acknowledge answers receiver subscribing => exact h.acknowledge subscribing receiver
  | cancel k serving => exact h.cancel serving k
  | finishCancel k f cancelling was returned =>
    refine h.settle (by simp [cancelling]) (fun k' ↦ held_of_none (by rw [cancelling]; rfl))
      (by simp) (by simp) (by simp) (fun k' g heq hg ↦ ?_) fun k' heq ↦ ?_
    · obtain rfl := Frame.cancelled.inj heq
      obtain rfl := Option.some_inj.mp (was.symm.trans hg)
      simp [Forwarder.closed, returned]
    · obtain rfl := LinkPhase.cancelling.inj (cancelling.symm.trans heq)
      exact ⟨rfl, rfl⟩
  | join k f serving was returned =>
    have hf := h.forwarder f (List.mem_of_getElem? was)
    have hsound : ({ f with joined := true } : Forwarder).Sound := { hf with }
    have hjoined := h.forward was hsound (List.append_nil _).symm id rfl
    rw [List.map_nil, List.append_nil] at hjoined
    exact hjoined.retain
  | take k u events serving waits => exact h.take serving waits
  | tell k message events serving waits last => exact h.tell serving waits
  | enter k u entering =>
    exact h.setPhase (by simp [entering]) (by rw [entering]; rfl) (by simp [entering])
  | authorized k u checking =>
    exact h.setPhase (by simp [checking]) (by rw [checking]; rfl) (by simp [checking])
  | refused k u checking => exact h.settle_hand (by rw [checking]; rfl) false
  | written k u writing => exact h.settle_hand (by rw [writing]; rfl) true
  | leave opened => exact h.leave
  | forward k f f' new opened was moves =>
    obtain ⟨hsound, hmade, hclosed⟩ := moves.sound (h.forwarder f (List.mem_of_getElem? was))
    exact h.forward was hsound hmade hclosed moves.cancelled_eq

end Link

end Renee.Emission
