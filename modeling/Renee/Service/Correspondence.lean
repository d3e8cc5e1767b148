import Renee.Service.ForwardingRun

/-!
# The bytes of a connection and its frames

`Connection` and `Link` are about the same loop and the same tasks.  The first says which bytes are
written, the second what they mean, and what happens between two writes.

* `wireId` is the identity that a subscription has in messages, and `Encodes` says of a body that it
  is the encoding of a frame.
* `Carries` says that a connection and a link are in the same state: the same events wait, the same
  forwarders are at the same stage, and what has been written are the encodings of the frames.
* `Corresponds.step`: what a connection does in one step, the link does in some;
  `connection_simulated` is the same of runs.

A connection does in one step what a forwarder does after it has noticed its cancellation or the end
of its subscription, and what the loop does with a notification; nothing else can come between, so
every run of the connection is among the runs of the link, but not the other way round.
-/

set_option autoImplicit false

namespace Renee.Emission

open ByteString Wire Service
open UpdateSubscriptionRegistry (UpdateSubscriptionPoll)

variable {ε : Type}

/-! ## Identities -/

/-- The identity of a subscription in messages. -/
def wireId (k : ℕ) : UpdateSubscriptionId := ⟨.ofNat identifierLength (k + 1)⟩

theorem wireId_inj {k k' : ℕ} (hk : k + 1 < 2 ^ 128) (hk' : k' + 1 < 2 ^ 128) :
    wireId k = wireId k' ↔ k = k' := by
  refine ⟨fun h ↦ ?_, fun h ↦ h ▸ rfl⟩
  have hpow : (256 : ℕ) ^ identifierLength = 2 ^ 128 := rfl
  have hbytes := congrArg (fun id : UpdateSubscriptionId ↦ id.bytes.toNat) h
  simp only [wireId] at hbytes
  rw [Bytes.toNat_ofNat (by omega), Bytes.toNat_ofNat (by omega)] at hbytes
  omega

/-- Every identity is that of a subscription, which may not be there yet. -/
theorem exists_wireId (id : UpdateSubscriptionId) : ∃ k, wireId k = id := by
  have hbytes := Bytes.ofNat_toNat id.bytes
  rcases Nat.eq_zero_or_pos id.bytes.toNat with hzero | hpos
  · have hwrap : Bytes.ofNat identifierLength (2 ^ 128 - 1 + 1) = .ofNat identifierLength 0 := by
      decide
    rw [hzero, ← hwrap] at hbytes
    exact ⟨2 ^ 128 - 1, UpdateSubscriptionId.ext hbytes⟩
  · refine ⟨id.bytes.toNat - 1, UpdateSubscriptionId.ext ?_⟩
    rw [wireId, Nat.sub_add_cancel hpos]
    exact hbytes

/-! ## Encodings -/

/-- A body says what a frame does, where the subscriptions have been asked for with the correlation
identifiers `ids`. -/
def Encodes (ids : List (Bytes 16)) : Frame → List UInt8 → Prop
  | .response, body => Plain body
  | .acknowledgement k, body => ∃ correlationId ∈ ids[k]?,
    encodeBody ⟨correlationId, subscribeUpdatesAck, encodeSubscribeUpdatesAck (wireId k), version⟩ =
      .ok body
  | .event k message, body => ∃ correlationId ∈ ids[k]?,
    encodeBody ⟨correlationId, (message.encode (wireId k)).1, (message.encode (wireId k)).2,
      version⟩ = .ok body
  | .cancelled k, body => ∃ correlationId,
    encodeBody ⟨correlationId, cancelUpdateSubscriptionResponse,
      encodeCancelUpdateSubscription (wireId k), version⟩ = .ok body

/-- An event that waits is the encoding of a message, and only a notification is checked. -/
structure EncodesEvent (ids : List (Bytes 16)) (event : ℕ × Message) (body : ConnectionEvent) : Prop
    where
  encodes : Encodes ids (.event event.1 event.2) body.body
  gated : body.gated = !event.2.terminal

theorem getElem?_append_of_mem {ids : List (Bytes 16)} {k : ℕ} {correlationId : Bytes 16}
    (h : correlationId ∈ ids[k]?) (more : List (Bytes 16)) : correlationId ∈ (ids ++ more)[k]? := by
  have hlt := (List.getElem?_eq_some_iff.mp h).1
  rwa [List.getElem?_append_left hlt]

theorem Encodes.append {ids : List (Bytes 16)} {frame : Frame} {body : List UInt8}
    (h : Encodes ids frame body) (more : List (Bytes 16)) : Encodes (ids ++ more) frame body := by
  cases frame with
  | response | cancelled k => exact h
  | acknowledgement k | event k message =>
    obtain ⟨correlationId, hmem, hbody⟩ := h
    exact ⟨correlationId, getElem?_append_of_mem hmem more, hbody⟩

theorem EncodesEvent.append {ids : List (Bytes 16)} {event : ℕ × Message} {body : ConnectionEvent}
    (h : EncodesEvent ids event body) (more : List (Bytes 16)) :
    EncodesEvent (ids ++ more) event body := ⟨h.encodes.append more, h.gated⟩

/-- An event is short enough to be encoded. -/
theorem exists_encodeBody (correlationId : Bytes 16) (k : ℕ) (message : Message) :
    ∃ body, encodeBody ⟨correlationId, (message.encode (wireId k)).1, (message.encode (wireId k)).2,
      version⟩ = .ok body := by
  refine ⟨_, encodeBody_eq_ok ?_⟩
  cases message with
  | notification u =>
    show (encodeUpdateNotification ⟨wireId k, u⟩).length ≤ maxApplicationPayloadLength
    rw [encodeUpdateNotification, List.length_append, List.length_append, length_toBe,
      (wireId k).bytes.length_eq, u.bytes.length_eq]
    decide
  | overflow | invalidated =>
    show (encodeSubscriptionIdentity (wireId k)).length ≤ maxApplicationPayloadLength
    rw [encodeSubscriptionIdentity, List.length_append, length_toBe, (wireId k).bytes.length_eq]
    decide

/-! ## States -/

/-- The stage of a forwarder that is in between no two steps of the connection. -/
def stageOf : ForwarderPhase → Stage
  | .polling => .polling
  | .overflowing => .overflowing
  | .returned => .returned

/-- A forwarder of the connection is the one of the `k`-th subscription. -/
structure Carried (ids : List (Bytes 16)) (forwarders : List Forwarder)
    (forwarder : Service.Forwarder) (k : ℕ) : Prop where
  identity : forwarder.subscriptionId = wireId k
  correlation : ids[k]? = some forwarder.correlationId
  task : ∃ f, forwarders[k]? = some f ∧ f.stage = stageOf forwarder.phase ∧
    f.cancelled = forwarder.cancelled ∧ f.joined = false

/-- The subscription has a forwarder that has not returned. -/
def Lives (c : Connection ε) (id : UpdateSubscriptionId) : Prop :=
  ∃ forwarder ∈ c.forwarders, forwarder.subscriptionId = id ∧ stageOf forwarder.phase ≠ .returned

/-- A connection and a link agree on everything but where the loop is; `ks` are the subscriptions of
the forwarders that have not been joined. -/
structure Carries (c : Connection ε) (L : Link) (ids : List (Bytes 16)) (ks : List ℕ) : Prop where
  length_ids : ids.length = L.forwarders.length
  nextSubscriptionId : c.nextSubscriptionId = L.forwarders.length + 1
  bounded : L.forwarders.length + 1 < 2 ^ 128
  length_ks : ks.length = c.forwarders.length
  carried : ∀ (i : ℕ) (forwarder : Service.Forwarder) (k : ℕ), c.forwarders[i]? = some forwarder →
    ks[i]? = some k → Carried ids L.forwarders forwarder k
  nodup : ks.Nodup
  joined : ∀ (k : ℕ) (f : Forwarder), L.forwarders[k]? = some f → k ∉ ks → f.joined = true ∧
    f.stage = .returned
  events : List.Forall₂ (EncodesEvent ids) L.events c.events
  output : List.Forall₂ (Encodes ids) L.output c.output
  active_lt : ∀ k ∈ L.active, k < L.forwarders.length
  /-- What the loop is going to drop does not matter. -/
  active : ∀ id, Lives c id → (id ∈ c.active ↔ ∃ k ∈ L.active, wireId k = id)

/-- Where the loop is, if it has not ended. -/
def PhaseCarries (c : Connection ε) (L : Link) : Prop :=
  match c.phase with
  | .serving => L.phase = .serving ∧ ∀ id, id ∈ c.active ↔ ∃ k ∈ L.active, wireId k = id
  | .cancelling _ id => ∃ k < L.forwarders.length, L.phase = .cancelling k ∧ wireId k = id
  | .ended _ => False

/-- A connection and a link are in the same state; once they have ended, only what has been written
matters. -/
def Corresponds (c : Connection ε) (L : Link) : Prop :=
  (∃ ids ks, Carries c L ids ks ∧ PhaseCarries c L) ∨
    ((∃ outcome, c.phase = .ended outcome) ∧ L.phase = .ended ∧
      ∃ ids, List.Forall₂ (Encodes ids) L.output c.output)

/-! ## The forwarders -/

section Forwarders

variable {c c' : Connection ε} {L : Link} {ids : List (Bytes 16)} {ks : List ℕ} {k i : ℕ}
  {forwarder : Service.Forwarder} {f f' : Forwarder}

theorem Carried.lt (h : Carried ids L.forwarders forwarder k) : k < L.forwarders.length := by
  obtain ⟨f, hf, -⟩ := h.task
  exact (List.getElem?_eq_some_iff.mp hf).1

/-- Between two steps of the connection, what is closed has returned. -/
theorem closed_eq_false_iff {phase : ForwarderPhase} (h : f.stage = stageOf phase) :
    f.closed = false ↔ stageOf phase ≠ .returned := by
  rw [Forwarder.closed, h]
  cases phase <;> decide

theorem Carries.exists_carried (h : Carries c L ids ks) (hi : c.forwarders[i]? = some forwarder) :
    ∃ k, ks[i]? = some k ∧ Carried ids L.forwarders forwarder k := by
  have hlt : i < ks.length := h.length_ks ▸ (List.getElem?_eq_some_iff.mp hi).1
  exact ⟨ks[i], List.getElem?_eq_getElem hlt, h.carried i _ _ hi (List.getElem?_eq_getElem hlt)⟩

theorem Carries.exists_forwarder (h : Carries c L ids ks) (hk : k ∈ ks) :
    ∃ forwarder ∈ c.forwarders, Carried ids L.forwarders forwarder k := by
  obtain ⟨i, hlt, rfl⟩ := List.getElem_of_mem hk
  have hlt' : i < c.forwarders.length := h.length_ks ▸ hlt
  exact ⟨c.forwarders[i], List.getElem_mem hlt',
    h.carried i _ _ (List.getElem?_eq_getElem hlt') (List.getElem?_eq_getElem hlt)⟩

theorem Carries.wireId_inj (h : Carries c L ids ks) {k k' : ℕ} (hk : k < L.forwarders.length)
    (hk' : k' < L.forwarders.length) (heq : wireId k = wireId k') : k = k' := by
  have hbounded := h.bounded
  exact (Emission.wireId_inj (by omega) (by omega)).mp heq

/-- The forwarders that have not returned are the same. -/
theorem Carries.lives_iff (h : Carries c L ids ks) (hk : k < L.forwarders.length) :
    Lives c (wireId k) ↔ L.forwarders[k]?.any (!·.closed) = true := by
  constructor
  · rintro ⟨forwarder, hmem, hid, hlive⟩
    obtain ⟨i, hlt, rfl⟩ := List.getElem_of_mem hmem
    obtain ⟨k', -, hcarried⟩ := h.exists_carried (List.getElem?_eq_getElem hlt)
    obtain rfl := h.wireId_inj hcarried.lt hk (hcarried.identity.symm.trans hid)
    obtain ⟨f, hf, hstage, -, -⟩ := hcarried.task
    rw [hf, Option.any_some, (closed_eq_false_iff hstage).mpr hlive]
    rfl
  · intro hany
    obtain ⟨f, hf, hclosed⟩ := (Option.any_eq_true _ _).mp hany
    rw [Bool.not_eq_true'] at hclosed
    by_cases hmem : k ∈ ks
    · obtain ⟨forwarder, hforwarder, hcarried⟩ := h.exists_forwarder hmem
      obtain ⟨f', hf', hstage, -, -⟩ := hcarried.task
      obtain rfl := Option.some_inj.mp (hf.symm.trans hf')
      exact ⟨forwarder, hforwarder, hcarried.identity, (closed_eq_false_iff hstage).mp hclosed⟩
    · rw [Forwarder.closed, (h.joined k f hf hmem).2] at hclosed
      exact absurd hclosed (by decide)

/-- What the loop does before it waits again. -/
theorem Carries.retain (h : Carries c L ids ks) : Carries c.retain L.retain ids ks ∧
    ∀ id, id ∈ c.retain.active ↔ ∃ k ∈ L.retain.active, wireId k = id := by
  have hlives : ∀ id, id ∈ c.retain.active ↔ id ∈ c.active ∧ Lives c id := by
    intro id
    simp only [Connection.retain, List.mem_filter, List.any_eq_true, Lives]
    refine and_congr_right fun _ ↦ exists_congr fun forwarder ↦ and_congr_right fun _ ↦ ?_
    cases forwarder.phase <;> simp [stageOf]
  have hactive : ∀ id, id ∈ c.retain.active ↔ ∃ k ∈ L.retain.active, wireId k = id := by
    intro id
    rw [hlives]
    constructor
    · rintro ⟨hmem, hlive⟩
      obtain ⟨k, hk, rfl⟩ := (h.active id hlive).mp hmem
      exact ⟨k, List.mem_filter.mpr ⟨hk, (h.lives_iff (h.active_lt k hk)).mp hlive⟩, rfl⟩
    · rintro ⟨k, hk, rfl⟩
      obtain ⟨hmem, hany⟩ := List.mem_filter.mp hk
      have hlive := (h.lives_iff (h.active_lt k hmem)).mpr hany
      exact ⟨(h.active _ hlive).mpr ⟨k, hmem, rfl⟩, hlive⟩
  exact ⟨{ h with
    active_lt := fun k hk ↦ h.active_lt k (List.mem_filter.mp hk).1
    active := fun id _ ↦ hactive id }, hactive⟩

/-- A connection that drops what has returned before the link does. -/
theorem Carries.retain_left (h : Carries c L ids ks) : Carries c.retain L ids ks := by
  refine { h with active := fun id hlive ↦ (Iff.trans ?_ (h.active id hlive)) }
  obtain ⟨forwarder, hmem, hid, hstage⟩ := hlive
  simp only [Connection.retain, List.mem_filter, List.any_eq_true, and_iff_left_iff_imp]
  refine fun _ ↦ ⟨forwarder, hmem, ?_⟩
  rw [decide_eq_true hid]
  cases hphase : forwarder.phase with
  | returned => exact absurd (by rw [hphase]; rfl) hstage
  | polling | overflowing => rfl

/-- A forwarder goes on. -/
theorem Carries.setForwarder (h : Carries c L ids ks) {phase : ForwarderPhase}
    (hi : c.forwarders[i]? = some forwarder) (hk : ks[i]? = some k)
    (hstage : f'.stage = stageOf phase)
    (hcancelled : f'.cancelled = forwarder.cancelled) (hjoined : f'.joined = false)
    (hlive : stageOf phase ≠ .returned → stageOf forwarder.phase ≠ .returned) :
    Carries (c.setPhase i forwarder phase) (L.setForwarder k f') ids ks := by
  have hcarried := h.carried i forwarder k hi hk
  have hlength : (L.setForwarder k f').forwarders.length = L.forwarders.length := List.length_set
  refine { h with
    length_ids := h.length_ids.trans hlength.symm
    nextSubscriptionId := by rw [hlength]; exact h.nextSubscriptionId
    bounded := by rw [hlength]; exact h.bounded
    length_ks := h.length_ks.trans List.length_set.symm
    carried := fun j forwarder' k' hj hk' ↦ ?_
    joined := fun k' f₁ hf hmem ↦ ?_
    active_lt := fun k hk ↦ by rw [hlength]; exact h.active_lt k hk
    active := fun id hid ↦ h.active id ?_ }
  · by_cases hij : i = j
    · subst hij
      obtain rfl := Option.some_inj.mp (hk.symm.trans hk')
      rw [Connection.setPhase, List.getElem?_set_self (List.getElem?_eq_some_iff.mp hi).1] at hj
      obtain rfl := Option.some_inj.mp hj
      exact ⟨hcarried.identity, hcarried.correlation, f',
        List.getElem?_set_self hcarried.lt, hstage, hcancelled, hjoined⟩
    · rw [Connection.setPhase, List.getElem?_set_ne hij] at hj
      obtain ⟨f₁, hf₁, hrest⟩ := (h.carried j forwarder' k' hj hk').task
      have hne : k ≠ k' := fun heq ↦ hij ((List.getElem?_inj (List.getElem?_eq_some_iff.mp hk).1
        h.nodup).mp (hk.trans (heq ▸ hk'.symm)))
      exact ⟨(h.carried j forwarder' k' hj hk').identity,
        (h.carried j forwarder' k' hj hk').correlation, f₁,
        (List.getElem?_set_ne hne).trans hf₁, hrest⟩
  · have hne : k ≠ k' := fun heq ↦ hmem (heq ▸ List.mem_of_getElem? hk)
    exact h.joined k' f₁ ((List.getElem?_set_ne hne).symm.trans hf) hmem
  · obtain ⟨forwarder', hmem, hid, hlives⟩ := hid
    rcases List.mem_or_eq_of_mem_set hmem with hold | rfl
    · exact ⟨forwarder', hold, hid, hlives⟩
    · exact ⟨forwarder, List.mem_of_getElem? hi, hid, hlive hlives⟩

/-- A forwarder puts an event into the queue. -/
theorem Carries.send (h : Carries c L ids ks) {message : Message} {event : ConnectionEvent}
    (hevent : EncodesEvent ids (k, message) event) :
    Carries (c.send event) { L with events := L.events ++ [(k, message)] } ids ks :=
  { h with events := List.rel_append h.events (.cons hevent .nil) }

/-- A count over a list is one over its positions. -/
theorem countP_eq_range {α : Type} (q : α → Bool) (l : List α) :
    l.countP q = (List.range l.length).countP fun k ↦ l[k]?.any q := by
  induction l using List.reverseRecOn with
  | nil => rfl
  | append_singleton l a ih =>
    rw [List.countP_append, List.length_append, List.length_singleton, List.range_succ,
      List.countP_append, ih]
    congr 1
    · refine List.countP_congr fun k hk ↦ ?_
      rw [List.getElem?_append_left (List.mem_range.mp hk)]
    · simp

/-- A count over the forwarders is one over the subscriptions. -/
theorem Carries.countP_eq (h : Carries c L ids ks) {p : Service.Forwarder → Bool}
    {q : Forwarder → Bool}
    (hpq : ∀ forwarder k f, Carried ids L.forwarders forwarder k → L.forwarders[k]? = some f →
      p forwarder = q f)
    (hjoined : ∀ f : Forwarder, f.joined = true → f.stage = .returned → q f = false) :
    c.forwarders.countP p = L.forwarders.countP q := by
  have hcarried : List.Forall₂ (Carried ids L.forwarders) c.forwarders ks := by
    refine List.forall₂_iff_get.mpr ⟨h.length_ks.symm, fun i hi hi' ↦ ?_⟩
    exact h.carried i _ _ (List.getElem?_eq_getElem hi) (List.getElem?_eq_getElem hi')
  have hks : c.forwarders.countP p = ks.countP fun k ↦ L.forwarders[k]?.any q := by
    generalize c.forwarders = forwarders at hcarried
    clear h
    induction hcarried with
    | nil => rfl
    | cons hhead _ ih =>
      obtain ⟨f, hf, -⟩ := hhead.task
      rw [List.countP_cons, List.countP_cons, ih, hf, Option.any_some, hpq _ _ f hhead hf]
  have hperm : ((List.range L.forwarders.length).filter fun k ↦ L.forwarders[k]?.any q).Perm
      (ks.filter fun k ↦ L.forwarders[k]?.any q) := by
    refine (List.perm_ext_iff_of_nodup (List.nodup_range.filter _) (h.nodup.filter _)).mpr
      fun k ↦ ?_
    rw [List.mem_filter, List.mem_filter]
    refine and_congr_left fun hany ↦ ⟨fun _ ↦ ?_, fun hk ↦ ?_⟩
    · obtain ⟨f, hf, hq⟩ := (Option.any_eq_true _ _).mp hany
      by_contra hmem
      obtain ⟨hj, hstage⟩ := h.joined k f hf hmem
      rw [hjoined f hj hstage] at hq
      exact absurd hq (by decide)
    · obtain ⟨forwarder, -, hcarried⟩ := h.exists_forwarder hk
      exact List.mem_range.mpr hcarried.lt
  rw [hks, countP_eq_range q, List.countP_eq_length_filter, List.countP_eq_length_filter,
    hperm.length_eq]

/-- As many overflows wait for room. -/
theorem Carries.overflows_eq (h : Carries c L ids ks) : c.overflows = L.overflows := by
  refine h.countP_eq (fun forwarder k f hcarried hf ↦ ?_) fun f _ hstage ↦ ?_
  · obtain ⟨f', hf', hstage, -⟩ := hcarried.task
    obtain rfl := Option.some_inj.mp (hf.symm.trans hf')
    rw [hstage]
    cases forwarder.phase <;> rfl
  · rw [hstage]
    rfl

/-- As many forwarders have not been joined. -/
theorem Carries.length_eq (h : Carries c L ids ks) :
    c.forwarders.length = L.forwarders.countP (!·.joined) := by
  rw [← List.countP_true]
  refine h.countP_eq (fun forwarder k f hcarried hf ↦ ?_) fun f hj _ ↦ ?_
  · obtain ⟨f', hf', -, -, hjoined⟩ := hcarried.task
    obtain rfl := Option.some_inj.mp (hf.symm.trans hf')
    rw [hjoined]
    rfl
  · rw [hj]
    rfl

end Forwarders

/-! ## The loop -/

/-- The link comes to a state in some steps. -/
abbrev Reaches : Link → Link → Prop := Transition.Leads Link.step fun _ ↦ True

theorem reaches_of_step {L L' : Link} {a : LinkAction} (h : L.step a = some L') :
    Reaches L L' :=
  Transition.leads_of_step trivial h

section Loop

variable {c c' : Connection ε} {L : Link} {ids : List (Bytes 16)} {ks : List ℕ} {k i : ℕ}
  {fault : Option ε} {request : Envelope} {frame : Frame} {body : List UInt8}

theorem Carries.leave (h : Carries c L ids ks) (hopen : L.phase ≠ .ended)
    {outcome : Except (ConnectionError ε) Unit} (hphase : c'.phase = .ended outcome)
    (houtput : c'.output = c.output) : ∃ L', Reaches L L' ∧ Corresponds c' L' :=
  ⟨{ L with phase := .ended }, reaches_of_step (a := .leave) (if_neg hopen),
    Or.inr ⟨⟨outcome, hphase⟩, rfl, ids, houtput ▸ h.output⟩⟩

/-- The loop has written a frame. -/
theorem Carries.settle (h : Carries c L ids ks) (hserving : c.phase = .serving)
    (frame : Frame) (hbody : Encodes ids frame body) (responses : List (List UInt8)) :
    Corresponds { c with output := c.output ++ [body], responses }.retain
      (L.settle frame true) := by
  have houtput : { L with log := L.log ++ [(frame, true)] }.output = L.output ++ [frame] := by
    simp [Link.output]
  have hcarries : Carries { c with output := c.output ++ [body], responses }
      { L with phase := .serving, log := L.log ++ [(frame, true)] } ids ks :=
    { h with output := houtput ▸ List.rel_append h.output (.cons hbody .nil) }
  refine Or.inl ⟨ids, ks, hcarries.retain.1, ?_⟩
  rw [PhaseCarries]
  simp only [Connection.retain, hserving]
  exact ⟨rfl, hcarries.retain.2⟩

/-- The loop has left out a frame. -/
theorem Carries.omit (h : Carries c L ids ks) (hserving : c.phase = .serving) (frame : Frame) :
    Corresponds c.retain (L.settle frame false) := by
  have houtput : { L with log := L.log ++ [(frame, false)] }.output = L.output := by
    simp [Link.output]
  have hcarries : Carries c { L with phase := .serving, log := L.log ++ [(frame, false)] } ids ks :=
    { h with output := houtput ▸ h.output }
  refine Or.inl ⟨ids, ks, hcarries.retain.1, ?_⟩
  rw [PhaseCarries]
  simp only [Connection.retain, hserving]
  exact ⟨rfl, hcarries.retain.2⟩

/-- A response to a request. -/
theorem Carries.reply (h : Carries c L ids ks) (hserving : c.phase = .serving)
    (hlink : L.phase = .serving) {reply : Except HandlerError (List UInt8)}
    (hplain : ∀ body, reply = .ok body → Plain body) :
    ∃ L', Reaches L L' ∧ Corresponds (c.reply fault reply).retain L' := by
  have hopen : L.phase ≠ .ended := by rw [hlink]; decide
  rw [Connection.reply.eq_def]
  split
  · exact h.leave hopen rfl rfl
  · rename_i body
    split
    · exact h.leave hopen rfl rfl
    · rename_i output hwrite
      obtain rfl := writeFrame_eq_ok hwrite
      refine ⟨L.settle .response true, ?_,
        h.settle hserving .response (hplain body rfl) _⟩
      exact (reaches_of_step (a := .receive) (if_pos hlink)).trans
        (reaches_of_step (a := .respond) rfl)

theorem Carries.errorResponse (h : Carries c L ids ks) (hserving : c.phase = .serving)
    (hlink : L.phase = .serving) (code : UpdateErrorCode) :
    ∃ L', Reaches L L' ∧ Corresponds (c.reply fault (errorResponse request code)).retain L' :=
  h.reply hserving hlink fun _ ↦ plain_of_responds (responds_errorResponse code)

/-- The response to a cancellation, when the loop serves, or when it has waited for the
forwarder. -/
theorem Carries.respondCancelled (h : Carries c L ids ks) (hserving : c.phase = .serving)
    (hopen : L.phase ≠ .ended) {a : LinkAction}
    (hstep : L.step a = some (L.settle (.cancelled k) true)) :
    ∃ L', Reaches L L' ∧ Corresponds (c.respondCancelled fault request (wireId k)).retain L' := by
  rw [Connection.respondCancelled, Connection.reply.eq_def]
  split
  · exact h.leave hopen rfl rfl
  · rename_i body hresponse
    split
    · exact h.leave hopen rfl rfl
    · rename_i output hwrite
      obtain rfl := writeFrame_eq_ok hwrite
      exact ⟨_, reaches_of_step hstep,
        h.settle hserving (.cancelled k) ⟨request.correlationId, mapError_eq_ok.mp hresponse⟩ _⟩

/-- A forwarder more. -/
theorem Carries.subscribe (h : Carries c L ids ks)
    (hactive : ∀ id, id ∈ c.active ↔ ∃ k ∈ L.active, wireId k = id) (correlationId : Bytes 16)
    {following : ℕ} (hnext : checkedAdd 128 c.nextSubscriptionId 1 = some following)
    (receiver : ℕ) :
    Carries { c with
        nextSubscriptionId := following
        active := c.active ++ [wireId L.forwarders.length]
        forwarders := c.forwarders ++
          [⟨wireId L.forwarders.length, correlationId, false, .polling⟩] }
      { L with
        forwarders := L.forwarders ++ [Forwarder.start receiver]
        active := L.active ++ [L.forwarders.length] }
      (ids ++ [correlationId]) (ks ++ [L.forwarders.length]) := by
  obtain ⟨hbounded, rfl⟩ := checkedAdd_eq_some_iff.mp hnext
  rw [h.nextSubscriptionId] at hbounded
  have hlt : ∀ k ∈ ks, k < L.forwarders.length := fun k hk ↦ by
    obtain ⟨forwarder, -, hcarried⟩ := h.exists_forwarder hk
    exact hcarried.lt
  have hnew : L.forwarders.length ∉ ks := fun hmem ↦ lt_irrefl _ (hlt _ hmem)
  refine
    { length_ids := by simp [h.length_ids]
      nextSubscriptionId := by simp [h.nextSubscriptionId]
      bounded := by simpa using hbounded
      length_ks := by simp [h.length_ks]
      carried := fun i forwarder k hi hk ↦ ?_
      nodup := by
        rw [← List.concat_eq_append]
        exact h.nodup.concat hnew
      joined := fun k f hf hmem ↦ ?_
      events := h.events.imp fun _ _ hevent ↦ hevent.append _
      output := h.output.imp fun _ _ hframe ↦ hframe.append _
      active_lt := fun k hk ↦ ?_
      active := fun id _ ↦ ?_ }
  · rcases Nat.lt_or_ge i c.forwarders.length with hold | hold
    · rw [List.getElem?_append_left hold] at hi
      rw [List.getElem?_append_left (h.length_ks ▸ hold)] at hk
      obtain ⟨hidentity, hcorrelation, f, hf, hrest⟩ := h.carried i forwarder k hi hk
      exact ⟨hidentity, getElem?_append_of_mem hcorrelation _, f,
        (List.getElem?_append_left (List.getElem?_eq_some_iff.mp hf).1).trans hf, hrest⟩
    · rw [List.getElem?_append_right hold, List.getElem?_singleton] at hi
      rw [List.getElem?_append_right (h.length_ks ▸ hold), h.length_ks,
        List.getElem?_singleton] at hk
      split at hi
      · rename_i hzero
        rw [if_pos hzero] at hk
        obtain rfl := Option.some_inj.mp hi
        obtain rfl := Option.some_inj.mp hk
        exact ⟨rfl, by rw [← h.length_ids, List.getElem?_concat_length], Forwarder.start receiver,
          List.getElem?_concat_length, rfl, rfl, rfl⟩
      · exact absurd hi (by simp)
  · rw [List.mem_append, List.mem_singleton, not_or] at hmem
    rcases Nat.lt_or_ge k L.forwarders.length with hold | hold
    · exact h.joined k f ((List.getElem?_append_left hold).symm.trans hf) hmem.1
    · rw [List.getElem?_append_right hold, List.getElem?_singleton] at hf
      split at hf
      · exact absurd (by omega) hmem.2
      · exact absurd hf (by simp)
  · rw [List.length_append, List.length_singleton]
    rcases List.mem_append.mp hk with hk | hk
    · exact Nat.lt_succ_of_lt (h.active_lt k hk)
    · rw [List.mem_singleton.mp hk]
      exact Nat.lt_succ_self _
  · rw [List.mem_append, List.mem_singleton, hactive]
    constructor
    · rintro (⟨k, hk, rfl⟩ | rfl)
      · exact ⟨k, List.mem_append_left _ hk, rfl⟩
      · exact ⟨_, List.mem_append_right _ (List.mem_singleton_self _), rfl⟩
    · rintro ⟨k, hk, rfl⟩
      rcases List.mem_append.mp hk with hk | hk
      · exact Or.inl ⟨k, hk, rfl⟩
      · exact Or.inr (by rw [List.mem_singleton.mp hk])

/-- The acknowledgement of a subscription. -/
theorem Carries.acknowledge (h : Carries c L ids ks) (hserving : c.phase = .serving)
    (hlink : L.phase = .serving) (hactive : ∀ id, id ∈ c.active ↔ ∃ k ∈ L.active, wireId k = id)
    {following : ℕ} (hnext : checkedAdd 128 c.nextSubscriptionId 1 = some following)
    (hroom : c.forwarders.length < maxUpdateSubscriptionsPerChannel) :
    ∃ L', Reaches L L' ∧ Corresponds ({ c with nextSubscriptionId := following }.acknowledge fault
      request ⟨.ofNat identifierLength c.nextSubscriptionId⟩).retain L' := by
  have hopen : L.phase ≠ .ended := by rw [hlink]; decide
  have hid : (⟨.ofNat identifierLength c.nextSubscriptionId⟩ : UpdateSubscriptionId) =
      wireId L.forwarders.length := by
    rw [h.nextSubscriptionId]
    rfl
  rw [hid, Connection.acknowledge]
  split
  · exact h.leave hopen rfl rfl
  · rename_i body hresponse
    split
    · exact h.leave hopen rfl rfl
    · rename_i output hwrite
      obtain rfl := writeFrame_eq_ok hwrite
      have hcarries := h.subscribe hactive request.correlationId hnext 0
      have hcorrelation : request.correlationId ∈
          (ids ++ [request.correlationId])[L.forwarders.length]? := by
        rw [← h.length_ids, List.getElem?_concat_length]
        rfl
      refine ⟨_, ?_, hcarries.settle hserving (.acknowledgement L.forwarders.length)
        ⟨request.correlationId, hcorrelation, mapError_eq_ok.mp hresponse⟩ _⟩
      have hlinkRoom : L.hasRoom = true := by
        rw [Link.hasRoom, ← h.length_eq, ← h.nextSubscriptionId, hnext, decide_eq_true hroom]
        rfl
      exact (reaches_of_step (a := .subscribe 0) (if_pos ⟨hlink, hlinkRoom⟩)).trans
        (reaches_of_step (a := .acknowledge 0) rfl)

/-- The `SUBSCRIBE_UPDATES` arm. -/
theorem Carries.subscribeArm (h : Carries c L ids ks) (hserving : c.phase = .serving)
    (hlink : L.phase = .serving) (hactive : ∀ id, id ∈ c.active ↔ ∃ k ∈ L.active, wireId k = id)
    (sha256 : List UInt8 → Bytes verifierLength) (s : DurableUpdateStore)
    (channel : BrokerChannel) :
    ∃ L', Reaches L L' ∧ Corresponds (c.subscribe sha256 s channel fault request).retain L' := by
  rw [Connection.subscribe]
  split
  · exact h.errorResponse hserving hlink .malformed
  · split
    · exact h.errorResponse hserving hlink .backpressure
    · rename_i hroom
      split
      · exact h.errorResponse hserving hlink .backpressure
      · rename_i hnext
        split
        · exact h.errorResponse hserving hlink .authorizationDenied
        · exact h.errorResponse hserving hlink .backpressure
        · exact h.acknowledge hserving hlink hactive hnext (not_le.mp hroom)

/-- The cancellation of a forwarder is sent. -/
theorem Carries.cancel (h : Carries c L ids ks)
    (hactive : ∀ id, id ∈ c.active ↔ ∃ k ∈ L.active, wireId k = id) (hk : k < L.forwarders.length) :
    Carries { c with
        active := c.active.filter (· ≠ wireId k)
        forwarders := c.forwarders.map fun forwarder ↦
          if forwarder.subscriptionId = wireId k then { forwarder with cancelled := true }
          else forwarder }
      { L with
        active := L.active.filter (· ≠ k)
        forwarders := L.forwarders.modify k fun f ↦ { f with cancelled := true } } ids ks := by
  have hlength : (L.forwarders.modify k fun f ↦ { f with cancelled := true }).length =
      L.forwarders.length := List.length_modify ..
  refine
    { length_ids := h.length_ids.trans hlength.symm
      nextSubscriptionId := by rw [hlength]; exact h.nextSubscriptionId
      bounded := by rw [hlength]; exact h.bounded
      length_ks := h.length_ks.trans (List.length_map _).symm
      carried := fun i forwarder' k' hi hk' ↦ ?_
      nodup := h.nodup
      joined := fun k' f hf hmem ↦ ?_
      events := h.events
      output := h.output
      active_lt := fun k' hk' ↦ by rw [hlength]; exact h.active_lt k' (List.mem_filter.mp hk').1
      active := fun id _ ↦ ?_ }
  · rw [List.getElem?_map] at hi
    obtain ⟨forwarder, hforwarder, rfl⟩ := Option.map_eq_some_iff.mp hi
    have hcarried := h.carried i forwarder k' hforwarder hk'
    obtain ⟨f, hf, hstage, hcancelled, hjoined⟩ := hcarried.task
    by_cases heq : k' = k
    · subst heq
      rw [if_pos hcarried.identity]
      refine ⟨hcarried.identity, hcarried.correlation, { f with cancelled := true }, ?_,
        hstage, rfl, hjoined⟩
      rw [List.getElem?_modify_eq, hf]
      rfl
    · rw [if_neg fun hid ↦ heq (h.wireId_inj hcarried.lt hk (hcarried.identity.symm.trans hid))]
      exact ⟨hcarried.identity, hcarried.correlation, f,
        (List.getElem?_modify_ne _ _ (Ne.symm heq)).trans hf, hstage, hcancelled, hjoined⟩
  · by_cases heq : k' = k
    · subst heq
      rw [List.getElem?_modify_eq] at hf
      obtain ⟨f₀, hf₀, rfl⟩ := Option.map_eq_some_iff.mp hf
      exact h.joined k' f₀ hf₀ hmem
    · exact h.joined k' f ((List.getElem?_modify_ne _ _ (Ne.symm heq)).symm.trans hf) hmem
  · rw [List.mem_filter, decide_eq_true_eq, hactive]
    constructor
    · rintro ⟨⟨k', hk', rfl⟩, hne⟩
      exact ⟨k', List.mem_filter.mpr ⟨hk', decide_eq_true fun heq ↦ hne (heq ▸ rfl)⟩, rfl⟩
    · rintro ⟨k', hk', rfl⟩
      obtain ⟨hmem, hne⟩ := List.mem_filter.mp hk'
      exact ⟨⟨k', hmem, rfl⟩, fun heq ↦
        of_decide_eq_true hne (h.wireId_inj (h.active_lt k' hmem) hk heq)⟩

/-- The `CANCEL_UPDATE_SUBSCRIPTION` arm. -/
theorem Carries.cancelArm (h : Carries c L ids ks) (hserving : c.phase = .serving)
    (hlink : L.phase = .serving) (hactive : ∀ id, id ∈ c.active ↔ ∃ k ∈ L.active, wireId k = id) :
    ∃ L', Reaches L L' ∧ Corresponds (c.cancel fault request).retain L' := by
  have hopen : L.phase ≠ .ended := by rw [hlink]; decide
  rw [Connection.cancel]
  split
  · exact h.errorResponse hserving hlink .malformed
  · rename_i id _
    split
    · rename_i hmem
      obtain ⟨k, hk, rfl⟩ := (hactive id).mp hmem
      have hlt := h.active_lt k hk
      have hcarries := h.cancel hactive hlt
      have hstep : L.step (.cancel k) = some { L with
          phase := .cancelling k
          active := L.active.filter (· ≠ k)
          forwarders := L.forwarders.modify k fun f ↦ { f with cancelled := true } } := by
        rw [Link.step, if_pos hlink, Link.cancel, if_pos hk]
      refine ⟨_, reaches_of_step hstep, Or.inl ⟨ids, ks, { hcarries.retain_left with }, ?_⟩⟩
      exact ⟨k, by rw [List.length_modify]; exact hlt, rfl, rfl⟩
    · rename_i hmem
      obtain ⟨k, rfl⟩ := exists_wireId id
      have hnot : k ∉ L.active := fun hk ↦ hmem ((hactive _).mpr ⟨k, hk, rfl⟩)
      refine h.respondCancelled (a := .cancel k) hserving hopen ?_
      rw [Link.step, if_pos hlink, Link.cancel, if_neg hnot]

/-- A request. -/
theorem Carries.serve (h : Carries c L ids ks) (hserving : c.phase = .serving)
    (hlink : L.phase = .serving) (hactive : ∀ id, id ∈ c.active ↔ ∃ k ∈ L.active, wireId k = id)
    (sha256 : List UInt8 → Bytes verifierLength) (s : DurableUpdateStore) (channel : BrokerChannel)
    (surroundings : Surroundings) :
    ∃ L', Reaches L L' ∧
      Corresponds (c.serve sha256 s channel surroundings fault request).retain L' := by
  rw [Connection.serve]
  split_ifs
  · exact h.subscribeArm hserving hlink hactive sha256 s channel
  · exact h.cancelArm hserving hlink hactive
  · exact h.reply hserving hlink fun _ ↦
      plain_of_responds (handleRequest_responds sha256 s channel request _)

/-- The arm of the loop that receives a request. -/
theorem Carries.receiveRequest (h : Carries c L ids ks) (hserving : c.phase = .serving)
    (hlink : L.phase = .serving) (hactive : ∀ id, id ∈ c.active ↔ ∃ k ∈ L.active, wireId k = id)
    {sha256 : List UInt8 → Bytes verifierLength} {s : DurableUpdateStore} {channel : BrokerChannel}
    {surroundings : Surroundings}
    (hstep : c.receiveRequest sha256 s channel surroundings fault = some c') :
    ∃ L', Reaches L L' ∧ Corresponds c' L' := by
  have hopen : L.phase ≠ .ended := by rw [hlink]; decide
  rw [Connection.receiveRequest.eq_def] at hstep
  split at hstep
  · split at hstep
    · exact absurd hstep (by simp)
    · obtain rfl := Option.some_inj.mp hstep
      exact h.leave hopen rfl rfl
  · obtain rfl := Option.some_inj.mp hstep
    exact h.leave hopen rfl rfl
  · obtain rfl := Option.some_inj.mp hstep
    exact h.leave hopen rfl rfl
  · split at hstep
    · obtain rfl := Option.some_inj.mp hstep
      exact h.leave hopen rfl rfl
    · rename_i requests _ _ _ _
      obtain rfl := Option.some_inj.mp hstep
      have hrest : Carries { c with requests } L ids ks := { h with }
      exact hrest.serve hserving hlink hactive sha256 s channel surroundings

/-- The rest of the `CANCEL_UPDATE_SUBSCRIPTION` arm. -/
theorem Carries.finishCancel (h : Carries c L ids ks) (hphase : PhaseCarries c L)
    (hstep : c.finishCancel fault = some c') : ∃ L', Reaches L L' ∧ Corresponds c' L' := by
  rw [Connection.finishCancel.eq_def] at hstep
  split at hstep
  · rename_i request id hcancelling
    rw [PhaseCarries, hcancelling] at hphase
    obtain ⟨k, hk, hlink, rfl⟩ := hphase
    have hopen : L.phase ≠ .ended := by rw [hlink]; simp
    split at hstep
    · rename_i hall
      obtain rfl := Option.some_inj.mp hstep
      have hrest : Carries { c with phase := .serving } L ids ks := { h with }
      refine hrest.respondCancelled (a := .finishCancel) rfl hopen ?_
      -- the forwarder that is waited for has returned, also if it has been joined
      obtain ⟨f, hf⟩ : ∃ f, L.forwarders[k]? = some f := ⟨_, List.getElem?_eq_getElem hk⟩
      have hreturned : f.stage = .returned := by
        by_cases hmem : k ∈ ks
        · obtain ⟨forwarder, hforwarder, hcarried⟩ := h.exists_forwarder hmem
          obtain ⟨f', hf', hstage, -⟩ := hcarried.task
          obtain rfl := Option.some_inj.mp (hf.symm.trans hf')
          have hdone := List.all_eq_true.mp hall forwarder hforwarder
          rw [hstage]
          cases hp : forwarder.phase with
          | returned => rfl
          | polling | overflowing => simp [hp, hcarried.identity] at hdone
        · exact (h.joined k f hf hmem).2
      simp only [Link.step, hlink]
      exact Link.task_eq_some_iff.mpr ⟨hopen, f, hf, hreturned, rfl⟩
    · exact absurd hstep (by simp)
  · exact absurd hstep (by simp)

/-- A notification leaves the queue, and the loop goes through the gate. -/
theorem reaches_dequeue {u : UpdateId} {events : List (ℕ × Message)} (authorized : Bool) {L' : Link}
    (hlink : L.phase = .serving) (hevents : L.events = (k, .notification u) :: events)
    (hnext : Reaches
      { L with phase := if authorized then .writing k u else .checking k u, events } L') :
    Reaches L L' := by
  have hdequeue : L.step .dequeue = some { L with phase := .entering k u, events } := by
    rw [Link.step, if_pos hlink, Link.dequeue, hevents]
  refine ((reaches_of_step hdequeue).trans (reaches_of_step (a := .enter) rfl)).trans ?_
  cases authorized with
  | false => exact hnext
  | true => exact (reaches_of_step (a := .checked true) rfl).trans hnext

/-- The arm of the loop that receives an event. -/
theorem Carries.receiveEvent (h : Carries c L ids ks) (hserving : c.phase = .serving)
    (hlink : L.phase = .serving) {authorized stalled : Bool}
    (hstep : c.receiveEvent authorized stalled fault = some c') :
    ∃ L', Reaches L L' ∧ Corresponds c' L' := by
  have hopen : L.phase ≠ .ended := by rw [hlink]; decide
  rw [Connection.receiveEvent.eq_def] at hstep
  split at hstep
  · exact absurd hstep (by simp)
  rename_i event events hevents
  obtain rfl := Option.some_inj.mp hstep
  have hqueue := h.events
  rw [hevents] at hqueue
  obtain ⟨⟨k, message⟩, messages, hevent, hrest, hmessages⟩ := List.forall₂_cons_right_iff.mp hqueue
  have htaken : Carries { c with events } { L with events := messages } ids ks :=
    { h with events := hrest }
  rw [Connection.writeConnectionEvent.eq_def]
  cases message with
  | notification u =>
    have hgated : event.gated = true := hevent.gated
    rw [hgated]
    split_ifs with hrefused hstalled
    · refine ⟨_, reaches_dequeue false hlink hmessages
        (reaches_of_step (a := .checked false) rfl), ?_⟩
      exact htaken.omit hserving (.event k (.notification u))
    · exact h.leave hopen rfl rfl
    · split
      · exact h.leave hopen rfl rfl
      · rename_i output hwrite
        obtain rfl := writeFrame_eq_ok hwrite
        refine ⟨_, reaches_dequeue true hlink hmessages
          (reaches_of_step (a := .written) rfl), ?_⟩
        exact htaken.settle hserving (.event k (.notification u)) hevent.encodes _
  | overflow | invalidated =>
    have hgated : event.gated = false := hevent.gated
    rw [hgated, if_neg (by simp), if_neg (by simp)]
    split
    · exact h.leave hopen rfl rfl
    · rename_i output hwrite
      obtain rfl := writeFrame_eq_ok hwrite
      refine ⟨_, reaches_of_step (a := .dequeue) ?_,
        htaken.settle hserving (.event k _) hevent.encodes _⟩
      rw [Link.step, if_pos hlink, Link.dequeue, hmessages]

/-- The arm of the loop that joins a forwarder. -/
theorem Carries.joinForwarder (h : Carries c L ids ks) (hserving : c.phase = .serving)
    (hlink : L.phase = .serving) (hstep : c.joinForwarder i = some c') :
    ∃ L', Reaches L L' ∧ Corresponds c' L' := by
  have hopen : L.phase ≠ .ended := by rw [hlink]; decide
  rw [Connection.joinForwarder.eq_def] at hstep
  split at hstep
  · rename_i id correlationId cancelled hi
    obtain rfl := Option.some_inj.mp hstep
    obtain ⟨k, hk, hcarried⟩ := h.exists_carried hi
    obtain ⟨f, hf, hstage, -, -⟩ := hcarried.task
    have hlength : (L.forwarders.set k { f with joined := true }).length = L.forwarders.length :=
      List.length_set
    have hkeep : ∀ j k' : ℕ, (ks.eraseIdx i)[j]? = some k' → k ≠ k' := by
      rintro j k' hj rfl
      rw [List.getElem?_eraseIdx] at hj
      have hlt := (List.getElem?_eq_some_iff.mp hk).1
      split at hj
      · have hji := (List.getElem?_inj hlt h.nodup).mp (hk.trans hj.symm)
        omega
      · have hji := (List.getElem?_inj hlt h.nodup).mp (hk.trans hj.symm)
        omega
    have hcarries : Carries { c with forwarders := c.forwarders.eraseIdx i }
        (L.setForwarder k { f with joined := true }) ids (ks.eraseIdx i) := by
      refine { h with
        length_ids := h.length_ids.trans hlength.symm
        nextSubscriptionId := h.nextSubscriptionId.trans (by rw [Link.setForwarder, hlength])
        bounded := by rw [Link.setForwarder, hlength]; exact h.bounded
        length_ks := by rw [List.length_eraseIdx, List.length_eraseIdx, h.length_ks]
        carried := fun j forwarder' k' hj hk' ↦ ?_
        nodup := h.nodup.sublist (List.eraseIdx_sublist ..)
        joined := fun k' f' hf' hmem ↦ ?_
        active_lt := fun k hk ↦ by rw [Link.setForwarder, hlength]; exact h.active_lt k hk
        active := fun id hlive ↦ h.active id ?_ }
      · have hne := hkeep j k' hk'
        obtain ⟨j', hj', hk'⟩ : ∃ j', c.forwarders[j']? = some forwarder' ∧ ks[j']? = some k' := by
          rw [List.getElem?_eraseIdx] at hj hk'
          split at hj
          · rename_i hlt
            rw [if_pos hlt] at hk'
            exact ⟨j, hj, hk'⟩
          · rename_i hlt
            rw [if_neg hlt] at hk'
            exact ⟨j + 1, hj, hk'⟩
        obtain ⟨hidentity, hcorrelation, f', hf', hrest⟩ := h.carried j' forwarder' k' hj' hk'
        exact ⟨hidentity, hcorrelation, f', (List.getElem?_set_ne hne).trans hf', hrest⟩
      · by_cases heq : k = k'
        · subst heq
          rw [Link.setForwarder, List.getElem?_set_self hcarried.lt] at hf'
          obtain rfl := Option.some_inj.mp hf'
          exact ⟨rfl, hstage⟩
        · refine h.joined k' f' ((List.getElem?_set_ne heq).symm.trans hf') fun hold ↦ hmem ?_
          obtain ⟨j, hlt, rfl⟩ := List.getElem_of_mem hold
          refine List.mem_eraseIdx_iff_getElem?.mpr ⟨j, fun hji ↦ heq ?_,
            List.getElem?_eq_getElem hlt⟩
          exact Option.some_inj.mp (hk.symm.trans (hji ▸ List.getElem?_eq_getElem hlt))
      · obtain ⟨forwarder', hmem, hid, hlives⟩ := hlive
        exact ⟨forwarder', (List.eraseIdx_sublist ..).subset hmem, hid, hlives⟩
    have hjoin : L.step (.join k) = some (L.setForwarder k { f with joined := true }).retain := by
      rw [Link.step, if_pos hlink]
      exact Link.task_eq_some_iff.mpr ⟨hopen, f, hf, hstage, rfl⟩
    refine ⟨_, reaches_of_step hjoin, Or.inl ⟨ids, ks.eraseIdx i, hcarries.retain.1, ?_⟩⟩
    rw [PhaseCarries]
    simp only [Connection.retain, hserving]
    exact ⟨hlink, hcarries.retain.2⟩
  · exact absurd hstep (by simp)

end Loop

/-! ## The forwarders -/

section Tasks

variable {c c' : Connection ε} {L : Link} {ids : List (Bytes 16)} {ks : List ℕ} {k i : ℕ}
  {forwarder : Service.Forwarder} {f f' : Forwarder}

/-- Where the loop is does not depend on the stages of the forwarders. -/
theorem PhaseCarries.congr {L' : Link} (h : PhaseCarries c L) (hphase : c'.phase = c.phase)
    (hactive : c'.active = c.active) (hlink : L'.phase = L.phase)
    (hlinkActive : L'.active = L.active)
    (hlength : L'.forwarders.length = L.forwarders.length) : PhaseCarries c' L' := by
  rw [PhaseCarries, hphase, hactive, hlink, hlinkActive, hlength]
  exact h

theorem PhaseCarries.ne_ended (h : PhaseCarries c L) : L.phase ≠ .ended := by
  rw [PhaseCarries] at h
  split at h
  · rw [h.1]
    decide
  · obtain ⟨k, -, hlink, -⟩ := h
    rw [hlink]
    simp
  · exact absurd h id

/-- A forwarder that is returning returns. -/
theorem reaches_finish (hopen : L.phase ≠ .ended) (hlt : k < L.forwarders.length)
    (hstage : f.stage = .returning) :
    Reaches (L.setForwarder k f) (L.setForwarder k { f with stage := .returned }) := by
  refine reaches_of_step (a := .finish k) (Link.task_eq_some_iff.mpr ⟨hopen, f, ?_, hstage, ?_⟩)
  · exact List.getElem?_set_self hlt
  · simp only [Link.setForwarder, List.set_set]

/-- A forwarder that goes on in a few steps of the link, up to a stage of the connection. -/
theorem Carries.goOn (h : Carries c L ids ks) (hphase : PhaseCarries c L) {phase : ForwarderPhase}
    (hi : c.forwarders[i]? = some forwarder) (hk : ks[i]? = some k)
    (hreaches : Reaches L (L.setForwarder k f')) (hstage : f'.stage = stageOf phase)
    (hcancelled : f'.cancelled = forwarder.cancelled) (hjoined : f'.joined = false)
    (hlive : stageOf phase ≠ .returned → stageOf forwarder.phase ≠ .returned) :
    ∃ L', Reaches L L' ∧ Corresponds (c.setPhase i forwarder phase) L' :=
  ⟨_, hreaches, Or.inl ⟨ids, ks, h.setForwarder hi hk hstage hcancelled hjoined hlive,
    hphase.congr rfl rfl rfl rfl List.length_set⟩⟩

theorem setPhase_self (hi : c.forwarders[i]? = some forwarder) :
    c.setPhase i forwarder forwarder.phase = c := by
  obtain ⟨hlt, rfl⟩ := List.getElem?_eq_some_iff.mp hi
  show { c with forwarders := c.forwarders.set i c.forwarders[i] } = c
  rw [List.set_getElem_self]

theorem encode_fst_eq_iff {message : Message} {id : UpdateSubscriptionId} :
    (message.encode id).1 = updateNotification ↔ message.terminal = false := by
  cases message <;> simp only [Message.encode, Message.terminal] <;> decide

/-- A forwarder tries to send an event. -/
theorem Carries.trySend (h : Carries c L ids ks) (hphase : PhaseCarries c L)
    (hi : c.forwarders[i]? = some forwarder) (hk : ks[i]? = some k)
    (hf : L.forwarders[k]? = some f) (hpolling : f.stage = .polling) {poll : UpdateSubscriptionPoll}
    {message : Message} (hmessage : message? poll = some message) {full : Bool}
    (hstep : c.trySend i forwarder full (message.encode forwarder.subscriptionId) = some c') :
    ∃ L', Reaches L L' ∧ Corresponds c' L' := by
  have hopen := hphase.ne_ended
  have hcarried := h.carried i forwarder k hi hk
  obtain ⟨f₀, hf₀, hstage, hcancelled, hjoined⟩ := hcarried.task
  obtain rfl := Option.some_inj.mp (hf.symm.trans hf₀)
  have hlive : stageOf forwarder.phase ≠ .returned := by
    rw [← hstage, hpolling]
    decide
  have hhandle {L' : Link} (hsend : L.trySend k f poll message full = some L') :
      L.step (.handle k poll full) = some L' := by
    refine Link.task_eq_some_iff.mpr ⟨hopen, f, hf, hpolling, ?_⟩
    cases poll with
    | pending => exact absurd hmessage (by simp [message?])
    | notification u =>
      obtain rfl := Option.some_inj.mp hmessage
      exact hsend
    | invalidated ended =>
      rw [message?] at hmessage
      simp only [Link.handle, message?, hmessage]
      exact hsend
  have hqueue : c.events.length = L.events.length := h.events.length_eq.symm
  obtain ⟨body, hbody⟩ := exists_encodeBody forwarder.correlationId k message
  obtain ⟨overflow, hoverflow⟩ := exists_encodeBody forwarder.correlationId k .overflow
  have hevent : EncodesEvent ids (k, message) ⟨body, !message.terminal⟩ :=
    ⟨⟨forwarder.correlationId, hcarried.correlation, hbody⟩, rfl⟩
  rw [hcarried.identity] at hstep
  rw [Connection.trySend, hbody] at hstep
  dsimp only at hstep
  cases full with
  | true =>
    rw [if_pos rfl] at hstep
    split at hstep
    · exact absurd hstep (by simp)
    rename_i hroom
    have hencoded : Connection.overflowEvent forwarder = .ok overflow := by
      rw [Connection.overflowEvent, hcarried.identity]
      exact hoverflow
    rw [hencoded] at hstep
    obtain rfl := Option.some_inj.mp hstep
    have hreaches :
        Reaches L (L.setForwarder k { f with stage := .overflowing, refused := true }) := by
      refine reaches_of_step (hhandle ?_)
      rw [Link.trySend, if_pos rfl, ← hqueue, ← h.overflows_eq, if_neg hroom]
    exact h.goOn hphase hi hk hreaches rfl hcancelled hjoined fun _ ↦ hlive
  | false =>
    rw [if_neg (by simp)] at hstep
    split at hstep
    · exact absurd hstep (by simp)
    rename_i hroom
    have hcapacity : ¬connectionEventQueueCapacity ≤ L.events.length := hqueue ▸ hroom
    have hsent : ∀ (f₁ : Forwarder) (phase : ForwarderPhase), f₁.stage = stageOf phase →
        f₁.cancelled = f.cancelled → f₁.joined = f.joined →
        Carries ((c.setPhase i forwarder phase).send ⟨body, !message.terminal⟩)
          ({ L with events := L.events ++ [(k, message)] }.setForwarder k f₁) ids ks :=
      fun _ _ hstage₁ hcancelled₁ hjoined₁ ↦
        (h.setForwarder hi hk hstage₁ (hcancelled₁.trans hcancelled)
        (hjoined₁.trans hjoined) fun _ ↦ hlive).send hevent
    cases hterminal : message.terminal with
    | false =>
      rw [if_pos (encode_fst_eq_iff.mpr hterminal)] at hstep
      obtain rfl := Option.some_inj.mp hstep
      have hcarries := hsent { f with seen := f.seen ++ [poll] } forwarder.phase
        hstage rfl rfl
      rw [setPhase_self hi, hterminal] at hcarries
      refine ⟨_, reaches_of_step (hhandle ?_), Or.inl ⟨ids, ks, hcarries,
        hphase.congr rfl rfl rfl rfl List.length_set⟩⟩
      rw [Link.trySend, if_neg (by simp), if_neg hcapacity]
      exact if_neg (by simp [hterminal])
    | true =>
      rw [if_neg fun heq ↦ by simp [encode_fst_eq_iff.mp heq] at hterminal] at hstep
      obtain rfl := Option.some_inj.mp hstep
      have hcarries := hsent
        { f with stage := .returned, seen := f.seen ++ [poll], sent := some message } .returned rfl
          rfl rfl
      rw [hterminal] at hcarries
      refine ⟨_, (reaches_of_step (hhandle ?_)).trans (reaches_finish
        (L := { L with events := L.events ++ [(k, message)] })
        (f := { f with stage := .returning, seen := f.seen ++ [poll], sent := some message })
        hopen hcarried.lt rfl), Or.inl ⟨ids, ks, hcarries,
          hphase.congr rfl rfl rfl rfl List.length_set⟩⟩
      rw [Link.trySend, if_neg (by simp), if_neg hcapacity]
      exact if_pos hterminal

/-- A forwarder meets an observation. -/
theorem Carries.forward (h : Carries c L ids ks) (hphase : PhaseCarries c L)
    {observation : UpdateSubscriptionPoll} {full : Bool}
    (hstep : c.forward i observation full = some c') : ∃ L', Reaches L L' ∧ Corresponds c' L' := by
  have hopen := hphase.ne_ended
  rw [Connection.forward.eq_def] at hstep
  split at hstep
  · rename_i forwarder hi
    obtain ⟨k, hk, hcarried⟩ := h.exists_carried hi
    obtain ⟨f, hf, hstage, hcancelled, hjoined⟩ := hcarried.task
    split at hstep
    · exact absurd hstep (by simp)
    · rename_i observation _ _ hforwarder hpending
      have hpolling : f.stage = .polling := hstage.trans (congrArg stageOf hforwarder)
      rw [observed_eq] at hstep
      cases hmessage : message? observation with
      | none =>
        rw [hmessage] at hstep
        obtain rfl := Option.some_inj.mp hstep
        have hhandle : L.step (.handle k observation full) = some (L.setForwarder k
            { f with stage := .returning, seen := f.seen ++ [observation] }) := by
          refine Link.task_eq_some_iff.mpr ⟨hopen, f, hf, hpolling, ?_⟩
          cases observation with
          | pending => exact absurd rfl hpending
          | notification u => exact absurd hmessage (by simp [message?])
          | invalidated ended =>
            rw [message?] at hmessage
            simp only [Link.handle, message?, hmessage]
        refine h.goOn hphase hi hk ((reaches_of_step hhandle).trans
          (reaches_finish hopen hcarried.lt rfl)) rfl hcancelled hjoined fun hne ↦ absurd rfl hne
      | some message =>
        rw [hmessage, Option.map_some] at hstep
        exact h.trySend hphase hi hk hf hpolling hmessage hstep
    · exact absurd hstep (by simp)
  · exact absurd hstep (by simp)

/-- A forwarder that has waited for room sends its overflow. -/
theorem Carries.sendOverflow (h : Carries c L ids ks) (hphase : PhaseCarries c L)
    (hstep : c.sendOverflow i = some c') : ∃ L', Reaches L L' ∧ Corresponds c' L' := by
  have hopen := hphase.ne_ended
  rw [Connection.sendOverflow.eq_def] at hstep
  split at hstep
  · rename_i forwarder hi
    obtain ⟨k, hk, hcarried⟩ := h.exists_carried hi
    obtain ⟨f, hf, hstage, hcancelled, hjoined⟩ := hcarried.task
    split at hstep
    · rename_i overflow hforwarder hencode
      split_ifs at hstep with hroom
      obtain rfl := Option.some_inj.mp hstep
      have hoverflowing : f.stage = .overflowing := hstage.trans (congrArg stageOf hforwarder)
      rw [Connection.overflowEvent, hcarried.identity] at hencode
      have hevent : EncodesEvent ids (k, Message.overflow) ⟨overflow, false⟩ :=
        ⟨⟨forwarder.correlationId, hcarried.correlation, hencode⟩, rfl⟩
      have hsend : L.step (.sendOverflow k) = some ({ L with
          events := L.events ++ [(k, Message.overflow)] }.setForwarder k
            { f with stage := .returning, sent := some .overflow }) := by
        refine Link.task_eq_some_iff.mpr ⟨hopen, f, hf, hoverflowing, ?_⟩
        rw [if_pos (h.events.length_eq.symm ▸ hroom)]
      refine ⟨_, (reaches_of_step hsend).trans (reaches_finish hopen hcarried.lt rfl),
        Or.inl ⟨ids, ks, (h.setForwarder hi hk ?_ ?_ ?_ ?_).send hevent,
          hphase.congr rfl rfl rfl rfl List.length_set⟩⟩
      · rfl
      · exact hcancelled
      · exact hjoined
      · exact fun hne ↦ absurd rfl hne
    · exact absurd hstep (by simp)
  · exact absurd hstep (by simp)

/-- A forwarder notices that it has been cancelled. -/
theorem Carries.observeCancel (h : Carries c L ids ks) (hphase : PhaseCarries c L)
    (hstep : c.observeCancel i = some c') : ∃ L', Reaches L L' ∧ Corresponds c' L' := by
  have hopen := hphase.ne_ended
  rw [Connection.observeCancel.eq_def] at hstep
  split at hstep
  · rename_i forwarder hi
    obtain ⟨k, hk, hcarried⟩ := h.exists_carried hi
    obtain ⟨f, hf, hstage, hcancelled, hjoined⟩ := hcarried.task
    split_ifs at hstep with hcancel
    obtain rfl := Option.some_inj.mp hstep
    have hf' : f.cancelled = true := hcancelled.trans hcancel
    cases hforwarder : forwarder.phase with
    | polling =>
      have hpolling : f.stage = .polling := hstage.trans (congrArg stageOf hforwarder)
      have hobserve : L.step (.observeCancel k) = some (L.setForwarder k
          { f with stage := .cancelling }) :=
        Link.task_eq_some_iff.mpr ⟨hopen, f, hf, hpolling, if_pos hf'⟩
      have hdrop : (L.setForwarder k { f with stage := .cancelling }).step (.drop k) =
          some (L.setForwarder k { f with stage := .returning }) := by
        refine Link.task_eq_some_iff.mpr ⟨hopen, _, List.getElem?_set_self hcarried.lt, rfl, ?_⟩
        simp only [Link.setForwarder, List.set_set]
      refine h.goOn hphase hi hk (((reaches_of_step hobserve).trans (reaches_of_step hdrop)).trans
        (reaches_finish hopen hcarried.lt rfl)) rfl hcancelled hjoined fun hne ↦ absurd rfl hne
    | overflowing =>
      have hoverflowing : f.stage = .overflowing := hstage.trans (congrArg stageOf hforwarder)
      have habandon : L.step (.abandonOverflow k) = some (L.setForwarder k
          { f with stage := .returning }) :=
        Link.task_eq_some_iff.mpr ⟨hopen, f, hf, hoverflowing, if_pos hf'⟩
      refine h.goOn hphase hi hk ((reaches_of_step habandon).trans
        (reaches_finish hopen hcarried.lt rfl)) rfl hcancelled hjoined fun hne ↦ absurd rfl hne
    | returned =>
      -- it has already returned
      rw [← hforwarder, setPhase_self hi]
      exact ⟨L, .refl L, Or.inl ⟨ids, ks, h, hphase⟩⟩
  · exact absurd hstep (by simp)

end Tasks

/-! ## Steps and runs -/

section Simulation

variable {c c' : Connection ε} {L : Link}

theorem Corresponds.start : Corresponds (Connection.start : Connection ε) Link.start := by
  refine Or.inl ⟨[], [], ?_, rfl, fun id ↦ ?_⟩
  · exact
      { length_ids := rfl
        nextSubscriptionId := rfl
        bounded := by decide
        length_ks := rfl
        carried := fun i forwarder k hi ↦ absurd hi (by simp [Connection.start])
        nodup := List.nodup_nil
        joined := fun k f hf ↦ absurd hf (by simp [Link.start])
        events := .nil
        output := .nil
        active_lt := fun k hk ↦ absurd hk List.not_mem_nil
        active := fun id _ ↦ by simp [Connection.start, Link.start] }
  · simp [Connection.start, Link.start]

/-- **What a connection does in one step, the link does in some.** -/
theorem Corresponds.step (h : Corresponds c L) {sha256 : List UInt8 → Bytes verifierLength}
    {channel : BrokerChannel} {written : List (List UInt8)} {closed : Bool}
    {action : ConnectionAction ε} (hstep : c.step sha256 channel written closed action = some c') :
    ∃ L', Reaches L L' ∧ Corresponds c' L' := by
  rcases h with ⟨ids, ks, h, hphase⟩ | ⟨⟨outcome, hended⟩, -⟩
  swap
  · rw [Connection.step.eq_def, hended] at hstep
    exact absurd hstep (by simp)
  have hserves (hserving : c.phase = .serving) : L.phase = .serving ∧
      ∀ id, id ∈ c.active ↔ ∃ k ∈ L.active, wireId k = id := by
    rw [PhaseCarries, hserving] at hphase
    exact hphase
  rw [Connection.step.eq_def] at hstep
  split at hstep
  · exact absurd hstep (by simp)
  · rw [Connection.read] at hstep
    split_ifs at hstep
    obtain ⟨frame, -, rfl⟩ := Option.map_eq_some_iff.mp hstep
    exact ⟨L, .refl L, Or.inl ⟨ids, ks, { h with }, hphase⟩⟩
  · rename_i hserving
    exact h.receiveRequest hserving (hserves hserving).1 (hserves hserving).2 hstep
  · rename_i hserving
    exact h.receiveEvent hserving (hserves hserving).1 hstep
  · rename_i hserving
    exact h.joinForwarder hserving (hserves hserving).1 hstep
  · exact h.finishCancel hphase hstep
  · exact h.forward hphase hstep
  · exact h.sendOverflow hphase hstep
  · exact h.observeCancel hphase hstep
  · exact absurd hstep (by simp)

/-- What comes to a step of a connection from its surroundings. -/
structure ConnectionInput (ε : Type) where
  /-- What the session has written so far. -/
  written : List (List UInt8)
  closed : Bool
  action : ConnectionAction ε

/-- **The bytes of a connection are those of a run of the link.**  Whatever it meets, a connection
writes the encodings of the frames that the loop with its forwarders writes in some run, one for one
and in that order. -/
theorem connection_simulated (sha256 : List UInt8 → Bytes verifierLength) (channel : BrokerChannel)
    (inputs : List (ConnectionInput ε)) (c : Connection ε)
    (hrun : Transition.run (fun (c : Connection ε) (input : ConnectionInput ε) ↦
      c.step sha256 channel input.written input.closed input.action) .start inputs = some c) :
    ∃ actions L ids, Transition.run Link.step .start actions = some L ∧
      List.Forall₂ (Encodes ids) L.output c.output := by
  obtain ⟨L, ⟨actions, -, hactions⟩, hcorresponds⟩ : ∃ L, Reaches .start L ∧ Corresponds c L := by
    refine Transition.invariant (I := fun c ↦ ∃ L, Reaches .start L ∧ Corresponds c L)
      (fun c input c' hc hstep ↦ ?_) ⟨.start, .refl _, .start⟩ hrun
    obtain ⟨L, hreaches, hcorresponds⟩ := hc
    obtain ⟨L', hnext, hcorresponds'⟩ := hcorresponds.step hstep
    exact ⟨L', hreaches.trans hnext, hcorresponds'⟩
  rcases hcorresponds with ⟨ids, ks, h, -⟩ | ⟨-, -, ids, houtput⟩
  · exact ⟨actions, L, ids, hactions, h.output⟩
  · exact ⟨actions, L, ids, hactions, houtput⟩

end Simulation

end Renee.Emission
