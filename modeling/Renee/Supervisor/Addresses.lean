import Renee.Supervisor.Supervision

/-!
# The addresses of the children

A child is started from a specification that says where it binds, and the gateway from one that also
says where the store is.  The addresses in them come from what the children have announced, which
the log of the supervisor shows.

* `storeAddress` is what the store of the current generation announced when it was started, and
  `gatewayAddress` what the gateway last announced when a group was started.
* `Addressed` is what a specification owes to the log before it: the addresses are these, and
  nothing else differs from the configuration.
* `Consistent` is the invariant: where in the supervisor which address is kept.  A replacement
  announces an address too, but the supervisor does not read it (`not_last_announced`).
-/

set_option autoImplicit false

namespace Renee.Supervisor

/-! ## Arguments -/

/-- The arguments of a child, in pairs of a name and a value. -/
def options : List OsString → List (OsString × OsString)
  | name :: value :: arguments => (name, value) :: options arguments
  | _ => []

/-- The values that are given under a name. -/
def valuesOf (name : String) (arguments : List OsString) : List OsString :=
  ((options arguments).filter fun o ↦ o.1 = osString name).map Prod.snd

/-- The options that are not addresses. -/
def otherOptions (arguments : List OsString) : List (OsString × OsString) :=
  (options arguments).filter fun o ↦ o.1 ≠ osString "--bind" ∧ o.1 ≠ osString "--store"

/-- Two specifications differ in their addresses at most. -/
structure Unchanged (configured spec : ChildSpec) : Prop where
  role : spec.role = configured.role
  executable : spec.executable = configured.executable
  options : otherOptions spec.arguments = otherOptions configured.arguments
  /-- There is nothing but options. -/
  arguments : spec.arguments = (Supervisor.options spec.arguments).flatMap fun o ↦ [o.1, o.2]

/-! ## What has been announced -/

/-- The address in a readiness record. -/
def announced (record : String) : Option String := readinessField record "address"

/-- The address of the store after another occurrence. -/
def storeAddressAfter (address : Option String) : Occurrence → Option String
  | .groupStarted => none
  | .ready .stored record false => (announced record).or address
  | _ => address

/-- The address of the gateway after another occurrence, when it counts what a group has started. -/
def gatewayAddressAfter (address : Option String) : Occurrence → Option String
  | .ready .gatewayd record false => (announced record).or address
  | _ => address

/-- What the store of this generation announced when it was started. -/
def storeAddress (log : List Occurrence) : Option String := log.foldl storeAddressAfter none

/-- What the gateway last announced when a group was started. -/
def gatewayAddress (log : List Occurrence) : Option String := log.foldl gatewayAddressAfter none

@[simp] theorem storeAddress_concat (log : List Occurrence) (occurrence : Occurrence) :
    storeAddress (log ++ [occurrence]) = storeAddressAfter (storeAddress log) occurrence := by
  rw [storeAddress, List.foldl_append]
  rfl

@[simp] theorem gatewayAddress_concat (log : List Occurrence) (occurrence : Occurrence) :
    gatewayAddress (log ++ [occurrence]) = gatewayAddressAfter (gatewayAddress log) occurrence := by
  rw [gatewayAddress, List.foldl_append]
  rfl

/-- What a process is started with after a log, when `gateway` says which address of the gateway is
the last. -/
structure Addressed (gateway : List Occurrence → Option String) (c : Configuration)
    (log : List Occurrence) (spec : ChildSpec) (replacement : Bool) : Prop where
  /-- No other argument changes. -/
  configured : ∃ configured ∈ c.childSpecs, Unchanged configured spec
  /-- A gateway knows one store, that of its generation. -/
  store : spec.role = .gatewayd → ∃ address, storeAddress log = some address ∧
    valuesOf "--store" spec.arguments = [osString address]
  /-- A gateway binds where the last one was. -/
  gateway : spec.role = .gatewayd → valuesOf "--bind" spec.arguments =
    [osString ((gateway log).getD c.bindAddress)]
  /-- A store that is replaced binds where it was. -/
  replaced : spec.role = .stored → replacement = true → ∃ address, storeAddress log = some address ∧
    valuesOf "--bind" spec.arguments = [osString address]
  /-- The first store of a generation is the configured one. -/
  first : spec.role = .stored → replacement = false → spec ∈ c.childSpecs

/-- Every process of a log was started with the addresses of the log before it. -/
def LogAddressed (gateway : List Occurrence → Option String) (c : Configuration)
    (log : List Occurrence) : Prop :=
  ∀ n spec replacement, log[n]? = some (.spawned spec replacement) →
    Addressed gateway c (log.take n) spec replacement

theorem LogAddressed.nil {gateway : List Occurrence → Option String} {c : Configuration} :
    LogAddressed gateway c [] := fun _ _ _ h ↦ absurd h (by simp)

theorem LogAddressed.concat {gateway : List Occurrence → Option String} {c : Configuration}
    {log : List Occurrence} (h : LogAddressed gateway c log) {occurrence : Occurrence}
    (hlast : ∀ spec replacement, occurrence = .spawned spec replacement →
      Addressed gateway c log spec replacement) : LogAddressed gateway c (log ++ [occurrence]) := by
  intro n spec replacement hn
  rcases Nat.lt_trichotomy n log.length with hlt | rfl | hgt
  · rw [List.getElem?_append_left hlt] at hn
    rw [List.take_append_of_le_length hlt.le]
    exact h n spec replacement hn
  · rw [List.getElem?_concat_length, Option.some_inj] at hn
    rw [List.take_left]
    exact hlast spec replacement hn
  · rw [List.getElem?_eq_none (by rw [List.length_append, List.length_singleton]; omega)] at hn
    exact absurd hn (by simp)

/-! ## The specifications of a configuration -/

section Specifications

variable (c : Configuration)

/-- The store, bound to an address. -/
def Configuration.storedSpec (bind : String) : ChildSpec where
  arguments := [osString "--bind", osString bind, osString "--database", c.storeDatabase,
    osString "--create-authority-id", c.createAuthorityId,
    osString "--create-live-verifier", c.createLiveVerifier,
    osString "--create-receipt-verifier", c.createReceiptVerifier]
  executable := c.stored
  role := .stored

/-- The gateway, bound to an address. -/
def Configuration.gatewaydSpec (bind : String) : ChildSpec where
  arguments := osString "--bind" :: osString bind :: (c.identityArguments ++
    [osString "--sessiond", c.sessiond])
  executable := c.gatewayd
  role := .gatewayd

/-- The gateway of a group: it knows the store. -/
def Configuration.activeGatewaydSpec (bind store : String) : ChildSpec :=
  { c.gatewaydSpec bind with
    arguments := (c.gatewaydSpec bind).arguments ++ [osString "--store", osString store] }

theorem childSpecs_eq :
    c.childSpecs = [c.storedSpec "127.0.0.1:0", c.gatewaydSpec c.bindAddress] := by
  rw [Configuration.childSpecs, Configuration.storedSpec, Configuration.gatewaydSpec]
  rfl

variable {c} {bind address store : String}

/-- To settle an address is to bind to it. -/
theorem replaceArgumentValue_bind {arguments : List OsString} {value : OsString} :
    replaceArgumentValue (osString "--bind" :: value :: arguments) "--bind" (osString address) =
      (true, osString "--bind" :: osString address :: arguments) := by
  rw [replaceArgumentValue, replaceNext, decide_eq_true rfl, replaceNext]

theorem stabilize_stored {record : String} {original : ChildSpec} :
    stabilizeReadyChild record (c.storedSpec bind) original =
      match announced record with
      | none => (.error .invalidData, c.storedSpec bind, original)
      | some address => (.ok (some address), c.storedSpec address, original) := by
  rw [stabilizeReadyChild, announced]
  cases readinessField record "address" with
  | none => rfl
  | some address =>
    dsimp only [Configuration.storedSpec]
    rw [replaceArgumentValue_bind]

theorem stabilize_gatewayd {record : String} :
    stabilizeReadyChild record (c.activeGatewaydSpec bind store) (c.gatewaydSpec bind) =
      match announced record with
      | none => (.error .invalidData, c.activeGatewaydSpec bind store, c.gatewaydSpec bind)
      | some address => (.ok none, c.activeGatewaydSpec address store, c.gatewaydSpec address) := by
  rw [stabilizeReadyChild, announced]
  cases readinessField record "address" with
  | none => rfl
  | some address =>
    dsimp only [Configuration.activeGatewaydSpec, Configuration.gatewaydSpec, List.cons_append]
    rw [replaceArgumentValue_bind]
    dsimp only
    rw [replaceArgumentValue_bind]

end Specifications

/-! ## Their addresses -/

section Addressed

variable {c : Configuration} {bind address store : String} {log : List Occurrence}

/-- The gateway is given its identity in one way or the other. -/
theorem identityArguments_cases (c : Configuration) :
    (∃ certificate privateKey, c.identityArguments =
      [osString "--certificate", certificate, osString "--private-key", privateKey]) ∨
    c.identityArguments = [osString "--local-identity", c.localIdentity] := by
  rw [Configuration.identityArguments]
  split
  · exact .inl ⟨_, _, rfl⟩
  · exact .inr rfl

theorem unchanged_stored : Unchanged (c.storedSpec bind) (c.storedSpec address) :=
  ⟨rfl, rfl, rfl, rfl⟩

theorem unchanged_gatewayd :
    Unchanged (c.gatewaydSpec bind) (c.activeGatewaydSpec address store) := by
  rw [Configuration.activeGatewaydSpec, Configuration.gatewaydSpec, Configuration.gatewaydSpec]
  rcases identityArguments_cases c with ⟨certificate, privateKey, hidentity⟩ | hidentity
  · rw [hidentity]
    exact ⟨rfl, rfl, rfl, rfl⟩
  · rw [hidentity]
    exact ⟨rfl, rfl, rfl, rfl⟩

theorem valuesOf_bind_stored :
    valuesOf "--bind" (c.storedSpec bind).arguments = [osString bind] := rfl

theorem valuesOf_gatewayd :
    valuesOf "--bind" (c.activeGatewaydSpec bind store).arguments = [osString bind] ∧
      valuesOf "--store" (c.activeGatewaydSpec bind store).arguments = [osString store] := by
  rw [Configuration.activeGatewaydSpec, Configuration.gatewaydSpec]
  rcases identityArguments_cases c with ⟨certificate, privateKey, hidentity⟩ | hidentity
  · rw [hidentity]
    exact ⟨rfl, rfl⟩
  · rw [hidentity]
    exact ⟨rfl, rfl⟩

/-- The first store of a generation. -/
theorem addressed_stored {gateway : List Occurrence → Option String} :
    Addressed gateway c log (c.storedSpec "127.0.0.1:0") false where
  configured := ⟨_, by rw [childSpecs_eq]; exact List.mem_cons_self, unchanged_stored⟩
  store h := absurd h (by simp [Configuration.storedSpec])
  gateway h := absurd h (by simp [Configuration.storedSpec])
  replaced _ h := absurd h (by simp)
  first _ _ := by rw [childSpecs_eq]; exact List.mem_cons_self

/-- A store that is replaced. -/
theorem addressed_replaced {gateway : List Occurrence → Option String}
    (hstore : storeAddress log = some address) :
    Addressed gateway c log (c.storedSpec address) true where
  configured := ⟨_, by rw [childSpecs_eq]; exact List.mem_cons_self, unchanged_stored⟩
  store h := absurd h (by simp [Configuration.storedSpec])
  gateway h := absurd h (by simp [Configuration.storedSpec])
  replaced _ _ := ⟨address, hstore, valuesOf_bind_stored⟩
  first _ h := absurd h (by simp)

/-- A gateway of a group. -/
theorem addressed_gatewayd {gateway : List Occurrence → Option String} {replacement : Bool}
    (hstore : storeAddress log = some store) (hgateway : (gateway log).getD c.bindAddress = bind) :
    Addressed gateway c log (c.activeGatewaydSpec bind store) replacement where
  configured := ⟨_, by rw [childSpecs_eq]; exact List.mem_cons_of_mem _ List.mem_cons_self,
    unchanged_gatewayd⟩
  store _ := ⟨store, hstore, valuesOf_gatewayd.2⟩
  gateway _ := by rw [hgateway]; exact valuesOf_gatewayd.1
  replaced h := absurd h (by simp [Configuration.activeGatewaydSpec, Configuration.gatewaydSpec])
  first h := absurd h (by simp [Configuration.activeGatewaydSpec, Configuration.gatewaydSpec])

end Addressed

/-! ## Where the addresses are kept -/

/-- Where the gateway binds next. -/
def gatewayBind (c : Configuration) (log : List Occurrence) : String :=
  (gatewayAddress log).getD c.bindAddress

/-- The children of a group are specified with the addresses of the log. -/
def GroupConsistent (c : Configuration) (log : List Occurrence) (children : List ManagedChild) :
    Prop :=
  ∃ address, storeAddress log = some address ∧ children.map ManagedChild.spec =
    [c.storedSpec address, c.activeGatewaydSpec (gatewayBind c log) address]

/-- The process of a group that is being started, and those that are running. -/
inductive StartConsistent (c : Configuration) (log : List Occurrence) (start : GroupStart) : Prop
  | stored (index : start.index = 0) (activeSpec : start.activeSpec = c.storedSpec "127.0.0.1:0")
      (children : start.children = [])
  | gatewayd (address : String) (index : start.index = 1)
      (activeSpec : start.activeSpec = c.activeGatewaydSpec (gatewayBind c log) address)
      (children : start.children.map ManagedChild.spec = [c.storedSpec address])
      (announced : storeAddress log = some address) (known : start.storeAddress = some address)

def PhaseConsistent (c : Configuration) (log : List Occurrence) : Phase → Prop
  | .starting start => StartConsistent c log start
  | .monitoring group _ => GroupConsistent c log group.children
  | .restarting group _ => GroupConsistent c log group.children
  | .drained => True
  | .stopped => True

/-- A generation is started from specifications that know where the gateway was, and nothing
else. -/
structure Settled (c : Configuration) (s : Supervisord) : Prop where
  log : LogAddressed gatewayAddress c s.log
  specifications : s.specifications =
    [c.storedSpec "127.0.0.1:0", c.gatewaydSpec (gatewayBind c s.log)]

/-- **The invariant.**  What knows more than the original specifications is made for one
generation. -/
structure Consistent (c : Configuration) (s : Supervisord) : Prop extends Settled c s where
  phase : PhaseConsistent c s.log s.phase

section Steps

variable {c : Configuration} {s s' : Supervisord} {start : GroupStart} {group : RunningGroup}
  {index now : ℕ} {launch : Launch} {log : List Occurrence}

@[simp] theorem gatewayBind_groupStarted :
    gatewayBind c (log ++ [.groupStarted]) = gatewayBind c log := by
  rw [gatewayBind, gatewayAddress_concat]
  rfl

@[simp] theorem gatewayBind_spawned {spec : ChildSpec} {replacement : Bool} :
    gatewayBind c (log ++ [.spawned spec replacement]) = gatewayBind c log := by
  rw [gatewayBind, gatewayAddress_concat]
  rfl

@[simp] theorem gatewayBind_ready_stored {record : String} {replacement : Bool} :
    gatewayBind c (log ++ [.ready .stored record replacement]) = gatewayBind c log := by
  rw [gatewayBind, gatewayAddress_concat]
  rfl

@[simp] theorem gatewayBind_ready_gatewayd {record : String} :
    gatewayBind c (log ++ [.ready .gatewayd record false]) =
      (announced record).getD (gatewayBind c log) := by
  rw [gatewayBind, gatewayAddress_concat, gatewayAddressAfter, Option.getD_or]
  rfl

@[simp] theorem gatewayBind_ready_replacement {role : Role} {record : String} :
    gatewayBind c (log ++ [.ready role record true]) = gatewayBind c log := by
  rw [gatewayBind, gatewayAddress_concat]
  cases role <;> rfl

theorem Settled.drained (h : Settled c s) : Consistent c { s with phase := .drained } :=
  ⟨⟨h.log, h.specifications⟩, trivial⟩

/-- What is started is what the log asks for. -/
theorem StartConsistent.addressed (h : StartConsistent c log start) :
    Addressed gatewayAddress c log start.activeSpec false := by
  cases h with
  | stored _ hactive => rw [hactive]; exact addressed_stored
  | gatewayd address _ hactive _ hannounced =>
    rw [hactive]
    exact addressed_gatewayd hannounced rfl

theorem StartConsistent.spawned (h : StartConsistent c log start) {spec : ChildSpec} :
    StartConsistent c (log ++ [.spawned spec false]) start := by
  cases h with
  | stored hindex hactive hchildren => exact .stored hindex hactive hchildren
  | gatewayd address hindex hactive hchildren hannounced hknown =>
    refine .gatewayd address hindex (by rw [gatewayBind_spawned]; exact hactive) hchildren ?_ hknown
    rw [storeAddress_concat]
    exact hannounced

theorem Settled.spawn (h : Settled c s) (hstart : StartConsistent c s.log start) :
    Consistent c (s.spawn start) where
  log := h.log.concat fun spec replacement heq ↦ by
    obtain ⟨rfl, rfl⟩ := Occurrence.spawned.inj heq
    exact hstart.addressed
  specifications := by
    show s.specifications = _
    rw [h.specifications, Supervisord.spawn, gatewayBind_spawned]
  phase := hstart.spawned

theorem Settled.retryStart (h : Settled c s) (hstart : StartConsistent c s.log start) :
    Consistent c (s.retryStart start now) := by
  rw [Supervisord.retryStart]
  split
  · exact h.drained
  · refine h.spawn ?_
    cases hstart with
    | stored hindex hactive hchildren => exact .stored hindex hactive hchildren
    | gatewayd address hindex hactive hchildren hannounced hknown =>
      exact .gatewayd address hindex hactive hchildren hannounced hknown

section StartFrom

variable {children : List ManagedChild} {readiness : Role → Option String}

theorem Settled.startStored (h : Settled c s) {known : Option String} :
    Consistent c (s.startFrom [] readiness known 0) := by
  have heq : s.startFrom [] readiness known 0 =
      s.spawn ⟨[], readiness, known, 0, c.storedSpec "127.0.0.1:0", .new⟩ := by
    rw [Supervisord.startFrom, h.specifications]
    rfl
  rw [heq]
  exact h.spawn (.stored rfl rfl rfl)

theorem Settled.startGatewayd (h : Settled c s) {address : String}
    (hstore : storeAddress s.log = some address)
    (hchildren : children.map ManagedChild.spec = [c.storedSpec address]) :
    Consistent c (s.startFrom children readiness (some address) 1) := by
  have heq : s.startFrom children readiness (some address) 1 = s.spawn ⟨children, readiness,
      some address, 1, c.activeGatewaydSpec (gatewayBind c s.log) address, .new⟩ := by
    rw [Supervisord.startFrom, h.specifications]
    rfl
  rw [heq]
  exact h.spawn (.gatewayd address rfl rfl hchildren hstore rfl)

theorem Settled.startEnd (h : Settled c s) {known : Option String}
    (hgroup : GroupConsistent c s.log children) :
    Consistent c (s.startFrom children readiness known 2) := by
  have heq : s.startFrom children readiness known 2 =
      { s with phase := .monitoring ⟨children, readiness⟩ 0 } := by
    rw [Supervisord.startFrom, h.specifications]
    rfl
  rw [heq]
  exact ⟨⟨h.log, h.specifications⟩, hgroup⟩

end StartFrom

/-- **A generation begins** with the store, which is to find a port of its own. -/
theorem Settled.startGroup (h : Settled c s) : Consistent c s.startGroup := by
  refine Settled.startStored ⟨h.log.concat fun _ _ heq ↦ absurd heq (by simp), ?_⟩
  rw [gatewayBind_groupStarted]
  exact h.specifications

/-- **The store of a generation has become ready**, or it is tried again. -/
theorem Settled.settleStored (h : Settled c s) (hindex : start.index = 0)
    (hactive : start.activeSpec = c.storedSpec "127.0.0.1:0") (hchildren : start.children = [])
    (hstep : s.settleStart start launch now = some s') : Consistent c s' := by
  rw [Supervisord.settleStart] at hstep
  split at hstep
  · rw [← Option.some_inj.mp hstep]
    exact h.retryStart (.stored hindex hactive hchildren)
  rename_i child record _
  rw [hindex, hactive, h.specifications, List.getElem?_cons_zero, Option.bind_eq_bind,
    Option.bind_some, stabilize_stored] at hstep
  have hsettled : Settled c { s with
      specifications := [c.storedSpec "127.0.0.1:0", c.gatewaydSpec (gatewayBind c s.log)]
      log := s.log ++ [.ready .stored record false] } :=
    ⟨h.log.concat fun _ _ heq ↦ absurd heq (by simp), by rw [gatewayBind_ready_stored]⟩
  cases hannounced : announced record with
  | none =>
    rw [hannounced] at hstep
    rw [← Option.some_inj.mp hstep]
    exact hsettled.retryStart (.stored rfl rfl hchildren)
  | some address =>
    rw [hannounced] at hstep
    rw [← Option.some_inj.mp hstep]
    refine hsettled.startGatewayd ?_ (by rw [hchildren]; rfl)
    show storeAddress (s.log ++ [.ready .stored record false]) = _
    rw [storeAddress_concat, storeAddressAfter, hannounced]
    rfl

/-- **The gateway of a group has become ready**, or it is tried again. -/
theorem Settled.settleGatewayd (h : Settled c s) {address : String} (hindex : start.index = 1)
    (hactive : start.activeSpec = c.activeGatewaydSpec (gatewayBind c s.log) address)
    (hchildren : start.children.map ManagedChild.spec = [c.storedSpec address])
    (hstore : storeAddress s.log = some address) (hknown : start.storeAddress = some address)
    (hstep : s.settleStart start launch now = some s') : Consistent c s' := by
  rw [Supervisord.settleStart] at hstep
  split at hstep
  · rw [← Option.some_inj.mp hstep]
    exact h.retryStart (.gatewayd address hindex hactive hchildren hstore hknown)
  rename_i child record _
  rw [hindex, hactive, h.specifications, List.getElem?_cons_succ, List.getElem?_cons_zero,
    Option.bind_eq_bind, Option.bind_some, stabilize_gatewayd] at hstep
  have hsettled : ∀ bind, (announced record).getD (gatewayBind c s.log) = bind →
      Settled c { s with
        specifications := [c.storedSpec "127.0.0.1:0", c.gatewaydSpec bind]
        log := s.log ++ [.ready .gatewayd record false] } := fun bind hbind ↦
    ⟨h.log.concat fun _ _ heq ↦ absurd heq (by simp), by rw [gatewayBind_ready_gatewayd, hbind]⟩
  have hstore' : storeAddress (s.log ++ [.ready .gatewayd record false]) = some address := by
    rw [storeAddress_concat]
    exact hstore
  cases hannounced : announced record with
  | none =>
    rw [hannounced] at hstep
    rw [← Option.some_inj.mp hstep]
    refine (hsettled _ (by rw [hannounced]; rfl)).retryStart
      (.gatewayd address rfl ?_ hchildren hstore' hknown)
    show c.activeGatewaydSpec (gatewayBind c s.log) address = c.activeGatewaydSpec
      (gatewayBind c _) address
    rw [gatewayBind_ready_gatewayd, hannounced]
    rfl
  | some bind =>
    rw [hannounced] at hstep
    have hbound := hsettled bind (by rw [hannounced]; rfl)
    rw [← Option.some_inj.mp hstep]
    refine hbound.startEnd ⟨address, hstore', ?_⟩
    show _ = [_, c.activeGatewaydSpec (gatewayBind c (s.log ++ [.ready .gatewayd record false]))
      address]
    rw [List.map_append, hchildren, gatewayBind_ready_gatewayd, hannounced]
    rfl

theorem Settled.settleStart (h : Settled c s) (hstart : StartConsistent c s.log start)
    (hstep : s.settleStart start launch now = some s') : Consistent c s' := by
  cases hstart with
  | stored hindex hactive hchildren => exact h.settleStored hindex hactive hchildren hstep
  | gatewayd address hindex hactive hchildren hstore hknown =>
    exact h.settleGatewayd hindex hactive hchildren hstore hknown hstep

/-! ## Replacements -/

section Group

variable {children : List ManagedChild} {managed : ManagedChild}

/-- A child of a group is restarted from its own specification. -/
theorem GroupConsistent.addressed (h : GroupConsistent c log children)
    (hmanaged : children[index]? = some managed) :
    Addressed gatewayAddress c log managed.spec true := by
  obtain ⟨address, hstore, hspecs⟩ := h
  have hmem := List.mem_map_of_mem (f := ManagedChild.spec) (List.mem_of_getElem? hmanaged)
  rw [hspecs, List.mem_cons, List.mem_singleton] at hmem
  rcases hmem with hspec | hspec
  · rw [hspec]
    exact addressed_replaced hstore
  · rw [hspec]
    exact addressed_gatewayd hstore rfl

theorem GroupConsistent.set (h : GroupConsistent c log children)
    (hmanaged : children[index]? = some managed) (managed' : ManagedChild)
    (hspec : managed'.spec = managed.spec) :
    GroupConsistent c log (children.set index managed') := by
  obtain ⟨address, hstore, hspecs⟩ := h
  refine ⟨address, hstore, ?_⟩
  obtain ⟨hindex, rfl⟩ := List.getElem?_eq_some_iff.mp hmanaged
  rw [List.map_set, hspec, ← hspecs, ← List.getElem_map ManagedChild.spec, List.set_getElem_self]
  rw [List.length_map]
  exact hindex

theorem GroupConsistent.spawned (h : GroupConsistent c log children) {spec : ChildSpec} :
    GroupConsistent c (log ++ [.spawned spec true]) children := by
  obtain ⟨address, hstore, hspecs⟩ := h
  refine ⟨address, by rw [storeAddress_concat]; exact hstore, ?_⟩
  rw [gatewayBind_spawned]
  exact hspecs

/-- What a replacement announces is not kept. -/
theorem GroupConsistent.ready (h : GroupConsistent c log children) {role : Role} {record : String} :
    GroupConsistent c (log ++ [.ready role record true]) children := by
  obtain ⟨address, hstore, hspecs⟩ := h
  refine ⟨address, ?_, ?_⟩
  · rw [storeAddress_concat]
    cases role <;> exact hstore
  · rw [gatewayBind_ready_replacement]
    exact hspecs

end Group

theorem Settled.retryRestart (h : Settled c s) (hgroup : GroupConsistent c s.log group.children)
    (hstep : s.retryRestart group index now = some s') : Consistent c s' := by
  rw [Supervisord.retryRestart, Option.bind_eq_bind, Option.bind_eq_some_iff] at hstep
  obtain ⟨managed, hmanaged, hstep⟩ := hstep
  split at hstep
  · rw [← Option.some_inj.mp hstep]
    exact h.drained
  · rename_i restartBudget _
    have hset := hgroup.set hmanaged { managed with restartBudget, child := none } rfl
    rw [← Option.some_inj.mp hstep]
    refine ⟨⟨h.log.concat fun spec replacement heq ↦ ?_, ?_⟩, hset.spawned⟩
    · obtain ⟨rfl, rfl⟩ := Occurrence.spawned.inj heq
      exact hgroup.addressed hmanaged
    · rw [gatewayBind_spawned]
      exact h.specifications

theorem Settled.settleRestart (h : Settled c s) (hgroup : GroupConsistent c s.log group.children)
    (hstep : s.settleRestart group index launch now = some s') : Consistent c s' := by
  rw [Supervisord.settleRestart, Option.bind_eq_bind, Option.bind_eq_some_iff] at hstep
  obtain ⟨managed, hmanaged, hstep⟩ := hstep
  split at hstep
  · exact h.retryRestart hgroup hstep
  rename_i replacement record _
  have hsettled : Settled c { s with log := s.log ++ [.ready managed.spec.role record true] } :=
    ⟨h.log.concat fun _ _ heq ↦ absurd heq (by simp),
      by rw [gatewayBind_ready_replacement]; exact h.specifications⟩
  dsimp only at hstep
  split at hstep
  · rw [← Option.some_inj.mp hstep]
    exact hsettled.drained
  · have hset := hgroup.set hmanaged { managed with child := some replacement } rfl
    rw [← Option.some_inj.mp hstep]
    exact ⟨⟨hsettled.log, hsettled.specifications⟩, hset.ready⟩

theorem Settled.poll (h : Settled c s) (hgroup : GroupConsistent c s.log group.children)
    {status : Except ErrorKind (Option ℕ)} (hstep : s.poll group index status now = some s') :
    Consistent c s' := by
  rw [Supervisord.poll, Option.bind_eq_bind, Option.bind_eq_some_iff] at hstep
  obtain ⟨managed, -, hstep⟩ := hstep
  split at hstep
  · exact h.retryRestart hgroup hstep
  · rw [← Option.some_inj.mp hstep]
    exact ⟨⟨h.log, h.specifications⟩, hgroup⟩
  · rw [← Option.some_inj.mp hstep]
    exact h.drained

/-! ## Runs -/

/-- **Every step keeps the addresses where they belong.** -/
theorem Consistent.step (h : Consistent c s) {a : Action} (hstep : s.step a = some s') :
    Consistent c s' := by
  have hphase := h.phase
  rw [Supervisord.step.eq_def] at hstep
  split at hstep
  · exact absurd hstep (by simp)
  · rw [← Option.some_inj.mp hstep]
    exact ⟨⟨h.log, h.specifications⟩, trivial⟩
  · rename_i heq
    rw [heq] at hphase
    exact h.settleStart hphase hstep
  · rename_i heq
    rw [heq] at hphase
    exact h.settleRestart hphase hstep
  · rename_i heq
    rw [heq] at hphase
    exact h.poll hphase hstep
  · rename_i heq
    rw [heq] at hphase
    split at hstep
    · exact absurd hstep (by simp)
    · rw [← Option.some_inj.mp hstep]
      exact ⟨⟨h.log, h.specifications⟩, hphase⟩
  · rw [← Option.some_inj.mp hstep]
    exact h.startGroup
  · exact absurd hstep (by simp)

end Steps

namespace Sample

/-- A process that says that it is ready. -/
def ready (pid : ℕ) (line : String) : Action := .launched (.spawned ⟨some pid⟩ (.ok line)) 0

end Sample

end Renee.Supervisor
