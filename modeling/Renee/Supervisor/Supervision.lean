import Renee.Library.Transition
import Renee.Supervisor.Children

/-!
# Supervision

The supervisor starts its children one after the other, each within a budget of failures, and
watches them.  A child that exits is replaced within what is left of its budget; when a budget is
exhausted, or a child cannot be observed, the whole group is drained and the next generation is
started from the specifications.

The loops of `run`, `start_group`, `monitor_children` and `ManagedChild::restart` are nested, and
each waits for something at the same place in every iteration: for a child to become ready, for the
status of a child, for a delay to pass.  A `Phase` is such a place with what is live there, and a
step takes the supervisor from one to the next.

* An `Action` is what the supervisor waits for: what comes of starting a process, what waiting for a
  child says, the end of a delay, and the request to shut down.  Where a failure is recorded, the
  action says when.
* The log is what the supervisor has done so far: it says with which specification each process was
  started, and what it announced.
-/

set_option autoImplicit false

namespace Renee.Supervisor

/-! ## The state of the supervisor -/

/-- What is worth noting of what the supervisor does. -/
inductive Occurrence
  /-- A generation of children begins. -/
  | groupStarted
  /-- A process is started: the first of its generation in its role, or a replacement. -/
  | spawned (spec : ChildSpec) (replacement : Bool)
  /-- A process has become ready. -/
  | ready (role : Role) (record : String) (replacement : Bool)
deriving DecidableEq

/-- A complete generation of permanent children. -/
structure RunningGroup where
  children : List ManagedChild
  readiness : Role → Option String

/-- What `start_group` has come to, waiting for a child to become ready. -/
structure GroupStart where
  children : List ManagedChild
  readiness : Role → Option String
  storeAddress : Option String
  /-- Which specification is being started. -/
  index : ℕ
  activeSpec : ChildSpec
  budget : RestartBudget

/-- Where the supervisor waits. -/
inductive Phase
  /-- `start_group` waits for a child to become ready. -/
  | starting (start : GroupStart)
  /-- `monitor_children` is about to look at a child, or has looked at all of them. -/
  | monitoring (group : RunningGroup) (next : ℕ)
  /-- `restart` waits for the replacement of a child to become ready. -/
  | restarting (group : RunningGroup) (index : ℕ)
  /-- The children have been shut down, and a new group is started after a delay. -/
  | drained
  | stopped

structure Supervisord where
  /-- What a generation is started from. -/
  specifications : List ChildSpec
  phase : Phase
  log : List Occurrence

/-- What the supervisor waits for. -/
inductive Action
  | launched (launch : Launch) (now : ℕ)
  | polled (status : Except ErrorKind (Option ℕ)) (now : ℕ)
  | slept
  | shutdown

namespace Supervisord

/-! ## Starting a group -/

/-- Start the process of the active specification. -/
def spawn (s : Supervisord) (start : GroupStart) : Supervisord :=
  { s with phase := .starting start, log := s.log ++ [.spawned start.activeSpec false] }

/-- Go on with the specification of that index, or with the group if there is none. -/
def startFrom (s : Supervisord) (children : List ManagedChild) (readiness : Role → Option String)
    (storeAddress : Option String) (index : ℕ) : Supervisord :=
  match s.specifications[index]? with
  | none => { s with phase := .monitoring ⟨children, readiness⟩ 0 }
  | some specification =>
    match specification.role, storeAddress with
    | .gatewayd, none => { s with phase := .drained }
    | .gatewayd, some address =>
      let activeSpec := { specification with
        arguments := specification.arguments ++ [osString "--store", osString address] }
      s.spawn ⟨children, readiness, storeAddress, index, activeSpec, .new⟩
    | .stored, _ => s.spawn ⟨children, readiness, storeAddress, index, specification, .new⟩

/-- Begin a generation. -/
def startGroup (s : Supervisord) : Supervisord :=
  startFrom { s with log := s.log ++ [.groupStarted] } [] (fun _ ↦ none) none 0

/-- Start the process once more, or give up the group. -/
def retryStart (s : Supervisord) (start : GroupStart) (now : ℕ) : Supervisord :=
  match start.budget.recordFailure now with
  | (false, _) => { s with phase := .drained }
  | (true, budget) => s.spawn { start with budget }

/-- A process of a group that is being started has become ready, or has not. -/
def settleStart (s : Supervisord) (start : GroupStart) (launch : Launch) (now : ℕ) :
    Option Supervisord :=
  match spawnReadyChild start.activeSpec launch with
  | .error _ => some (s.retryStart start now)
  | .ok (child, record) => do
    let specification ← s.specifications[start.index]?
    let (result, active, original) := stabilizeReadyChild record start.activeSpec specification
    let s : Supervisord := { s with
      specifications := s.specifications.set start.index original
      log := s.log ++ [.ready start.activeSpec.role record false] }
    match result with
    | .error _ => some (s.retryStart { start with activeSpec := active } now)
    | .ok address =>
      let storeAddress := if address.isSome then address else start.storeAddress
      let managed := ManagedChild.fromStarted active child start.budget
      some (s.startFrom (start.children ++ [managed])
        (fun role ↦ if role = active.role then some record else start.readiness role) storeAddress
        (start.index + 1))

/-! ## Watching a group -/

/-- Start a replacement, or give up the group. -/
def retryRestart (s : Supervisord) (group : RunningGroup) (index : ℕ) (now : ℕ) :
    Option Supervisord := do
  let managed ← group.children[index]?
  match managed.restartBudget.recordFailure now with
  | (false, _) => some { s with phase := .drained }
  | (true, restartBudget) =>
    let children := group.children.set index { managed with restartBudget, child := none }
    some { s with
      phase := .restarting { group with children } index
      log := s.log ++ [.spawned managed.spec true] }

/-- A replacement has become ready, or has not. -/
def settleRestart (s : Supervisord) (group : RunningGroup) (index : ℕ) (launch : Launch) (now : ℕ) :
    Option Supervisord := do
  let managed ← group.children[index]?
  match spawnReadyChild managed.spec launch with
  | .error _ => s.retryRestart group index now
  | .ok (replacement, record) =>
    let managed := { managed with child := some replacement }
    let s : Supervisord := { s with log := s.log ++ [.ready managed.spec.role record true] }
    match managed.pidField with
    | .error _ => some { s with phase := .drained }
    | .ok _ =>
      let children := group.children.set index managed
      some { s with phase := .monitoring { group with children } (index + 1) }

/-- Look at the next child. -/
def poll (s : Supervisord) (group : RunningGroup) (next : ℕ) (status : Except ErrorKind (Option ℕ))
    (now : ℕ) : Option Supervisord := do
  let managed ← group.children[next]?
  match managed.pollExit status with
  | .ok (some _) => s.retryRestart group next now
  | .ok none => some { s with phase := .monitoring group (next + 1) }
  | .error _ => some { s with phase := .drained }

/-! ## The supervisor -/

/-- The supervisor begins its first generation. -/
def launch (c : Configuration) : Supervisord := startGroup ⟨c.childSpecs, .drained, []⟩

def step (s : Supervisord) (a : Action) : Option Supervisord :=
  match s.phase, a with
  | .stopped, _ => none
  | _, .shutdown => some { s with phase := .stopped }
  | .starting start, .launched launch now => s.settleStart start launch now
  | .restarting group index, .launched launch now => s.settleRestart group index launch now
  | .monitoring group next, .polled status now => s.poll group next status now
  | .monitoring group next, .slept =>
    if next < group.children.length then none else some { s with phase := .monitoring group 0 }
  | .drained, .slept => some s.startGroup
  | _, _ => none

end Supervisord

end Renee.Supervisor
