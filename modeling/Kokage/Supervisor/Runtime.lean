/-
  Kokage.Supervisor.Runtime — one supervisor incarnation (`SupervisorRuntime`): its
  state and every synchronous handler of `supervision.rs` and `spawn.rs`. The awaits
  (the select loop and the drains) are in `Kokage.Supervisor.Machine`.

  What the incarnation shares with others is kept here as it sees it:
  - the join set is a list of tasks, each running, concluded (its result is decided, its
    completion flag already flipped) or finished (joinable);
  - `readySignals` are the `ReadySignal`s issued and not yet used, `readyRx` the messages
    sent and not yet received; `snapshotCells` are the nested snapshot cells, named by
    the spawn that made them;
  - `seq`, `nextLineage`, `hubTerminal` are the lifecycle hub's, and `log` every child
    event that was given a sequence; `published` is every snapshot handed to
    `publish_snapshot`; `notices` everything else that leaves the runtime.
  `timelyReady` and `spawnedFrom` are history variables: the readiness messages sent while
  their task had not concluded and the supervisor had not asked it to stop, and the state
  in which each call of `spawn_child` found its child.

  Observability (spans, metrics) and attachment views are left out. Indexing a missing
  key panics in the source; here it reads nothing and writes nothing.
-/

import Kokage.Lib.Act
import Kokage.Lib.Slab
import Kokage.Supervisor.Intensity

namespace Kokage.Supervisor

open Kokage.Lib

/-! ## State -/

inductive RuntimeChildState where
  | startQueued
  | starting
  | running
  | stopping
  | stopped
  deriving DecidableEq, Repr

def RuntimeChildState.isActive : RuntimeChildState → Bool
  | .starting | .running | .stopping => true
  | .startQueued | .stopped => false

theorem isActive_ne {st : RuntimeChildState} (h : st.isActive = true) : st ≠ .startQueued ∧ st ≠ .stopped := by
  cases st <;> simp [RuntimeChildState.isActive] at h ⊢

/-- Whether a child in this state may be spawned. -/
def RuntimeChildState.isIdle : RuntimeChildState → Bool
  | .startQueued | .stopped => true
  | .starting | .running | .stopping => false

inductive CompletionFlag where
  | pending
  | cancelled
  | clean
  deriving DecidableEq, Repr

/-- Both transitions are compare-exchanges out of `pending`. -/
def CompletionFlag.markCancelled : CompletionFlag → CompletionFlag
  | .pending => .cancelled
  | f => f

def CompletionFlag.markClean : CompletionFlag → CompletionFlag
  | .pending => .clean
  | f => f

inductive SupervisorState where
  | running
  | stopping
  | stopped
  deriving DecidableEq, Repr

inductive MembershipState where
  | active
  | removing
  | removed
  deriving DecidableEq, Repr

structure TaskMeta where
  key : ChildKey
  lineage : Nat
  generation : Nat
  deriving DecidableEq, Repr

/-- `ChildReady` carries the same triple as the spawn it belongs to. -/
abbrev ChildReady := TaskMeta

abbrev NestedSnapshotNotification := TaskMeta

structure NestedSnapshotState where
  latest : Option SupervisorSnapshot
  queued : Bool

/-- How a task ended: its result, or a join error. -/
inductive Conclusion where
  | returned (result : ExitResult)
  | aborted
  | panicked
  deriving DecidableEq, Repr

inductive TaskStatus where
  | running
  | concluded (c : Conclusion)
  | finished (c : Conclusion)
  deriving DecidableEq, Repr

structure Task where
  id : TaskId
  abortRequested : Bool
  status : TaskStatus
  deriving DecidableEq, Repr

structure ChildRuntime where
  definition : ChildDefinition
  restartTracker : RestartTracker
  generation : Nat
  state : RuntimeChildState
  /-- The child's token; the flag says whether it is cancelled. -/
  activeToken : Option Bool
  activeAbortToken : Option Bool
  abortHandle : Option TaskId
  nestedAbortCascades : Bool
  hasStarted : Bool
  hasReportedReady : Bool
  startupAborted : Bool
  nextRestartDeadline : Option Instant
  completion : CompletionFlag
  shutdownTimedOut : Bool

def ChildRuntime.new (definition : ChildDefinition) (seed : UInt64) : ChildRuntime where
  definition := definition
  restartTracker := .new definition.restart seed
  generation := 0
  state := .stopped
  activeToken := none
  activeAbortToken := none
  abortHandle := none
  nestedAbortCascades := true
  hasStarted := false
  hasReportedReady := false
  startupAborted := false
  nextRestartDeadline := none
  completion := .pending
  shutdownTimedOut := false

structure PendingRemoval where
  /-- Names the reply sender. -/
  reply : Nat
  policy : Shutdown
  graceDeadline : Instant
  graceExpired : Bool
  hardAbortDeadline : Option Instant

/-- A stable nested identity and the kind of edge that claimed it. -/
structure StableChannels where
  identity : Nat
  staticallyConfigured : Bool
  deriving DecidableEq, Repr

structure ChildEntry where
  id : String
  lineage : Nat
  runtime : ChildRuntime
  lastExit : Option ExitKind
  lastExitCancelled : Bool
  nestedSnapshot : Option SupervisorSnapshot
  /-- The spawn whose snapshot cell this entry reads. -/
  nestedSnapshotState : Option TaskMeta
  nestedChannels : Option StableChannels
  membership : MembershipState
  pendingRemoval : Option PendingRemoval

def ChildEntry.new (id : String) (definition : ChildDefinition) (nestedChannels : Option StableChannels)
    (lineage : Nat) (seed : UInt64) : ChildEntry where
  id := id
  lineage := lineage
  runtime := .new definition seed
  lastExit := none
  lastExitCancelled := false
  nestedSnapshot := none
  nestedSnapshotState := none
  nestedChannels := nestedChannels
  membership := .active
  pendingRemoval := none

structure StartItem where
  key : ChildKey
  lineage : Nat
  emitRestartEvent : Bool
  deriving DecidableEq, Repr

structure StartGate where
  key : ChildKey
  lineage : Nat
  generation : Nat
  deriving DecidableEq, Repr

structure StartSequence where
  queue : List StartItem := []
  gate : Option StartGate := none
  deriving DecidableEq, Repr

/-- `add_child_spec` sends nested supervisors through their own command. -/
inductive SupervisorCommand where
  | addChild (child : ChildDefinition) (isTask : child.kind.isSupervisor = false) (reply : Nat)
  | removeChild (id : String) (expectedLineage : Option Nat) (reply : Nat)
  | addNested (child : ChildDefinition) (isNested : child.kind.isSupervisor = true) (reply : Nat)
  deriving DecidableEq

inductive ExitReason where
  | shutdown
  | failure (error : SupervisorError)
  deriving DecidableEq, Repr

structure CommandFailure where
  error : ControlError
  exit : Option ExitReason

/-- What can be seen of removals at some moment: whose tasks are still to be joined, who is
    in the snapshot last published, the removals told and the identities retired. -/
structure Seen where
  unjoined : List Nat
  shown : List Nat
  removed : List (String × Nat)
  retired : List (String × Nat)
  deriving DecidableEq, Repr

inductive Notice where
  | supervisor (kind : SupervisorEventKind)
  /-- `mark_ready` on the parent's context. -/
  | parentReady
  /-- `terminal` on a nested identity. -/
  | terminal (identity : Nat)
  /-- A dynamic nested identity enters the scope's channel map. -/
  | insertNested (id : String) (identity : Nat)
  /-- `retire_nested_identity`. -/
  | retire (id : String) (identity : Nat)
  | addReply (reply : Nat) (result : Except ControlError Nat)
  /-- The reply to a removal that was parked records what could be seen when it was sent. -/
  | removeReply (reply : Nat) (result : Except ControlError Unit) (seen : Option Seen)
  /-- The startup verdict on one generation (`startup_member_aborted` failing). -/
  | startupAborted (child : TaskMeta)

def Notice.retires : Notice → Option (String × Nat)
  | .retire id identity => some (id, identity)
  | _ => none

/-- What the slab and Tokio hand out: a vacant key, and the id of a new task, distinct
    from those of the tasks in the join set. `seed` is the clock read by `JitterRng::new`. -/
structure Host where
  slabKey : List Nat → ChildKey
  slabKey_fresh : ∀ occupied, slabKey occupied ∉ occupied
  taskId : List TaskId → TaskId
  taskId_fresh : ∀ live, taskId live ∉ live
  seed : Nat → UInt64

structure RuntimeMeta where
  host : Host
  strategy : Strategy
  kind : ScopeKind
  defaultChildRestart : RestartPolicy
  defaultChildShutdown : Shutdown
  revivable : Bool

structure SupervisorRuntime where
  cfg : RuntimeMeta
  state : SupervisorState
  stoppingToken : Bool
  groupToken : Bool
  joinSet : List Task
  children : Slab ChildEntry
  childrenById : String → Option ChildKey
  childOrder : List ChildKey
  liveTasks : Nat
  taskMap : TaskId → Option TaskMeta
  startSequence : Option StartSequence
  /-- The initial children the parent still waits for, while its gate is open. -/
  startupGate : Option (List (ChildKey × Nat))
  totalRestarts : Nat
  seq : Nat
  nextLineage : Nat
  hubTerminal : Bool
  log : List ChildEvent
  published : List SupervisorSnapshot
  notices : List Notice
  shutdownRequested : Bool
  commandRx : List SupervisorCommand
  /-- No command sender is left, or the receiver was closed. -/
  commandsClosed : Bool
  commandsOpen : Bool
  readySignals : List ChildReady
  readyRx : List ChildReady
  timelyReady : List ChildReady
  spawnedFrom : List RuntimeChildState
  snapshotCells : TaskMeta → NestedSnapshotState
  nestedRx : List NestedSnapshotNotification
  now : Instant

abbrev RuntimeM := Act SupervisorRuntime ExitReason
abbrev CommandM := Act SupervisorRuntime CommandFailure

/-- `From<ExitReason> for CommandFailure`. -/
def CommandFailure.ofExit (exit : ExitReason) : CommandFailure where
  error := match exit with
    | .shutdown => .unavailable
    | .failure e => .failed e
  exit := some exit

namespace SupervisorRuntime

def edit (rt : SupervisorRuntime) (key : ChildKey) (f : ChildEntry → ChildEntry) : SupervisorRuntime :=
  { rt with children := rt.children.modify key f }

def editRuntime (rt : SupervisorRuntime) (key : ChildKey) (f : ChildRuntime → ChildRuntime) : SupervisorRuntime :=
  rt.edit key fun e => { e with runtime := f e.runtime }

def notify (rt : SupervisorRuntime) (n : Notice) : SupervisorRuntime := { rt with notices := rt.notices ++ [n] }

/-! ## Publication -/

def childStateView (e : ChildEntry) : ChildStateView :=
  let lastExit := e.lastExit.map fun k => (⟨k, e.lastExitCancelled⟩ : ExitStatus)
  match e.runtime.state with
  | .startQueued | .starting => .starting lastExit
  | .running => .running lastExit
  | .stopping => .stopping e.runtime.hasReportedReady lastExit
  | .stopped =>
    if e.runtime.startupAborted then
      match lastExit with
      | some exit => .startupAborted exit
      | none => .stopped false none
    else .stopped e.runtime.hasReportedReady lastExit

def childSnapshot (now : Instant) (e : ChildEntry) : ChildSnapshot where
  id := e.id
  lineage := e.lineage
  generation := e.runtime.generation
  state := childStateView e
  membership := match e.membership with
    | .active => .active
    | .removing => .removing
    -- removed entries never reach a view
    | .removed => .removing
  restartCount := e.runtime.restartTracker.totalRestarts
  restartPolicy := e.runtime.definition.restart
  removeOnTerminalExit := e.runtime.definition.removeOnTerminalExit
  nextRestartIn := e.runtime.nextRestartDeadline.map (· - now)
  supervisor := e.nestedSnapshot

def snapshotView (rt : SupervisorRuntime) : SupervisorSnapshot where
  state := match rt.state with
    | .running => .running
    | .stopping => .stopping
    | .stopped => .stopped
  kind := rt.cfg.kind
  strategy := rt.cfg.strategy
  totalRestarts := rt.totalRestarts
  lifecycleSeq := rt.seq
  children := rt.childOrder.filterMap fun key => (rt.children.get key).map (childSnapshot rt.now)

def publishSnapshot (rt : SupervisorRuntime) : SupervisorRuntime :=
  { rt with published := rt.published ++ [rt.snapshotView] }

def lifecycleDraft (rt : SupervisorRuntime) (key : ChildKey) (kind : ChildEventKind) : Option LifecycleEventDraft :=
  (rt.children.get key).map fun e =>
    { childId := e.id, lineage := e.lineage, totalRestarts := rt.totalRestarts,
      childRestartCount := e.runtime.restartTracker.totalRestarts, kind := kind }

/-- `LifecycleHub::emit`, then the forward: the event takes the next sequence and the
    aligned snapshot is published unless the hub is terminal. -/
def sendLifecycleDraft (rt : SupervisorRuntime) (d : LifecycleEventDraft) : SupervisorRuntime :=
  let event : ChildEvent :=
    { seq := rt.seq + 1, childId := d.childId, lineage := d.lineage, totalRestarts := d.totalRestarts,
      childRestartCount := d.childRestartCount, kind := d.kind }
  let rt := { rt with seq := rt.seq + 1, log := rt.log ++ [event] }
  if rt.hubTerminal then rt else rt.publishSnapshot

def sendLifecycle (rt : SupervisorRuntime) (key : ChildKey) (kind : ChildEventKind) : SupervisorRuntime :=
  match rt.lifecycleDraft key kind with
  | some d => rt.sendLifecycleDraft d
  | none => rt

/-- `send_event` for the scope-level events: the snapshot, then the unsequenced event. -/
def sendSupervisorEvent (rt : SupervisorRuntime) (kind : SupervisorEventKind) : SupervisorRuntime :=
  let rt := rt.publishSnapshot
  if rt.hubTerminal then rt else rt.notify (.supervisor kind)

/-- `send_event` for `ChildStarted`, `ChildExited` and `ChildRemoved`: these only publish
    (`ChildRestartScheduled` and `ChildRestarted` do not even that). -/
def sendChildEvent (rt : SupervisorRuntime) : SupervisorRuntime := rt.publishSnapshot

def finish (rt : SupervisorRuntime) : SupervisorRuntime :=
  { rt with state := .stopped }.sendSupervisorEvent .supervisorStopped

/-! ## Spawning -/

/-- What `spawn_child` writes to the entry before it spawns the task. -/
def prepareSpawn (rt : SupervisorRuntime) (key : ChildKey) (e : ChildEntry) : ChildEntry :=
  let generation := if e.runtime.hasStarted then e.runtime.generation + 1 else e.runtime.generation
  { e with
    runtime := { e.runtime with
      generation := generation
      restartTracker := e.runtime.restartTracker.recordSpawn rt.now
      activeToken := some rt.groupToken
      activeAbortToken := some false
      shutdownTimedOut := false
      state := .starting
      hasReportedReady := false
      startupAborted := false
      nextRestartDeadline := none
      completion := .pending
      nestedAbortCascades := true }
    nestedSnapshot := none
    nestedSnapshotState :=
      if e.runtime.definition.kind.isSupervisor then some ⟨key, e.lineage, generation⟩ else none }

/-- What it writes once the task has an id. -/
def finishSpawn (task : TaskId) (e : ChildEntry) : ChildEntry :=
  { e with
    runtime := { e.runtime with
      hasStarted := true
      hasReportedReady := if e.runtime.definition.readiness = .immediate then true else e.runtime.hasReportedReady
      state := if e.runtime.definition.readiness = .immediate then .running else .starting
      abortHandle := some task } }

/-- The task enters the join set and the runtime's books. -/
def installTask (rt : SupervisorRuntime) (key : ChildKey) (e : ChildEntry) : SupervisorRuntime :=
  let task := rt.cfg.host.taskId (rt.joinSet.map (·.id))
  let spawn : TaskMeta := ⟨key, e.lineage, e.runtime.generation⟩
  { rt with
    joinSet := rt.joinSet ++ [⟨task, false, .running⟩]
    children := rt.children.insertAt key (finishSpawn task e)
    liveTasks := rt.liveTasks + 1
    taskMap := Function.update rt.taskMap task (some spawn)
    readySignals := if e.runtime.definition.readiness.isGated then rt.readySignals ++ [spawn] else rt.readySignals
    snapshotCells :=
      if e.runtime.definition.kind.isSupervisor then Function.update rt.snapshotCells spawn ⟨none, false⟩
      else rt.snapshotCells }

/-- Spawns the next generation and returns the old one (if any) and the new one. -/
def spawnChild (key : ChildKey) : RuntimeM (Option Nat × Nat) := do
  let rt ← Act.get
  match rt.children.get key with
  | none => Act.fail (.failure (.internal ("missing child slot for key " ++ toString key)))
  | some entry =>
    Act.modify fun rt => { rt with spawnedFrom := rt.spawnedFrom ++ [entry.runtime.state] }
    let oldGeneration := if entry.runtime.hasStarted then some entry.runtime.generation else none
    let e := rt.prepareSpawn key entry
    if e.runtime.definition.kind.isSupervisor && e.nestedChannels.isNone then do
      Act.modify fun rt => { rt with children := rt.children.insertAt key e }
      Act.fail (.failure (.internal ("missing stable channels for nested supervisor " ++ e.id)))
    else do
      Act.modify fun rt => rt.installTask key e
      if e.runtime.definition.readiness = .immediate then
        Act.modify fun rt => (rt.sendLifecycle key (.started e.runtime.generation)).sendChildEvent
      else
        Act.modify publishSnapshot
      pure (oldGeneration, e.runtime.generation)

/-! ## The startup gate of a nested scope -/

def completeEmptyStartupGate (rt : SupervisorRuntime) : SupervisorRuntime :=
  if rt.startupGate = some [] then { rt with startupGate := none }.notify .parentReady else rt

def startupMemberReady (rt : SupervisorRuntime) (key : ChildKey) (lineage : Nat) : SupervisorRuntime :=
  match rt.startupGate with
  | none => rt
  | some pending =>
    { rt with startupGate := some (pending.filter fun p => p.1 ≠ key || p.2 ≠ lineage) }.completeEmptyStartupGate

def startupMemberRemoved (rt : SupervisorRuntime) (key : ChildKey) (lineage : Nat) : SupervisorRuntime :=
  rt.startupMemberReady key lineage

def startupMemberAborted (key : ChildKey) (lineage : Nat) : RuntimeM Unit := do
  let rt ← Act.get
  if rt.startupGate.any (·.contains (key, lineage)) then
    let id := ((rt.children.get key).map (·.id)).getD "unknown"
    let generation := ((rt.children.get key).map (·.runtime.generation)).getD 0
    Act.modify (·.notify (.startupAborted ⟨key, lineage, generation⟩))
    Act.fail (.failure (.startupAborted ("child `" ++ id ++ "` exited before reporting readiness")))
  else pure ()

/-! ## The start sequence of an ordered scope -/

def startQueue (rt : SupervisorRuntime) : List StartItem := (rt.startSequence.map (·.queue)).getD []

def startGate (rt : SupervisorRuntime) : Option StartGate := rt.startSequence.bind (·.gate)

def setGate (rt : SupervisorRuntime) (gate : Option StartGate) : SupervisorRuntime :=
  { rt with startSequence := rt.startSequence.map fun s => { s with gate := gate } }

def closeGate (rt : SupervisorRuntime) (gate : StartGate) : SupervisorRuntime :=
  { rt with startSequence := some ⟨rt.startQueue, some gate⟩ }

def spawnStartItem (item : StartItem) : RuntimeM Unit := do
  let rt ← Act.get
  match rt.children.get item.key with
  | none => pure ()
  | some entry =>
    if entry.lineage ≠ item.lineage || entry.membership ≠ .active || !entry.runtime.state.isIdle then pure ()
    else do
      let readinessGated := entry.runtime.definition.readiness.isGated
      let (_, newGeneration) ← spawnChild item.key
      -- `ChildRestarted` is observability only, so `emitRestartEvent` has no further effect
      if rt.cfg.kind = .ordered && readinessGated then
        Act.modify (·.closeGate ⟨item.key, item.lineage, newGeneration⟩)
      else if !readinessGated then
        Act.modify (·.startupMemberReady item.key item.lineage)
      else pure ()

/-- The gate's child, if it is still the gate's membership and active: its state and
    whether a restart is pending. -/
def gateState (rt : SupervisorRuntime) (gate : StartGate) : Option (RuntimeChildState × Option Instant) :=
  (rt.children.get gate.key).bind fun e =>
    if e.lineage = gate.lineage ∧ e.membership = .active then
      some (e.runtime.state, e.runtime.nextRestartDeadline)
    else none

/-- The gate branch of the loop in `advance_start_sequence`: `true` when the loop goes on. -/
def passGate (gate : StartGate) : RuntimeM Bool := do
  let rt ← Act.get
  match rt.gateState gate with
  | some (.starting, _) | some (.stopping, _) | some (.stopped, some _) => pure false
  | some (.running, _) => do
    Act.modify (·.setGate none)
    Act.modify (·.startupMemberReady gate.key gate.lineage)
    pure true
  | some (.stopped, none) => do
    Act.modify (·.setGate none)
    startupMemberAborted gate.key gate.lineage
    pure true
  | some (.startQueued, _) | none => do
    Act.modify (·.setGate none)
    pure true

/-- The queue part of the loop, `queue` being the items not yet popped: spawn until a
    gate closes. `spawn_start_item` never edits the queue. -/
def popQueue : List StartItem → RuntimeM Unit
  | [] => Act.modify fun rt => { rt with startSequence := none }
  | item :: rest => do
    Act.modify fun rt => { rt with startSequence := rt.startSequence.map fun s => { s with queue := rest } }
    spawnStartItem item
    let rt ← Act.get
    if rt.startGate.isSome then pure () else popQueue rest

def advanceStartSequence : RuntimeM Unit := do
  let rt ← Act.get
  let go ← match rt.startGate with
    | some gate => passGate gate
    | none => pure true
  if go then popQueue rt.startQueue else pure ()

def removeStartSequenceMember (rt : SupervisorRuntime) (key : ChildKey) (lineage : Nat) :
    Bool × SupervisorRuntime :=
  match rt.startSequence with
  | none => (false, rt)
  | some s =>
    let cleared := s.gate.any fun g => g.key = key && g.lineage = lineage
    let queue := s.queue.filter fun item => item.key ≠ key || item.lineage ≠ lineage
    (cleared, { rt with startSequence := some ⟨queue, if cleared then none else s.gate⟩ })

def detachStartMember (key : ChildKey) (lineage : Nat) : RuntimeM Unit := do
  let rt ← Act.get
  let (clearedGate, rt') := rt.removeStartSequenceMember key lineage
  Act.modify fun _ => rt'.startupMemberRemoved key lineage
  if clearedGate then advanceStartSequence else pure ()

def terminalStartMember (key : ChildKey) (lineage : Nat) : RuntimeM Unit := do
  let rt ← Act.get
  let (clearedGate, rt') := rt.removeStartSequenceMember key lineage
  Act.modify fun _ => rt'
  startupMemberAborted key lineage
  if clearedGate then advanceStartSequence else pure ()

/-! ## Readiness -/

def handleChildReady (ready : ChildReady) : RuntimeM Unit := do
  let rt ← Act.get
  match rt.children.get ready.key with
  | none => pure ()
  | some entry =>
    if entry.lineage ≠ ready.lineage || entry.runtime.generation ≠ ready.generation ||
        entry.membership ≠ .active || entry.runtime.state ≠ .starting then pure ()
    else do
      Act.modify fun rt =>
        (rt.editRuntime ready.key fun r => { r with state := .running, hasReportedReady := true }).sendLifecycle
          ready.key (.started ready.generation)
      Act.modify sendChildEvent
      Act.modify (·.startupMemberReady ready.key ready.lineage)
      let rt ← Act.get
      if rt.startGate.any fun g =>
          g.key = ready.key && g.lineage = ready.lineage && g.generation = ready.generation then do
        Act.modify (·.setGate none)
        advanceStartSequence
      else pure ()

/-! ## Stopping one child -/

def abortTask (rt : SupervisorRuntime) (task : TaskId) : SupervisorRuntime :=
  { rt with joinSet := rt.joinSet.map fun t => if t.id = task then { t with abortRequested := true } else t }

def abortHandleOf (rt : SupervisorRuntime) (key : ChildKey) : Option TaskId :=
  (rt.children.get key).bind (·.runtime.abortHandle)

def cancelChild (rt : SupervisorRuntime) (key : ChildKey) : SupervisorRuntime :=
  rt.editRuntime key fun r => { r with completion := r.completion.markCancelled, activeToken := r.activeToken.map fun _ => true }

def abortChild (rt : SupervisorRuntime) (key : ChildKey) : SupervisorRuntime :=
  let rt' := rt.editRuntime key fun r =>
    { r with completion := r.completion.markCancelled, nestedAbortCascades := true }
  match rt.abortHandleOf key with
  | some task => rt'.abortTask task
  | none => rt'

def escalateChild (rt : SupervisorRuntime) (key : ChildKey) : SupervisorRuntime :=
  rt.editRuntime key fun r =>
    { r with completion := r.completion.markCancelled, shutdownTimedOut := true,
             activeAbortToken := r.activeAbortToken.map fun _ => true }

/-! ## Removal -/

def pendingRemovalResult (rt : SupervisorRuntime) (id : String) (pending : PendingRemoval)
    (checkElapsedGrace : Bool) (failure : Option SupervisorError) : Except ControlError Unit :=
  let graceExpired := pending.graceExpired ||
    (checkElapsedGrace && !pending.policy.isAbort && decide (pending.graceDeadline ≤ rt.now))
  if failure.isSome then .error .unavailable
  else if graceExpired then .error (.failed (.shutdownTimedOut id))
  else .ok ()

/-- `mark_child_terminal`: a revivable supervisor leaves its static children open. -/
def markChildTerminal (rt : SupervisorRuntime) (key : ChildKey) : SupervisorRuntime :=
  match (rt.children.get key).bind (·.nestedChannels) with
  | none => rt
  | some channels =>
    if rt.cfg.revivable && channels.staticallyConfigured then rt else rt.notify (.terminal channels.identity)

/-- The entry leaves the slab, the id map and the order. -/
def dropEntry (rt : SupervisorRuntime) (key : ChildKey) (entry : ChildEntry) : SupervisorRuntime :=
  { rt with
    children := rt.children.remove key
    liveTasks := if entry.runtime.abortHandle.isSome then rt.liveTasks - 1 else rt.liveTasks
    childrenById := Function.update rt.childrenById entry.id none
    childOrder := rt.childOrder.filter (· ≠ key) }

/-- `retire_nested_identity`, for a nested supervisor's entry. -/
def retireNested (rt : SupervisorRuntime) (entry : ChildEntry) : SupervisorRuntime :=
  match entry.runtime.definition.kind.isSupervisor, entry.nestedChannels with
  | true, some channels => rt.notify (.retire entry.id channels.identity)
  | _, _ => rt

def clearCell (rt : SupervisorRuntime) (entry : ChildEntry) : SupervisorRuntime :=
  match entry.nestedSnapshotState with
  | some cell => { rt with snapshotCells := Function.update rt.snapshotCells cell ⟨none, false⟩ }
  | none => rt

/-- What can be seen of removals now. -/
def seen (rt : SupervisorRuntime) : Seen where
  unjoined := rt.joinSet.filterMap fun t => (rt.taskMap t.id).map (·.lineage)
  shown := (rt.published.getLast?.map fun s => s.children.map (·.lineage)).getD []
  removed := rt.log.filterMap ChildEvent.removal
  retired := rt.notices.filterMap Notice.retires

def finalizeRemovedChild (rt : SupervisorRuntime) (key : ChildKey) (checkElapsedGrace : Bool) :
    SupervisorRuntime :=
  match rt.children.get key with
  | none => rt
  | some entry =>
    let lifecycle := rt.lifecycleDraft key .removed
    let rt := ((rt.dropEntry key entry).clearCell entry).retireNested entry
    let rt := match lifecycle with
      | some d => rt.sendLifecycleDraft d
      | none => rt
    let rt := rt.sendChildEvent
    match entry.pendingRemoval with
    | some pending =>
      rt.notify (.removeReply pending.reply (rt.pendingRemovalResult entry.id pending checkElapsedGrace none) (some rt.seen))
    | none => rt

def resolvePendingRemovals (rt : SupervisorRuntime) (failure : Option SupervisorError) : SupervisorRuntime :=
  let pending := rt.children.iter.filterMap fun (_, e) => e.pendingRemoval.map fun p => (e.id, p)
  let rt := { rt with children := rt.children.map fun _ e => { e with pendingRemoval := none } }
  pending.foldl (fun rt (id, p) =>
    rt.notify (.removeReply p.reply (rt.pendingRemovalResult id p true failure) (some rt.seen))) rt

/-! ## Group respawn -/

inductive GroupRespawnDisposition where
  | respawn
  | skip
  | finalize (startupAborted : Bool)
  deriving DecidableEq, Repr

def groupRespawnDisposition (rt : SupervisorRuntime) (key : ChildKey) : GroupRespawnDisposition :=
  match rt.children.get key with
  | none => .skip
  | some entry =>
    if entry.membership ≠ .active then .skip
    else if entry.runtime.hasStarted && entry.runtime.definition.restart.isNever then
      .finalize (!entry.runtime.hasReportedReady)
    else .respawn

def finalizeSkippedGroupRespawn (key : ChildKey) (startupAborted : Bool) : RuntimeM Unit := do
  let rt ← Act.get
  let lineage := ((rt.children.get key).map (·.lineage)).getD 0
  if startupAborted then do
    Act.modify fun rt => (rt.editRuntime key fun r => { r with startupAborted := true }).publishSnapshot
    startupMemberAborted key lineage
  let rt ← Act.get
  if (rt.children.get key).any (·.runtime.definition.removeOnTerminalExit) then
    Act.modify (·.finalizeRemovedChild key false)
  else
    Act.modify (·.markChildTerminal key)

/-- The body of the loop in `schedule_start_sequence` for a child that is to be started. -/
def scheduleStart (key : ChildKey) (emitRestartEvents : Bool) : RuntimeM Unit := do
  let rt ← Act.get
  match rt.children.get key with
  | none => pure ()
  | some entry =>
    if entry.membership ≠ .active || !entry.runtime.state.isIdle then pure ()
    else
      let item : StartItem := ⟨key, entry.lineage, emitRestartEvents⟩
      if rt.cfg.kind = .dynamic then spawnStartItem item
      else
        Act.modify fun rt =>
          let rt := rt.editRuntime key fun r =>
            { r with state := .startQueued, hasReportedReady := false, nextRestartDeadline := none }
          { rt with startSequence := some ⟨rt.startQueue ++ [item], rt.startGate⟩ }

def scheduleStartSequence (keys : List ChildKey) (emitRestartEvents : Bool) : RuntimeM Unit := do
  Act.forEach keys fun key => do
    let rt ← Act.get
    match (if emitRestartEvents then rt.groupRespawnDisposition key else .respawn) with
    | .respawn => scheduleStart key emitRestartEvents
    | .skip => pure ()
    | .finalize startupAborted => finalizeSkippedGroupRespawn key startupAborted
  let rt ← Act.get
  if rt.cfg.kind = .ordered then do
    Act.modify publishSnapshot
    advanceStartSequence
  else pure ()

/-! ## Commands -/

/-- The id map's answer to an addition: a duplicate, or a removal still in progress. -/
def duplicateError (rt : SupervisorRuntime) (id : String) (key : ChildKey) : ControlError :=
  if (rt.children.get key).any (·.membership = .removing) then .childRemovalInProgress id
  else .rejected (.duplicateChildId id)

/-- The checks `add_child` and `add_nested` share. -/
def checkAddition (rt : SupervisorRuntime) (d : ChildDefinition) : Except ControlError Unit :=
  if d.id = "" then .error (.rejected (.invalidConfig "child id must not be empty"))
  else match d.restart.validate with
    | .error e => .error (.rejected e)
    | .ok () =>
      match rt.childrenById d.id with
      | some key => .error (rt.duplicateError d.id key)
      | none => .ok ()

/-- The new membership enters the slab, the id map and the order. -/
def insertEntry (rt : SupervisorRuntime) (d : ChildDefinition) (nested : Option StableChannels) : SupervisorRuntime :=
  let key := rt.cfg.host.slabKey rt.children.keys
  let lineage := rt.nextLineage
  { rt with
    nextLineage := lineage + 1
    children := rt.children.insertAt key (.new d.id d nested lineage (rt.cfg.host.seed lineage))
    childrenById := Function.update rt.childrenById d.id (some key)
    childOrder := rt.childOrder ++ [key] }

/-- The end of both additions: install, announce, schedule. -/
def installChild (d : ChildDefinition) (nested : Option StableChannels) : CommandM Nat := do
  let rt ← Act.get
  let key := rt.cfg.host.slabKey rt.children.keys
  Act.modify fun rt =>
    let rt := rt.insertEntry d nested
    let rt := match nested with
      | some channels => rt.notify (.insertNested d.id channels.identity)
      | none => rt
    rt.sendLifecycle key .added
  Act.mapError CommandFailure.ofExit (scheduleStartSequence [key] false)
  pure rt.nextLineage

def addChild (child : ChildDefinition) : CommandM Nat := do
  let rt ← Act.get
  let d := child.applyDefaults rt.cfg.defaultChildRestart rt.cfg.defaultChildShutdown
  match rt.checkAddition d with
  | .error e => Act.fail ⟨e, none⟩
  | .ok () => installChild d none

/-- The identity the caller reserved is terminal after a rejection (`PendingSupervisorChild`
    is dropped). -/
def addNested (child : ChildDefinition) : CommandM Nat := do
  let rt ← Act.get
  let d := child.applyDefaults rt.cfg.defaultChildRestart rt.cfg.defaultChildShutdown
  match rt.checkAddition d, d.kind with
  | .error e, .supervisor channels => do
    Act.modify (·.notify (.terminal channels))
    Act.fail ⟨e, none⟩
  | .error e, .task => Act.fail ⟨e, none⟩
  | .ok (), .supervisor channels => installChild d (some ⟨channels, false⟩)
  -- only supervisor children use this command
  | .ok (), .task => Act.fail ⟨.unavailable, none⟩

def completeCommand (reply : Nat) (m : CommandM Nat) : RuntimeM Unit := fun rt =>
  match m rt with
  | (.ok lineage, rt) => (.ok (), rt.notify (.addReply reply (.ok lineage)))
  | (.error ⟨error, exit⟩, rt) =>
    let rt := rt.notify (.addReply reply (.error error))
    match exit with
    | some e => (.error e, rt)
    | none => (.ok (), rt)

/-- The entry becomes `Removing`, and `Stopping` if it has a task. -/
def beginRemoval (rt : SupervisorRuntime) (key : ChildKey) (reply : Nat) : SupervisorRuntime :=
  rt.edit key fun e =>
    { e with
      membership := .removing
      runtime := { e.runtime with
        state := if e.runtime.state.isActive then .stopping else e.runtime.state }
      pendingRemoval := some
        { reply := reply, policy := e.runtime.definition.shutdownPolicy,
          graceDeadline := rt.now + (e.runtime.definition.shutdownPolicy.grace.getD 0),
          graceExpired := false, hardAbortDeadline := none } }

def removeChild (id : String) (expectedLineage : Option Nat) (reply : Nat) : RuntimeM Unit := do
  let rt ← Act.get
  match (rt.childrenById id).bind fun key => (rt.children.get key).map fun e => (key, e) with
  | none => Act.modify (·.notify (.removeReply reply (.error (.unknownChildId id)) none))
  | some (key, entry) =>
    if expectedLineage.any (entry.lineage ≠ ·) then
      Act.modify (·.notify (.removeReply reply (.error (.unknownChildId id)) none))
    else if entry.membership = .removing then
      Act.modify (·.notify (.removeReply reply (.error (.childRemovalInProgress id)) none))
    else do
      let active := entry.runtime.state.isActive
      Act.modify fun rt => (rt.beginRemoval key reply).publishSnapshot
      if active then
        if entry.runtime.definition.shutdownPolicy.isAbort then Act.modify (·.abortChild key)
        else Act.modify (·.cancelChild key)
      detachStartMember key entry.lineage
      if active then pure () else Act.modify (·.finalizeRemovedChild key false)

def handleCommand : SupervisorCommand → RuntimeM Unit
  | .addChild child _ reply => completeCommand reply (addChild child)
  | .removeChild id expectedLineage reply => removeChild id expectedLineage reply
  | .addNested child _ reply => completeCommand reply (addNested child)

/-! ## Nested snapshots -/

def handleNestedSnapshot (rt : SupervisorRuntime) (n : NestedSnapshotNotification) : SupervisorRuntime :=
  match rt.children.get n.key with
  | none => rt
  | some entry =>
    if entry.lineage ≠ n.lineage || entry.runtime.generation ≠ n.generation then rt
    else match entry.nestedSnapshotState with
      | none => rt
      | some cell =>
        let latest := (rt.snapshotCells cell).latest
        let rt := { rt with snapshotCells := Function.update rt.snapshotCells cell ⟨latest, false⟩ }
        (rt.edit n.key fun e => { e with nestedSnapshot := latest }).publishSnapshot

/-! ## Exits -/

structure ClassifiedExit where
  key : ChildKey
  lineage : Nat
  generation : Nat
  status : RuntimeExitStatus
  deriving DecidableEq, Repr

def currentChildMatches (rt : SupervisorRuntime) (key : ChildKey) (lineage generation : Nat) : Bool :=
  (rt.children.get key).any fun e => e.lineage = lineage && e.runtime.generation = generation

def exitStatusOf : Conclusion → RuntimeExitStatus
  | .returned r => .fromChildResult r
  | .aborted => .aborted
  | .panicked => .panicked

/-- An exit the supervisor already escalated past its grace is a shutdown timeout. -/
def classifyChildExit (rt : SupervisorRuntime) (m : TaskMeta) (status : RuntimeExitStatus) : RuntimeExitStatus :=
  if (rt.children.get m.key).any fun e =>
      decide (e.lineage = m.lineage) && decide (e.runtime.generation = m.generation) &&
        (e.runtime.shutdownTimedOut || e.pendingRemoval.any fun p => !p.policy.isAbort && p.graceExpired) then
    .shutdownTimedOut
  else status

def missingTaskMetadata (task : TaskId) : Conclusion → SupervisorError
  | .returned _ => .internal ("missing task metadata for successful join: Id(" ++ toString task ++ ")")
  | .aborted => .internal ("missing task metadata for failed join: task " ++ toString task ++ " was cancelled")
  | .panicked => .internal ("missing task metadata for failed join: task " ++ toString task ++ " panicked")

/-- `classify_join` on a finished task, which leaves the join set as it is joined. -/
def classifyJoin (task : TaskId) (c : Conclusion) : RuntimeM ClassifiedExit := do
  Act.modify fun rt => { rt with joinSet := rt.joinSet.filter (·.id ≠ task) }
  let rt ← Act.get
  match rt.taskMap task with
  | none => Act.fail (.failure (missingTaskMetadata task c))
  | some m => do
    Act.modify fun rt => { rt with taskMap := Function.update rt.taskMap task none }
    let rt ← Act.get
    pure ⟨m.key, m.lineage, m.generation, rt.classifyChildExit m (exitStatusOf c)⟩

def consumeJoinedChild (task : TaskId) (c : Conclusion) : RuntimeM (Option ClassifiedExit) := do
  let classified ← classifyJoin task c
  let rt ← Act.get
  if rt.currentChildMatches classified.key classified.lineage classified.generation then do
    Act.modify fun rt => { rt with liveTasks := rt.liveTasks - 1 }
    pure (some classified)
  else pure none

/-- What `record_exit` writes to the entry. -/
def recordExitEntry (now : Instant) (status : RuntimeExitStatus) (e : ChildEntry) : ChildEntry :=
  { e with
    runtime := { e.runtime with
      restartTracker := e.runtime.restartTracker.recordExit now
      state := .stopped
      activeToken := none
      activeAbortToken := none
      abortHandle := none
      nextRestartDeadline := none
      shutdownTimedOut := false }
    lastExit := some status.view
    lastExitCancelled := decide (e.runtime.completion = .cancelled)
    nestedSnapshot := none
    nestedSnapshotState := none }

def recordExit (rt : SupervisorRuntime) (key : ChildKey) (generation : Nat) (status : RuntimeExitStatus) :
    SupervisorRuntime :=
  let cancelled := (rt.children.get key).any fun e => decide (e.runtime.completion = .cancelled)
  ((rt.edit key (recordExitEntry rt.now status)).sendLifecycle key
    (.exited generation ⟨status.view, cancelled⟩)).sendChildEvent

/-- `schedule_restart`: the delay, or the failure of the whole scope. -/
def scheduleRestart (key : ChildKey) : RuntimeM Duration := do
  Act.modify fun rt => { rt with totalRestarts := rt.totalRestarts + 1 }
  Act.modify fun rt => rt.editRuntime key fun r => { r with restartTracker := r.restartTracker.recordRestart rt.now }
  let rt ← Act.get
  match rt.children.get key with
  | none => pure 0
  | some e =>
    if e.runtime.restartTracker.exceeded then do
      Act.modify fun rt => rt.sendSupervisorEvent (.restartIntensityExceeded rt.totalRestarts)
      Act.fail (.failure .restartIntensityExceeded)
    else do
      let (delay, tracker) := e.runtime.restartTracker.backoff
      Act.modify fun rt => rt.editRuntime key fun r =>
        { r with restartTracker := tracker, nextRestartDeadline := some (rt.now + delay) }
      pure delay

/-- Whether a stop that is not restarted is final under the scope's strategy. -/
def stopIsFinal (rt : SupervisorRuntime) (key : ChildKey) (restart : RestartPolicy) : Bool :=
  match rt.cfg.strategy with
  | .oneForOne => true
  | .oneForAll => restart.isNever
  | .restForOne => restart.isNever || rt.childOrder.head? = some key

/-- A terminal exit of a child that is removed with it: the removal happens even when the
    startup verdict fails the scope. -/
def removeTerminal (key : ChildKey) (lineage : Nat) (startupAborted : Bool) : RuntimeM Unit := fun rt =>
  let (startupResult, rt) := if startupAborted then terminalStartMember key lineage rt else (.ok (), rt)
  (startupResult, rt.finalizeRemovedChild key false)

/-- A terminal exit of a child whose membership stays. -/
def keepTerminal (key : ChildKey) (entry : ChildEntry) (startupAborted : Bool) : RuntimeM Unit := do
  let rt ← Act.get
  if rt.stopIsFinal key entry.runtime.definition.restart then Act.modify (·.markChildTerminal key)
  if startupAborted then terminalStartMember key entry.lineage else pure ()

/-- The branch of `apply_exit_policy_inner` for an exit that is not restarted. -/
def terminalExit (key : ChildKey) (entry : ChildEntry) : RuntimeM Unit := do
  let startupAborted := !entry.runtime.hasReportedReady
  if startupAborted then
    Act.modify fun rt => (rt.editRuntime key fun r => { r with startupAborted := true }).publishSnapshot
  if entry.runtime.definition.removeOnTerminalExit then removeTerminal key entry.lineage startupAborted
  else keepTerminal key entry startupAborted

def applyExitPolicyInner (classified : ClassifiedExit) (allowRestart : Bool) : RuntimeM Unit := do
  let rt ← Act.get
  if rt.state ≠ .running then pure ()
  else match rt.children.get classified.key with
    | none => pure ()
    | some entry =>
      if entry.membership = .removing then Act.modify (·.finalizeRemovedChild classified.key false)
      else if allowRestart && entry.runtime.definition.restart.shouldRestart classified.status.isFailure then do
        let delay ← scheduleRestart classified.key
        Act.modify (·.sendLifecycle classified.key (.restartScheduled entry.runtime.generation delay))
      else if allowRestart then terminalExit classified.key entry
      else pure ()

def applyExitPolicy (classified : ClassifiedExit) : RuntimeM Unit := applyExitPolicyInner classified true

def applyDrainedCompletionPolicy (classified : ClassifiedExit) : RuntimeM Unit :=
  applyExitPolicyInner classified false

def dispatchExit (classified : ClassifiedExit) : RuntimeM Unit := do
  Act.modify (·.recordExit classified.key classified.generation classified.status)
  applyExitPolicy classified

def handleJoinedChild (task : TaskId) (c : Conclusion) : RuntimeM Unit := do
  match ← consumeJoinedChild task c with
  | none => pure ()
  | some classified => dispatchExit classified

/-! ## Restarting one child -/

def restartOne (key : ChildKey) : RuntimeM Unit := do
  let rt ← Act.get
  match rt.children.get key with
  | none => pure ()
  | some entry =>
    if entry.membership ≠ .active || entry.runtime.state ≠ .stopped || entry.runtime.nextRestartDeadline.isNone then
      pure ()
    else do
      Act.modify (·.editRuntime key fun r => { r with nextRestartDeadline := none })
      let (_, newGeneration) ← spawnChild key
      Act.modify fun rt => { rt with startSequence := rt.startSequence.map fun s =>
        { s with gate := s.gate.map fun g =>
            if g.key = key && g.lineage = entry.lineage then { g with generation := newGeneration } else g } }
      let rt ← Act.get
      if (rt.children.get key).any (·.runtime.state = .running) then advanceStartSequence else pure ()

/-! ## Deadlines -/

def removalDeadline (p : PendingRemoval) : Option Instant :=
  if !p.graceExpired && !p.policy.isAbort then some p.graceDeadline else p.hardAbortDeadline

def earliestDeadline (rt : SupervisorRuntime) : Option Instant :=
  (rt.children.iter.flatMap fun (_, e) =>
    [e.pendingRemoval.bind removalDeadline, e.runtime.nextRestartDeadline]).reduceOption.min?

/-- Grace expiry of one pending removal. -/
def expireRemoval (rt : SupervisorRuntime) (key : ChildKey) (grace : Duration) : SupervisorRuntime :=
  (rt.edit key fun e => { e with pendingRemoval := e.pendingRemoval.map fun p =>
    { p with graceExpired := true, hardAbortDeadline := some (rt.now + tidyAbortBeat grace) } }).escalateChild key

def hardAbortRemoval (rt : SupervisorRuntime) (key : ChildKey) : SupervisorRuntime :=
  (rt.edit key fun e => { e with pendingRemoval := e.pendingRemoval.map fun p =>
    { p with hardAbortDeadline := none } }).abortChild key

def expiredRemovals (rt : SupervisorRuntime) : List (ChildKey × Duration) :=
  rt.childOrder.filterMap fun key =>
    ((rt.children.get key).bind (·.pendingRemoval)).bind fun p =>
      p.policy.grace.bind fun grace =>
        if !p.graceExpired && decide (p.graceDeadline ≤ rt.now) then some (key, grace) else none

def hardAbortRemovals (rt : SupervisorRuntime) : List ChildKey :=
  rt.childOrder.filter fun key =>
    ((rt.children.get key).bind (·.pendingRemoval)).any fun p =>
      p.hardAbortDeadline.any fun d => decide (d ≤ rt.now)

def dueRestarts (rt : SupervisorRuntime) : List ChildKey :=
  rt.childOrder.filter fun key =>
    (rt.children.get key).any fun e =>
      e.membership = .active && e.runtime.state = .stopped &&
        e.runtime.nextRestartDeadline.any fun d => decide (d ≤ rt.now)

/-- The keys a group restart covers, or nothing when `restart_group` returns at once. -/
def restartScope (rt : SupervisorRuntime) (failing : ChildKey) (freshGroupToken : Bool) : Option (List ChildKey) :=
  match rt.children.get failing with
  | none => none
  | some entry =>
    if entry.membership ≠ .active then none
    else if freshGroupToken then some rt.childOrder
    else if rt.childOrder.contains failing then some (rt.childOrder.dropWhile (· ≠ failing))
    else none

/-- `handle_deadlines` up to its drain: the keys of the group restart to begin, if any. -/
def handleDeadlines : RuntimeM (Option (List ChildKey)) := do
  let rt ← Act.get
  if rt.shutdownRequested then Act.fail .shutdown
  else do
    Act.modify fun rt => rt.expiredRemovals.foldl (fun rt (key, grace) => rt.expireRemoval key grace) rt
    Act.modify fun rt => rt.hardAbortRemovals.foldl hardAbortRemoval rt
    let rt ← Act.get
    match rt.cfg.strategy, rt.dueRestarts with
    | .oneForOne, due => do
      Act.forEach due restartOne
      pure none
    | _, [] => pure none
    | strategy, key :: _ => do
      Act.modify (·.editRuntime key fun r => { r with nextRestartDeadline := none })
      let rt ← Act.get
      pure (rt.restartScope key (strategy = .oneForAll))

/-- The rest of `restart_group` once its drain returned: completions in scope, the new
    group token, the start sequence without the restarted members, the respawn. -/
def respawnGroup (keys : List ChildKey) (freshGroupToken : Bool) (completed : List ClassifiedExit) :
    RuntimeM (List ClassifiedExit) := do
  let (inScope, deferred) := completed.partition fun c => keys.contains c.key
  Act.forEach inScope fun c => do
    let rt ← Act.get
    if rt.currentChildMatches c.key c.lineage c.generation then applyDrainedCompletionPolicy c else pure ()
  if freshGroupToken then Act.modify fun rt => { rt with groupToken := false }
  Act.modify fun rt => { rt with startSequence := rt.startSequence.map fun s =>
    { queue := s.queue.filter fun item => !keys.contains item.key
      gate := s.gate.filter fun g => !keys.contains g.key } }
  scheduleStartSequence keys true
  pure deferred

/-- The deferred exits of a suffix restart, each applied if it is still current. -/
def applyDeferred (deferred : List ClassifiedExit) : RuntimeM Unit :=
  Act.forEach deferred fun c => do
    let rt ← Act.get
    if rt.currentChildMatches c.key c.lineage c.generation then applyExitPolicy c else pure ()

def drainDeadlineCommandBatch : List SupervisorCommand → RuntimeM Unit
  | [] => do
    let rt ← Act.get
    if rt.shutdownRequested then Act.fail .shutdown
    else Act.modify fun rt => if rt.commandsClosed then { rt with commandsOpen := false } else rt
  | command :: rest => do
    let rt ← Act.get
    if rt.shutdownRequested then Act.fail .shutdown
    else do
      Act.modify fun rt => { rt with commandRx := rest }
      handleCommand command
      drainDeadlineCommandBatch rest

def detachNestedChildrenForRevivableFailure (rt : SupervisorRuntime) : SupervisorRuntime :=
  { rt with children := rt.children.map fun _ e =>
    if e.runtime.state.isActive && e.runtime.definition.kind.isSupervisor then
      { e with runtime := { e.runtime with nestedAbortCascades := false } }
    else e }

/-- `finalize_stable_channels`, once the loop has exited. -/
def finalizeStableChannels (rt : SupervisorRuntime) : SupervisorRuntime :=
  rt.children.keys.foldl markChildTerminal rt

end SupervisorRuntime

end Kokage.Supervisor
