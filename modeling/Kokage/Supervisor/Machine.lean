/-
  Kokage.Supervisor.Machine — a supervisor incarnation as a state machine.

  The supervisor task is always at one of its awaits: the main select loop, the yield
  before a deadline batch, or somewhere inside a drain (`shutdown.rs`). A `Wake` is one
  of these awaits resolving; the task then runs the synchronous code up to its next
  await. Between wakes the environment moves: tasks send readiness, conclude and become
  joinable, handles submit commands, nested incarnations forward snapshots, the clock
  advances. `step` takes one input of either kind; an input that is not enabled changes
  nothing. A run is a list of inputs from `start`.

  `select!` polls its sources in order while other threads write to them, so any enabled
  wake of the main loop may come first: no order between sources is assumed, except
  that a drain reads only the join set and its timers.
-/

import Kokage.Supervisor.Runtime

namespace Kokage.Supervisor

open Kokage.Lib

/-! ## Drains -/

inductive DrainReason where
  | shutdown
  | groupRestart
  | restForOneRestart
  deriving DecidableEq, Repr

inductive DrainScope where
  | all
  | subset (keys : List ChildKey)
  deriving DecidableEq, Repr

def DrainScope.contains : DrainScope → ChildKey → Bool
  | .all, _ => true
  | .subset keys, key => List.contains keys key

/-- How long the ordered drain holds its cursor after issuing an abort. -/
def orderedAbortCursorWindow : Duration := millis 1

structure OrderedDrain where
  reason : DrainReason
  scope : DrainScope
  /-- The keys the cursor has not reached. -/
  rest : List ChildKey
  backstop : Option Duration
  deferred : List SupervisorRuntime.ClassifiedExit := []
  timedOut : List String := []
  remaining : List ChildKey := []

/-- The awaits of the ordered drain. -/
inductive OrderedWait where
  | grace (key : ChildKey) (deadline : Instant) (grace : Duration)
  | tidy (key : ChildKey) (deadline : Instant)
  | yielded (key : ChildKey)
  | window (key : ChildKey) (deadline : Instant)
  | stragglers (deadline : Instant)

inductive DrainDeadlinePhase where
  | grace (grace : Duration)
  | hardAbort
  deriving DecidableEq, Repr

structure DrainDeadline where
  key : ChildKey
  at_ : Instant
  phase : DrainDeadlinePhase
  deriving DecidableEq, Repr

structure ConcurrentDrain where
  reason : DrainReason
  scope : DrainScope
  deadlines : List DrainDeadline
  deferred : List SupervisorRuntime.ClassifiedExit := []
  timedOut : List String := []

/-- The awaits of the concurrent drain: its two yields, its two sweeps of ready joins,
    and the select between them. -/
inductive ConcurrentWait where
  | yield
  | sweep
  | select
  | lastYield
  | lastSweep
  deriving DecidableEq, Repr

inductive DrainPhase where
  | ordered (d : OrderedDrain) (w : OrderedWait)
  | concurrent (d : ConcurrentDrain) (w : ConcurrentWait)

/-- A drain either awaits again or returns. -/
inductive DrainOut where
  | await (p : DrainPhase)
  | done (result : Except SupervisorError (List SupervisorRuntime.ClassifiedExit))

namespace SupervisorRuntime

def isChildActive (rt : SupervisorRuntime) (key : ChildKey) : Bool :=
  (rt.children.get key).any fun e => e.membership ≠ .removed && e.runtime.state.isActive

def isDrained (rt : SupervisorRuntime) : DrainScope → Bool
  | .all => decide (rt.liveTasks = 0)
  | .subset keys => !keys.any rt.isChildActive

/-- `collect_child_names`, in key order. -/
def childNames (rt : SupervisorRuntime) (p : ChildKey → Bool) : String :=
  ", ".intercalate ((rt.children.iter.filter fun (key, _) => p key).map fun (_, e) => e.id)

def activeTaskNames (rt : SupervisorRuntime) (scope : DrainScope) : String :=
  rt.childNames fun key => scope.contains key && rt.isChildActive key

/-- `abort_matching_children`. -/
def abortMatching (rt : SupervisorRuntime) (p : ChildKey → ChildEntry → Bool) : SupervisorRuntime :=
  rt.children.iter.foldl (fun rt (key, e) =>
    if e.membership ≠ .removed && e.runtime.state.isActive && p key e then
      match e.runtime.abortHandle with
      | some task => (rt.editRuntime key fun r => { r with nestedAbortCascades := true }).abortTask task
      | none => rt
    else rt) rt

def stopForDrain (scope : DrainScope) (r : ChildRuntime) : ChildRuntime :=
  { r with
    completion := r.completion.markCancelled
    state := .stopping
    activeToken := match scope with
      | .all => r.activeToken
      | .subset _ => r.activeToken.map fun _ => true }

/-- Cancelling the group token cancels every token derived from it. -/
def cancelGroupToken (rt : SupervisorRuntime) : SupervisorRuntime :=
  { rt with
    groupToken := true
    children := rt.children.map fun _ e =>
      { e with runtime := { e.runtime with activeToken := e.runtime.activeToken.map fun _ => true } } }

def cancelRunningChildren (rt : SupervisorRuntime) (scope : DrainScope) : SupervisorRuntime :=
  let rt := rt.childOrder.reverse.foldl (fun rt key =>
    if scope.contains key && (rt.children.get key).any (fun e =>
        e.runtime.state = .running || e.runtime.state = .starting) then
      rt.editRuntime key (stopForDrain scope)
    else rt) rt
  match scope with
  | .all => rt.cancelGroupToken
  | .subset _ => rt

def maxCooperativeGrace (rt : SupervisorRuntime) (scope : DrainScope) : Option Duration :=
  (rt.children.iter.filterMap fun (key, e) =>
    if scope.contains key && rt.isChildActive key then e.runtime.definition.shutdownPolicy.grace else none).max?

/-- A join consumed inside a drain: recorded at once, finalized if the child is being
    removed, and returned when its policy has to wait for the drain to end. -/
def handleJoinForScope (task : TaskId) (c : Conclusion) (scope : DrainScope) (cursor : Option ChildKey) :
    RuntimeM (List ClassifiedExit) := do
  match ← consumeJoinedChild task c with
  | none => pure []
  | some classified => do
    Act.modify (·.recordExit classified.key classified.generation classified.status)
    let rt ← Act.get
    match rt.children.get classified.key with
    | none => pure []
    | some entry =>
      if entry.membership = .removing then do
        Act.modify (·.finalizeRemovedChild classified.key true)
        pure []
      else
        let naturallyCompleted := classified.status = .completed && entry.runtime.completion = .clean
        let nonCursorOrderedExit := cursor.any (· ≠ classified.key)
        if !scope.contains classified.key || naturallyCompleted || nonCursorOrderedExit then pure [classified]
        else pure []

/-! ### The ordered drain -/

def orderedResult (d : OrderedDrain) (stragglers : String) : DrainOut :=
  if d.timedOut ≠ [] then .done (.error (.shutdownTimedOut (", ".intercalate d.timedOut)))
  else if stragglers ≠ "" then .done (.error (.shutdownTimedOut stragglers))
  else .done (.ok d.deferred)

def stragglerNames (rt : SupervisorRuntime) (d : OrderedDrain) : String :=
  rt.childNames fun key => d.remaining.contains key && rt.isChildActive key

/-- The loop head of `wait_for_ordered_stragglers`. -/
def awaitStragglers (rt : SupervisorRuntime) (d : OrderedDrain) (deadline : Instant) : DrainOut :=
  if d.remaining.any rt.isChildActive then .await (.ordered d (.stragglers deadline))
  else orderedResult d (rt.stragglerNames d)

/-- The cursor has walked every key. -/
def orderedEnd (rt : SupervisorRuntime) (d : OrderedDrain) : DrainOut :=
  if d.timedOut = [] ∧ d.remaining ≠ [] ∧ d.reason ≠ .shutdown then
    match d.backstop with
    | some backstop => rt.awaitStragglers d (rt.now + backstop)
    | none => orderedResult d (rt.stragglerNames d)
  else orderedResult d ""

/-- Moves the cursor to the next active child, asks it to stop, and waits for it. -/
def orderedWalk (d : OrderedDrain) : List ChildKey → SupervisorRuntime → DrainOut × SupervisorRuntime
  | [], rt => (rt.orderedEnd { d with rest := [] }, rt)
  | key :: rest, rt =>
    match rt.children.get key with
    | none => orderedWalk d rest rt
    | some e =>
      if e.membership = .removed || !e.runtime.state.isActive then orderedWalk d rest rt
      else
        let rt := rt.editRuntime key fun r => { r with state := .stopping }
        match e.runtime.definition.shutdownPolicy.grace with
        | none => (.await (.ordered { d with rest := rest } (.yielded key)), rt.abortChild key)
        | some grace =>
          (.await (.ordered { d with rest := rest } (.grace key (rt.now + grace) grace)), rt.cancelChild key)

def closeCommandsFor (rt : SupervisorRuntime) (reason : DrainReason) : SupervisorRuntime :=
  if reason = .shutdown then { rt with commandsClosed := true } else rt

def startOrderedDrain (rt : SupervisorRuntime) (reason : DrainReason) (scope : DrainScope) :
    DrainOut × SupervisorRuntime :=
  let rt := rt.closeCommandsFor reason
  let keys := rt.childOrder.reverse.filter scope.contains
  orderedWalk { reason := reason, scope := scope, rest := keys, backstop := rt.maxCooperativeGrace scope } keys rt

/-- `wait_for_ordered_child` returned at its deadline with the child still active. -/
def orderedExpired (d : OrderedDrain) (w : OrderedWait) (rt : SupervisorRuntime) : DrainOut × SupervisorRuntime :=
  match w with
  | .grace key _ grace =>
    let id := ((rt.children.get key).map (·.id)).getD ""
    let d := if d.reason = .shutdown then { d with timedOut := d.timedOut ++ [id] } else d
    let rt := rt.escalateChild key
    (.await (.ordered d (.tidy key (rt.now + tidyAbortBeat grace))), rt)
  | .tidy key _ => (.await (.ordered d (.yielded key)), rt.abortChild key)
  | .window key _ => orderedWalk { d with remaining := d.remaining ++ [key] } d.rest rt
  | .stragglers _ => (orderedResult d (rt.stragglerNames d), rt)
  | .yielded _ => (.await (.ordered d w), rt)

/-- It returned because the child is no longer active (or the join set is empty). -/
def orderedStopped (d : OrderedDrain) (w : OrderedWait) (rt : SupervisorRuntime) : DrainOut × SupervisorRuntime :=
  match w with
  | .tidy key _ => (.await (.ordered d (.yielded key)), rt)
  | .grace _ _ _ | .window _ _ => orderedWalk d d.rest rt
  | .stragglers _ => (orderedResult d (rt.stragglerNames d), rt)
  | .yielded _ => (.await (.ordered d w), rt)

/-- The loop head of the waits after a join was handled. -/
def orderedRecheck (d : OrderedDrain) (w : OrderedWait) (rt : SupervisorRuntime) : DrainOut × SupervisorRuntime :=
  match w with
  | .grace key _ _ | .tidy key _ | .window key _ =>
    if rt.isChildActive key then (.await (.ordered d w), rt) else orderedStopped d w rt
  | .stragglers deadline => (rt.awaitStragglers d deadline, rt)
  | .yielded _ => (.await (.ordered d w), rt)

/-- The yield before the cursor window is over. -/
def orderedYielded (d : OrderedDrain) (key : ChildKey) (rt : SupervisorRuntime) : DrainOut × SupervisorRuntime :=
  if rt.isChildActive key then (.await (.ordered d (.window key (rt.now + orderedAbortCursorWindow))), rt)
  else orderedWalk d d.rest rt

def orderedDeadline : OrderedWait → Option Instant
  | .grace _ at_ _ | .tidy _ at_ | .window _ at_ | .stragglers at_ => some at_
  | .yielded _ => none

/-- The cursor passed to `handle_join_for_scope` at a wait. -/
def orderedCursor : OrderedWait → Option ChildKey
  | .grace key _ _ | .tidy key _ | .window key _ => some key
  | .yielded _ | .stragglers _ => none

/-! ### The concurrent drain -/

def concurrentEnd (rt : SupervisorRuntime) (d : ConcurrentDrain) : DrainOut :=
  let remaining := rt.activeTaskNames d.scope
  if d.timedOut ≠ [] then .done (.error (.shutdownTimedOut (", ".intercalate d.timedOut)))
  else if remaining ≠ "" ∧ d.reason ≠ .shutdown then .done (.error (.shutdownTimedOut remaining))
  else .done (.ok d.deferred)

/-- The select loop was left: what is still active is aborted and given one turn. -/
def concurrentLeave (rt : SupervisorRuntime) (d : ConcurrentDrain) : DrainOut × SupervisorRuntime :=
  if rt.activeTaskNames d.scope ≠ "" then
    (.await (.concurrent d .lastYield), rt.abortMatching fun key _ => d.scope.contains key)
  else (rt.concurrentEnd d, rt)

/-- The head of the select loop. -/
def concurrentLoop (rt : SupervisorRuntime) (d : ConcurrentDrain) : DrainOut × SupervisorRuntime :=
  if rt.isDrained d.scope then rt.concurrentLeave d
  else
    let d := { d with deadlines := d.deadlines.filter fun x => rt.isChildActive x.key }
    if d.deadlines = [] then rt.concurrentLeave d else (.await (.concurrent d .select), rt)

def startConcurrentDrain (rt : SupervisorRuntime) (reason : DrainReason) (scope : DrainScope) :
    DrainOut × SupervisorRuntime :=
  let rt := (rt.cancelRunningChildren scope).closeCommandsFor reason
  let deadlines := rt.children.iter.filterMap fun (key, e) =>
    if scope.contains key && rt.isChildActive key then
      e.runtime.definition.shutdownPolicy.grace.map fun grace => (⟨key, rt.now + grace, .grace grace⟩ : DrainDeadline)
    else none
  (.await (.concurrent { reason := reason, scope := scope, deadlines := deadlines } .yield),
    rt.abortMatching fun key e => scope.contains key && e.runtime.definition.shutdownPolicy.isAbort)

/-- One grace expiry inside the timer branch. -/
def expireGrace (x : ConcurrentDrain × SupervisorRuntime) (key : ChildKey) (grace : Duration) :
    ConcurrentDrain × SupervisorRuntime :=
  let (d, rt) := x
  let id := ((rt.children.get key).map (·.id)).getD ""
  let d := if d.reason = .shutdown then { d with timedOut := d.timedOut ++ [id] } else d
  let hard := fun x : DrainDeadline =>
    if x.key = key then { x with phase := .hardAbort, at_ := rt.now + tidyAbortBeat grace } else x
  ({ d with deadlines := d.deadlines.map hard }, rt.escalateChild key)

/-- The timer branch of the select: grace expiries escalate, elapsed tidy beats abort. -/
def concurrentTimer (d : ConcurrentDrain) (rt : SupervisorRuntime) : DrainOut × SupervisorRuntime :=
  let expired := d.deadlines.filterMap fun x => match x.phase with
    | .grace grace => if x.at_ ≤ rt.now then some (x.key, grace) else none
    | .hardAbort => none
  let (d, rt) := expired.foldl (fun x (key, grace) => expireGrace x key grace) (d, rt)
  let due := d.deadlines.filter fun x => x.phase = .hardAbort && decide (x.at_ ≤ rt.now)
  let rt := (due.map (·.key)).foldl abortChild rt
  rt.concurrentLoop { d with deadlines := d.deadlines.filter fun x => x.phase ≠ .hardAbort || decide (rt.now < x.at_) }

/-- A sweep found no further ready join. -/
def concurrentSwept (d : ConcurrentDrain) (w : ConcurrentWait) (rt : SupervisorRuntime) :
    DrainOut × SupervisorRuntime :=
  match w with
  | .sweep => if rt.isDrained d.scope then (.done (.ok d.deferred), rt) else rt.concurrentLoop d
  | .lastSweep => (rt.concurrentEnd d, rt)
  | .yield | .select | .lastYield => (.await (.concurrent d w), rt)

/-! ### Either drain -/

def startDrain (rt : SupervisorRuntime) (reason : DrainReason) (scope : DrainScope) : DrainOut × SupervisorRuntime :=
  match rt.cfg.kind with
  | .ordered => rt.startOrderedDrain reason scope
  | .dynamic => rt.startConcurrentDrain reason scope

/-- A join delivered to a drain at `p`. A missing task record ends the drain. -/
def drainJoined (p : DrainPhase) (task : TaskId) (c : Conclusion) (rt : SupervisorRuntime) :
    DrainOut × SupervisorRuntime :=
  match p with
  | .ordered d w =>
    match handleJoinForScope task c d.scope (orderedCursor w) rt with
    | (.ok exits, rt) => orderedRecheck { d with deferred := d.deferred ++ exits } w rt
    | (.error (.failure e), rt) => (.done (.error e), rt)
    | (.error .shutdown, rt) => (.await p, rt)
  | .concurrent d w =>
    match handleJoinForScope task c d.scope none rt with
    | (.ok exits, rt) =>
      let d := { d with deferred := d.deferred ++ exits }
      if w = .select then rt.concurrentLoop d else (.await (.concurrent d w), rt)
    | (.error (.failure e), rt) => (.done (.error e), rt)
    | (.error .shutdown, rt) => (.await p, rt)

def drainTimer (p : DrainPhase) (rt : SupervisorRuntime) : DrainOut × SupervisorRuntime :=
  match p with
  | .ordered d w =>
    if (orderedDeadline w).any (· ≤ rt.now) then orderedExpired d w rt else (.await p, rt)
  | .concurrent d w =>
    if w = .select ∧ (d.deadlines.map (·.at_)).min?.any (· ≤ rt.now) then concurrentTimer d rt else (.await p, rt)

def drainResumed (p : DrainPhase) (rt : SupervisorRuntime) : DrainOut × SupervisorRuntime :=
  match p with
  | .ordered d (.yielded key) => orderedYielded d key rt
  | .concurrent d .yield => (.await (.concurrent d .sweep), rt)
  | .concurrent d .lastYield => (.await (.concurrent d .lastSweep), rt)
  | _ => (.await p, rt)

/-- No join is ready: a sweep ends; with the join set empty the waits end too. -/
def drainNoJoin (p : DrainPhase) (rt : SupervisorRuntime) : DrainOut × SupervisorRuntime :=
  match p with
  | .ordered d w => if rt.joinSet.isEmpty then orderedStopped d w rt else (.await p, rt)
  | .concurrent d .select => if rt.joinSet.isEmpty then rt.concurrentLeave d else (.await p, rt)
  | .concurrent d w => concurrentSwept d w rt

/-! ## The run -/

end SupervisorRuntime

open SupervisorRuntime

inductive Continuation where
  | restart (keys : List ChildKey) (freshGroupToken : Bool)
  | shutdown (after : ExitReason)

inductive Phase where
  | main
  | deadlineYield
  | drain (p : DrainPhase) (k : Continuation)
  | exited (result : Except SupervisorError Unit)

structure Machine where
  rt : SupervisorRuntime
  phase : Phase

/-- The epilogue of `run` after `shutdown_all` returned `result`. -/
def endShutdown (after : ExitReason) (result : Except SupervisorError Unit) (rt : SupervisorRuntime) : Machine :=
  match after with
  | .shutdown => ⟨(rt.resolvePendingRemovals none).finalizeStableChannels, .exited result⟩
  | .failure e => ⟨(rt.resolvePendingRemovals (some e)).finalizeStableChannels, .exited (.error e)⟩

def resumeShutdown (after : ExitReason) : DrainOut × SupervisorRuntime → Machine
  | (.await p, rt) => ⟨rt, .drain p (.shutdown after)⟩
  | (.done (.ok _), rt) => endShutdown after (.ok ()) rt.finish
  | (.done (.error e), rt) => endShutdown after (.error e) rt

def shutdownAll (after : ExitReason) (rt : SupervisorRuntime) : Machine :=
  let rt := { rt with state := .stopping, stoppingToken := true }.sendSupervisorEvent .supervisorStopping
  resumeShutdown after (rt.startDrain .shutdown .all)

/-- The loop left with `reason` (`run`). -/
def exitWith (reason : ExitReason) (rt : SupervisorRuntime) : Machine :=
  match reason with
  | .shutdown => shutdownAll .shutdown rt
  | .failure (.startupAborted m) => shutdownAll (.failure (.startupAborted m)) rt
  | .failure e =>
    let rt := if rt.cfg.revivable then rt.detachNestedChildrenForRevivableFailure else rt
    ⟨(rt.resolvePendingRemovals (some e)).finalizeStableChannels, .exited (.error e)⟩

/-- Back to the main loop, or out of it. -/
def continueMain (m : RuntimeM Unit) (rt : SupervisorRuntime) : Machine :=
  match m rt with
  | (.ok (), rt) => ⟨rt, .main⟩
  | (.error reason, rt) => exitWith reason rt

def finishRestart (keys : List ChildKey) (freshGroupToken : Bool) (completed : List ClassifiedExit) : RuntimeM Unit := do
  let deferred ← respawnGroup keys freshGroupToken completed
  if freshGroupToken then pure () else applyDeferred deferred

def resumeRestart (keys : List ChildKey) (freshGroupToken : Bool) : DrainOut × SupervisorRuntime → Machine
  | (.await p, rt) => ⟨rt, .drain p (.restart keys freshGroupToken)⟩
  | (.done (.ok completed), rt) => continueMain (finishRestart keys freshGroupToken completed) rt
  | (.done (.error e), rt) => exitWith (.failure e) rt

def resumeDrain (k : Continuation) (out : DrainOut × SupervisorRuntime) : Machine :=
  match k with
  | .restart keys freshGroupToken => resumeRestart keys freshGroupToken out
  | .shutdown after => resumeShutdown after out

/-- The deadline branch of the main loop after its yield. -/
def deadlineBatch (rt : SupervisorRuntime) : Machine :=
  let batch : RuntimeM (Option (List ChildKey)) := do
    drainDeadlineCommandBatch rt.commandRx
    handleDeadlines
  match batch rt with
  | (.error reason, rt) => exitWith reason rt
  | (.ok none, rt) => ⟨rt, .main⟩
  | (.ok (some keys), rt) =>
    if rt.cfg.strategy = .oneForAll then resumeRestart keys true (rt.startDrain .groupRestart .all)
    else resumeRestart keys false (rt.startDrain .restForOneRestart (.subset keys))

inductive Wake where
  | shutdown
  | command
  | ready
  | nestedSnapshot
  | deadline
  | joined (task : TaskId)
  /-- A timer of a drain fired. -/
  | timer
  /-- A `yield_now` returned. -/
  | resumed
  /-- A drain found no ready join. -/
  | noJoin
  deriving DecidableEq, Repr

/-- The conclusion of a joinable task. -/
def joinable (rt : SupervisorRuntime) (task : TaskId) : Option Conclusion :=
  (rt.joinSet.find? (·.id = task)).bind fun t => match t.status with
    | .finished c => some c
    | _ => none

def wakeMain (rt : SupervisorRuntime) : Wake → Machine
  | .shutdown => if rt.shutdownRequested then exitWith .shutdown rt else ⟨rt, .main⟩
  | .command =>
    match rt.commandsOpen, rt.commandRx with
    | true, command :: rest => continueMain (handleCommand command) { rt with commandRx := rest }
    | true, [] => ⟨if rt.commandsClosed then { rt with commandsOpen := false } else rt, .main⟩
    | false, _ => ⟨rt, .main⟩
  | .ready =>
    match rt.readyRx with
    | ready :: rest => continueMain (handleChildReady ready) { rt with readyRx := rest }
    | [] => ⟨rt, .main⟩
  | .nestedSnapshot =>
    match rt.nestedRx with
    | n :: rest => ⟨({ rt with nestedRx := rest }).handleNestedSnapshot n, .main⟩
    | [] => ⟨rt, .main⟩
  | .deadline => ⟨rt, if rt.earliestDeadline.any (· ≤ rt.now) then .deadlineYield else .main⟩
  | .joined task =>
    match joinable rt task with
    | some c => continueMain (handleJoinedChild task c) rt
    | none => ⟨rt, .main⟩
  | .timer | .resumed | .noJoin => ⟨rt, .main⟩

def wakeDrain (rt : SupervisorRuntime) (p : DrainPhase) (k : Continuation) : Wake → Machine
  | .joined task =>
    match p, joinable rt task with
    -- a yield polls nothing
    | .ordered _ (.yielded _), _ | .concurrent _ .yield, _ | .concurrent _ .lastYield, _ => ⟨rt, .drain p k⟩
    | _, some c => resumeDrain k (drainJoined p task c rt)
    | _, none => ⟨rt, .drain p k⟩
  | .timer => resumeDrain k (drainTimer p rt)
  | .resumed => resumeDrain k (drainResumed p rt)
  | .noJoin => resumeDrain k (drainNoJoin p rt)
  | .shutdown | .command | .ready | .nestedSnapshot | .deadline => ⟨rt, .drain p k⟩

def wake (m : Machine) (w : Wake) : Machine :=
  match m.phase with
  | .main => wakeMain m.rt w
  | .deadlineYield => if w = .resumed then deadlineBatch m.rt else m
  | .drain p k => wakeDrain m.rt p k w
  | .exited _ => m

/-! ## The environment -/

inductive EnvStep where
  | requestShutdown
  | submit (command : SupervisorCommand)
  | closeCommands
  | markReady (ready : ChildReady)
  | forward (spawn : TaskMeta) (snapshot : SupervisorSnapshot)
  | conclude (task : TaskId) (c : Conclusion)
  | settle (task : TaskId)
  | tick (d : Duration)
  | terminalHub

namespace SupervisorRuntime

/-- A handle that submits commands exists only for a dynamic scope. -/
def accepts (rt : SupervisorRuntime) : Bool := decide (rt.cfg.kind = .dynamic) && !rt.commandsClosed

def setStatus (rt : SupervisorRuntime) (task : TaskId) (status : TaskStatus) : SupervisorRuntime :=
  { rt with joinSet := rt.joinSet.map fun t => if t.id = task then { t with status := status } else t }

/-- The child of `ready` is still starting, has not been asked to stop, and its task has
    not concluded. -/
def isTimely (rt : SupervisorRuntime) (ready : ChildReady) : Bool :=
  (rt.children.get ready.key).any fun e =>
    e.lineage = ready.lineage && e.runtime.generation = ready.generation && e.runtime.state = .starting &&
      rt.joinSet.any fun t => e.runtime.abortHandle = some t.id && t.status = .running

/-- The task's completion flag is the one its entry holds while it is current. -/
def markClean (rt : SupervisorRuntime) (task : TaskId) : SupervisorRuntime :=
  match rt.taskMap task with
  | some m =>
    if rt.currentChildMatches m.key m.lineage m.generation then
      rt.editRuntime m.key fun r => { r with completion := r.completion.markClean }
    else rt
  | none => rt

/-- `SnapshotCell::forward`. -/
def forwardSnapshot (rt : SupervisorRuntime) (spawn : TaskMeta) (snapshot : SupervisorSnapshot) : SupervisorRuntime :=
  let cell := rt.snapshotCells spawn
  if cell.latest = some snapshot then rt
  else
    { rt with
      snapshotCells := Function.update rt.snapshotCells spawn ⟨some snapshot, true⟩
      nestedRx := if cell.queued then rt.nestedRx else rt.nestedRx ++ [spawn] }

def env (rt : SupervisorRuntime) : EnvStep → SupervisorRuntime
  | .requestShutdown => { rt with shutdownRequested := true }
  | .submit command => if rt.accepts then { rt with commandRx := rt.commandRx ++ [command] } else rt
  | .closeCommands => { rt with commandsClosed := true }
  | .markReady ready =>
    if rt.readySignals.contains ready then
      { rt with
        readySignals := rt.readySignals.erase ready
        readyRx := rt.readyRx ++ [ready]
        timelyReady := if rt.isTimely ready then rt.timelyReady ++ [ready] else rt.timelyReady }
    else rt
  | .forward spawn snapshot => rt.forwardSnapshot spawn snapshot
  | .conclude task c =>
    match rt.joinSet.find? (·.id = task) with
    | none => rt
    | some t =>
      if t.status ≠ .running || (c = .aborted && !t.abortRequested) then rt
      else
        -- `mark_clean` comes before the task ends
        let rt := if c = .returned .ok then rt.markClean task else rt
        rt.setStatus task (.concluded c)
  | .settle task =>
    match rt.joinSet.find? (·.id = task) with
    | some ⟨_, _, .concluded c⟩ => rt.setStatus task (.finished c)
    | _ => rt
  | .tick d => { rt with now := rt.now + d }
  | .terminalHub => { rt with hubTerminal := true }

end SupervisorRuntime

/-! ## Runs -/

/-- A built configuration: `build` has rejected empty and duplicate ids, and every nested
    supervisor was lowered with its stable identity. -/
structure SupervisorConfig where
  host : Host
  strategy : Strategy
  kind : ScopeKind
  defaultChildRestart : RestartPolicy
  defaultChildShutdown : Shutdown
  children : List ChildDefinition
  ids_nodup : (children.map (·.id)).Nodup
  ids_nonempty : ∀ d ∈ children, d.id ≠ ""

/-- What an incarnation finds when it starts: the hub's counters after its bind minted
    the static lineages, the restart total it resumes from, whether it is revivable and
    whether a parent waits for its startup. -/
structure Binding where
  seq : Nat
  firstLineage : Nat
  totalRestarts : Nat
  revivable : Bool
  hasParent : Bool
  now : Instant

def staticChannels (d : ChildDefinition) : Option StableChannels :=
  match d.kind with
  | .supervisor channels => some ⟨channels, true⟩
  | .task => none

namespace SupervisorRuntime

def blank (cfg : RuntimeMeta) (b : Binding) : SupervisorRuntime where
  cfg := cfg
  state := .running
  stoppingToken := false
  groupToken := false
  joinSet := []
  children := .empty
  childrenById := fun _ => none
  childOrder := []
  liveTasks := 0
  taskMap := fun _ => none
  startSequence := none
  startupGate := none
  totalRestarts := b.totalRestarts
  seq := b.seq
  nextLineage := b.firstLineage
  hubTerminal := false
  log := []
  published := []
  notices := []
  shutdownRequested := false
  commandRx := []
  commandsClosed := false
  commandsOpen := true
  readySignals := []
  readyRx := []
  timelyReady := []
  spawnedFrom := []
  snapshotCells := fun _ => ⟨none, false⟩
  nestedRx := []
  now := b.now

/-- `SupervisorRuntime::new`: the static children in declaration order, with the
    consecutive lineages their bind minted. -/
def new (c : SupervisorConfig) (b : Binding) : SupervisorRuntime :=
  c.children.foldl (fun rt d => rt.insertEntry d (staticChannels d))
    (blank ⟨c.host, c.strategy, c.kind, c.defaultChildRestart, c.defaultChildShutdown, b.revivable⟩ b)

/-- `run_until_exit` up to its first await. -/
def startup (hasParent : Bool) : RuntimeM Unit := do
  Act.modify (·.sendSupervisorEvent .supervisorStarted)
  let rt ← Act.get
  let initialChildren := rt.childOrder
  Act.forEach initialChildren fun key => Act.modify (·.sendLifecycle key .added)
  if hasParent then
    Act.modify fun rt => { rt with startupGate := some (initialChildren.filterMap fun key =>
      (rt.children.get key).map fun e => (key, e.lineage)) }
  scheduleStartSequence initialChildren false
  Act.modify completeEmptyStartupGate

end SupervisorRuntime

def start (c : SupervisorConfig) (b : Binding) : Machine := continueMain (startup b.hasParent) (.new c b)

inductive Input where
  | env (e : EnvStep)
  | wake (w : Wake)

def step (m : Machine) : Input → Machine
  | .env e => { m with rt := m.rt.env e }
  | .wake w => wake m w

def run (m : Machine) (inputs : List Input) : Machine := inputs.foldl step m

end Kokage.Supervisor
