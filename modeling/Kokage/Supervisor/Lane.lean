/-
  Kokage.Supervisor.Lane — what decides which child is started, and when.

  A `Lane` is the part of the runtime the start sequence reads and writes: of every child
  its place in a generation's life, whether a restart is pending and its latest exit; the
  declaration order, the start queue and its gate; the startup gate of a nested scope,
  whether the parent was told, which events each membership has had, and the commands not
  yet taken. The functions on lanes say what the runtime's operations do to it; the `lane_*` equations that the
  runtime does just that. Tokens, tasks, deadlines' instants, snapshots and replies are
  not in it.
-/

import Kokage.Supervisor.Runs

namespace Kokage.Supervisor

open Kokage.Lib

/-! ## State -/

structure Post where
  id : String
  lineage : Nat
  definition : ChildDefinition
  membership : MembershipState
  generation : Nat
  state : RuntimeChildState
  hasStarted : Bool
  hasReportedReady : Bool
  /-- A restart deadline is set. -/
  due : Bool
  lastExit : Option ExitKind
  /-- A nested supervisor without its stable identity. -/
  refuses : Bool
  deriving DecidableEq

namespace Post

def isGated (p : Post) : Bool := p.definition.readiness.isGated

def spawn (p : Post) : Post :=
  { p with
    generation := if p.hasStarted then p.generation + 1 else p.generation
    state := if p.isGated then .starting else .running
    hasStarted := true
    hasReportedReady := !p.isGated
    due := false }

def report (p : Post) : Post := { p with state := .running, hasReportedReady := true }

def exit (kind : ExitKind) (p : Post) : Post := { p with state := .stopped, due := false, lastExit := some kind }

def enqueue (p : Post) : Post := { p with state := .startQueued, hasReportedReady := false, due := false }

def halt (p : Post) : Post := { p with state := .stopping }

def setDue (due : Bool) (p : Post) : Post := { p with due := due }

def leave (p : Post) : Post :=
  { p with membership := .removing, state := if p.state.isActive then .stopping else p.state }

/-- The policy's answer to the latest exit. -/
def wantsRestart (p : Post) : Bool := p.lastExit.any fun x => p.definition.restart.shouldRestart x.isFailure

end Post

/-- What is remembered of a membership's events. -/
inductive News where
  | started (id : String) (lineage : Nat)
  | exited (id : String) (lineage : Nat) (kind : ExitKind)
  | removed (id : String) (lineage : Nat)
  deriving DecidableEq

def ChildEventKind.news (id : String) (lineage : Nat) : ChildEventKind → List News
  | .started _ => [.started id lineage]
  | .exited _ exit => [.exited id lineage exit.kind]
  | .removed => [.removed id lineage]
  | .added | .restartScheduled _ _ => []

structure Lane where
  strategy : Strategy
  kind : ScopeKind
  running : Bool
  posts : ChildKey → Option Post
  order : List ChildKey
  queue : List StartItem
  gate : Option StartGate
  startup : Option (List (ChildKey × Nat))
  /-- How often the parent was told. -/
  told : Nat
  news : List News
  commands : List SupervisorCommand

namespace Lane

def put (L : Lane) (key : ChildKey) (p : Post) : Lane := { L with posts := Function.update L.posts key (some p) }

def edit (L : Lane) (key : ChildKey) (f : Post → Post) : Lane :=
  match L.posts key with
  | none => L
  | some p => L.put key (f p)

def tell (L : Lane) (news : List News) : Lane := { L with news := L.news ++ news }

def spawn (L : Lane) (key : ChildKey) (p : Post) : Lane :=
  let L := L.put key p.spawn
  if p.isGated then L else L.tell [.started p.id p.lineage]

def exit (L : Lane) (key : ChildKey) (kind : ExitKind) : Lane :=
  match L.posts key with
  | none => L
  | some p => (L.put key (p.exit kind)).tell [.exited p.id p.lineage kind]

def drop (L : Lane) (key : ChildKey) : Lane :=
  match L.posts key with
  | none => L
  | some p =>
    { L with posts := Function.update L.posts key none, order := L.order.filter (· ≠ key) }.tell [.removed p.id p.lineage]

/-- `startup_member_ready` and `complete_empty_startup_gate`. -/
def memberReady (L : Lane) (key : ChildKey) (lineage : Nat) : Lane :=
  match L.startup with
  | none => L
  | some pending =>
    match pending.filter fun p => p.1 ≠ key || p.2 ≠ lineage with
    | [] => { L with startup := none, told := L.told + 1 }
    | rest => { L with startup := some rest }

def openGate (L : Lane) : Lane := { L with gate := none }

/-! ## The start sequence -/

def startItem (L : Lane) (item : StartItem) : Lane :=
  match L.posts item.key with
  | none => L
  | some p =>
    if p.lineage ≠ item.lineage || p.membership ≠ .active || !p.state.isIdle then L
    else
      let L := L.spawn item.key p
      if L.kind = .ordered && p.isGated then
        { L with gate := some ⟨item.key, item.lineage, p.spawn.generation⟩ }
      else if !p.isGated then L.memberReady item.key item.lineage
      else L

def pop : List StartItem → Lane → Lane
  | [], L => { L with queue := [], gate := none }
  | item :: rest, L =>
    let L := { L with queue := rest }.startItem item
    if L.gate.isSome then L else pop rest L

/-- The gate's child holds the gate: it is on its way, or will be restarted. -/
def holds (L : Lane) (g : StartGate) : Bool :=
  (L.posts g.key).any fun p =>
    p.lineage = g.lineage && p.membership = .active &&
      match p.state with
      | .starting | .stopping => true
      | .stopped => p.due
      | .running | .startQueued => false

/-- The gate's child is running. -/
def passes (L : Lane) (g : StartGate) : Bool :=
  (L.posts g.key).any fun p => p.lineage = g.lineage && p.membership = .active && p.state = .running

def advance (L : Lane) : Lane :=
  match L.gate with
  | none => pop L.queue L
  | some g =>
    if L.holds g then L
    else
      let L := if L.passes g then L.openGate.memberReady g.key g.lineage else L.openGate
      pop L.queue L

def atGate (L : Lane) (key : ChildKey) (lineage : Nat) : Bool := L.gate.any fun g => g.key = key && g.lineage = lineage

def detach (L : Lane) (key : ChildKey) (lineage : Nat) : Lane :=
  { L with
    queue := L.queue.filter fun item => item.key ≠ key || item.lineage ≠ lineage
    gate := if L.atGate key lineage then none else L.gate }

/-- `remove_start_sequence_member`, and the queue if that opened the gate. -/
def release (L : Lane) (key : ChildKey) (lineage : Nat) : Lane :=
  if L.atGate key lineage then pop (L.detach key lineage).queue (L.detach key lineage) else L.detach key lineage

/-- The same for a child that is removed: the parent no longer waits for it. -/
def leave (L : Lane) (key : ChildKey) (lineage : Nat) : Lane :=
  let L' := (L.detach key lineage).memberReady key lineage
  if L.atGate key lineage then pop L'.queue L' else L'

/-- `handle_child_ready`. -/
def readyAt (L : Lane) (r : ChildReady) : Lane :=
  match L.posts r.key with
  | none => L
  | some p =>
    if p.lineage ≠ r.lineage || p.generation ≠ r.generation || p.membership ≠ .active || p.state ≠ .starting then L
    else
      let L' := ((L.put r.key p.report).tell [.started p.id p.lineage]).memberReady r.key r.lineage
      if L.gate.any fun g => g.key = r.key && g.lineage = r.lineage && g.generation = r.generation then
        pop L'.queue L'.openGate
      else L'

/-! ## Exits -/

/-- A child that is not restarted: it leaves the start sequence unless it was ready. -/
def terminal (L : Lane) (key : ChildKey) (p : Post) : Lane :=
  let L := if p.hasReportedReady then L else L.release key p.lineage
  if p.definition.removeOnTerminalExit then L.drop key else L

/-- The same when the parent's startup fails with it. -/
def fallen (L : Lane) (key : ChildKey) (p : Post) : Lane :=
  let L := L.detach key p.lineage
  if p.definition.removeOnTerminalExit then L.drop key else L

def applyExit (L : Lane) (key : ChildKey) (isFailure : Bool) : Lane :=
  match L.posts key with
  | none => L
  | some p =>
    if !L.running then L
    else if p.membership = .removing then L.drop key
    else if p.definition.restart.shouldRestart isFailure then L.put key (p.setDue true)
    else L.terminal key p

/-! ## Restarts -/

def regate (gate : Option StartGate) (key : ChildKey) (p : Post) : Option StartGate :=
  gate.map fun g => if g.key = key && g.lineage = p.lineage then { g with generation := p.generation } else g

def restartOne (L : Lane) (key : ChildKey) : Lane :=
  match L.posts key with
  | none => L
  | some p =>
    if p.membership ≠ .active || p.state ≠ .stopped || !p.due then L
    else
      let L := { L.spawn key p with gate := regate L.gate key p.spawn }
      if p.isGated then L else L.advance

/-- `finalize_skipped_group_respawn`. -/
def skip (L : Lane) (key : ChildKey) : Lane :=
  if (L.posts key).any (·.definition.removeOnTerminalExit) then L.drop key else L

def scheduleStart (L : Lane) (key : ChildKey) (emitRestartEvents : Bool) : Lane :=
  match L.posts key with
  | none => L
  | some p =>
    if p.membership ≠ .active || !p.state.isIdle then L
    else if L.kind = .dynamic then L.startItem ⟨key, p.lineage, emitRestartEvents⟩
    else { L.put key p.enqueue with queue := L.queue ++ [⟨key, p.lineage, emitRestartEvents⟩] }

/-- One key of `schedule_start_sequence`. -/
def schedule (L : Lane) (key : ChildKey) (emitRestartEvents : Bool) : Lane :=
  if emitRestartEvents then
    match L.posts key with
    | none => L
    | some p =>
      if p.membership ≠ .active then L
      else if p.hasStarted && p.definition.restart.isNever then L.skip key
      else L.scheduleStart key emitRestartEvents
  else L.scheduleStart key emitRestartEvents

end Lane

/-! ## The lane of a runtime -/

def ChildEntry.post (e : ChildEntry) : Post where
  id := e.id
  lineage := e.lineage
  definition := e.runtime.definition
  membership := e.membership
  generation := e.runtime.generation
  state := e.runtime.state
  hasStarted := e.runtime.hasStarted
  hasReportedReady := e.runtime.hasReportedReady
  due := e.runtime.nextRestartDeadline.isSome
  lastExit := e.lastExit
  refuses := e.runtime.definition.kind.isSupervisor && e.nestedChannels.isNone

def Notice.tellsParent : Notice → Bool
  | .parentReady => true
  | _ => false

def ChildEvent.news (e : ChildEvent) : List News := e.kind.news e.childId e.lineage

namespace SupervisorRuntime

def lane (rt : SupervisorRuntime) : Lane where
  strategy := rt.cfg.strategy
  kind := rt.cfg.kind
  running := decide (rt.state = .running)
  posts := fun key => (rt.children.get key).map ChildEntry.post
  order := rt.childOrder
  queue := rt.startQueue
  gate := rt.startGate
  startup := rt.startupGate
  told := rt.notices.countP Notice.tellsParent
  news := rt.log.flatMap ChildEvent.news
  commands := rt.commandRx

variable {rt rt' : SupervisorRuntime} {key : ChildKey} {e : ChildEntry}

theorem lane_get (h : rt.children.get key = some e) : rt.lane.posts key = some e.post := by
  simp [lane, h]

theorem lane_get_none (h : rt.children.get key = none) : rt.lane.posts key = none := by
  simp [lane, h]

theorem get_of_lane {p : Post} (h : rt.lane.posts key = some p) : ∃ e, rt.children.get key = some e ∧ e.post = p := by
  simpa [lane] using h

/-! ## Operations that leave the lane alone -/

theorem lane_publishSnapshot : rt.publishSnapshot.lane = rt.lane := rfl

theorem lane_sendChildEvent : rt.sendChildEvent.lane = rt.lane := rfl

theorem lane_edit {f : ChildEntry → ChildEntry} (h : rt.children.get key = some e) :
    (rt.edit key f).lane = rt.lane.put key (f e).post := by
  unfold lane edit Lane.put
  congr 1
  funext k
  simp only [Slab.get_modify, Function.update_apply]
  split
  · rename_i hk
    subst hk
    simp [h]
  · rfl

theorem lane_edit_quiet {f : ChildEntry → ChildEntry}
    (hf : ∀ e, rt.children.get key = some e → (f e).post = e.post) : (rt.edit key f).lane = rt.lane := by
  unfold lane edit
  congr 1
  funext k
  simp only [Slab.get_modify]
  split
  · rename_i hk
    subst hk
    cases h : rt.children.get k with
    | none => rfl
    | some e => simp [hf e h]
  · rfl

theorem lane_map_quiet {f : Nat → ChildEntry → ChildEntry} (hf : ∀ k e, (f k e).post = e.post) :
    ({ rt with children := rt.children.map f } : SupervisorRuntime).lane = rt.lane := by
  unfold lane
  congr 1
  funext k
  simp only [Slab.get_map, Option.map_map]
  cases rt.children.get k with
  | none => rfl
  | some e => simp [hf]

theorem lane_notify {n : Notice} (h : n.tellsParent = false) : (rt.notify n).lane = rt.lane := by
  unfold lane notify
  simp [List.countP_append, h, startQueue, startGate]

theorem lane_foldl {α : Type} {f : SupervisorRuntime → α → SupervisorRuntime}
    (hf : ∀ rt a, (f rt a).lane = rt.lane) (as : List α) : (as.foldl f rt).lane = rt.lane := by
  induction as generalizing rt with
  | nil => rfl
  | cons a as ih => exact ih.trans (hf rt a)

theorem lane_abortTask (task : TaskId) : (rt.abortTask task).lane = rt.lane := rfl

theorem lane_cancelChild (key : ChildKey) : (rt.cancelChild key).lane = rt.lane := lane_edit_quiet fun _ _ => rfl

theorem lane_escalateChild (key : ChildKey) : (rt.escalateChild key).lane = rt.lane := lane_edit_quiet fun _ _ => rfl

theorem lane_abortChild (key : ChildKey) : (rt.abortChild key).lane = rt.lane := by
  have h : (rt.editRuntime key fun r => { r with completion := r.completion.markCancelled, nestedAbortCascades := true }).lane
      = rt.lane := lane_edit_quiet fun _ _ => rfl
  unfold abortChild
  simp only
  split
  · rw [lane_abortTask]
    exact h
  · exact h

theorem lane_expireRemoval (key : ChildKey) (grace : Duration) : (rt.expireRemoval key grace).lane = rt.lane := by
  unfold expireRemoval
  rw [lane_escalateChild]
  exact lane_edit_quiet fun _ _ => rfl

theorem lane_hardAbortRemoval (key : ChildKey) : (rt.hardAbortRemoval key).lane = rt.lane := by
  unfold hardAbortRemoval
  rw [lane_abortChild]
  exact lane_edit_quiet fun _ _ => rfl

theorem lane_markChildTerminal (key : ChildKey) : (rt.markChildTerminal key).lane = rt.lane := by
  unfold markChildTerminal
  split
  · rfl
  · split
    · rfl
    · exact lane_notify rfl

theorem lane_retireNested : (rt.retireNested e).lane = rt.lane := by
  unfold retireNested
  split
  · exact lane_notify rfl
  · rfl

theorem lane_clearCell : (rt.clearCell e).lane = rt.lane := by
  unfold clearCell
  split <;> rfl

theorem lane_resolvePendingRemovals (failure : Option SupervisorError) :
    (rt.resolvePendingRemovals failure).lane = rt.lane := by
  unfold resolvePendingRemovals
  simp only
  rw [lane_foldl]
  · exact lane_map_quiet fun _ _ => rfl
  · intro rt a
    exact lane_notify rfl

theorem lane_finalizeStableChannels : rt.finalizeStableChannels.lane = rt.lane :=
  lane_foldl (fun _ key => lane_markChildTerminal key) _

theorem lane_detachNested : rt.detachNestedChildrenForRevivableFailure.lane = rt.lane :=
  lane_map_quiet fun k e => by
    split <;> rfl

theorem lane_cancelGroupToken : rt.cancelGroupToken.lane = rt.lane :=
  lane_map_quiet fun _ _ => rfl

theorem lane_closeCommandsFor (reason : DrainReason) : (rt.closeCommandsFor reason).lane = rt.lane := by
  unfold closeCommandsFor
  split <;> rfl

theorem lane_abortMatching (p : ChildKey → ChildEntry → Bool) : (rt.abortMatching p).lane = rt.lane := by
  refine lane_foldl (fun rt a => ?_) _
  simp only
  split
  · split
    · rw [lane_abortTask]
      exact lane_edit_quiet fun _ _ => rfl
    · rfl
  · rfl

theorem lane_sendSupervisorEvent (kind : SupervisorEventKind) : (rt.sendSupervisorEvent kind).lane = rt.lane := by
  unfold sendSupervisorEvent
  simp only
  split
  · rfl
  · exact lane_notify rfl

theorem lane_handleNestedSnapshot (n : NestedSnapshotNotification) : (rt.handleNestedSnapshot n).lane = rt.lane := by
  unfold handleNestedSnapshot
  split
  · rfl
  split
  · rfl
  simp only
  split
  · rfl
  · rename_i cell _
    let rt1 : SupervisorRuntime :=
      { rt with snapshotCells := Function.update rt.snapshotCells cell ⟨(rt.snapshotCells cell).latest, false⟩ }
    show (rt1.edit n.key _).lane = rt1.lane
    exact lane_edit_quiet fun _ _ => rfl

/-! ## Operations that move it -/

theorem lane_editWith {f : ChildEntry → ChildEntry} {g : Post → Post} (hf : ∀ e, (f e).post = g e.post) :
    (rt.edit key f).lane = rt.lane.edit key g := by
  unfold Lane.edit
  cases h : rt.children.get key with
  | none =>
    rw [lane_get_none h]
    exact lane_edit_quiet fun e he => by rw [h] at he; cases he
  | some e => rw [lane_get h, lane_edit h, hf]

theorem lane_sendLifecycleDraft (d : LifecycleEventDraft) :
    (rt.sendLifecycleDraft d).lane = rt.lane.tell (d.kind.news d.childId d.lineage) := by
  have h : ({ rt with seq := rt.seq + 1, log := rt.log ++ [d.at (rt.seq + 1)] } : SupervisorRuntime).lane =
      rt.lane.tell (d.kind.news d.childId d.lineage) := by
    unfold lane Lane.tell
    simp [List.flatMap_append, ChildEvent.news, LifecycleEventDraft.at, startQueue, startGate]
  unfold sendLifecycleDraft
  simp only
  split
  · exact h
  · exact h

theorem lane_sendLifecycle (kind : ChildEventKind) (h : rt.children.get key = some e) :
    (rt.sendLifecycle key kind).lane = rt.lane.tell (kind.news e.id e.lineage) := by
  unfold sendLifecycle lifecycleDraft
  rw [h]
  exact lane_sendLifecycleDraft _

theorem tell_nil (L : Lane) : L.tell [] = L := by
  unfold Lane.tell
  rw [List.append_nil]

theorem lane_sendLifecycle_quiet {kind : ChildEventKind} (h : ∀ id lineage, kind.news id lineage = []) :
    (rt.sendLifecycle key kind).lane = rt.lane := by
  unfold sendLifecycle
  split
  · rename_i d hd
    obtain ⟨e, -, rfl⟩ := Option.map_eq_some_iff.mp hd
    rw [lane_sendLifecycleDraft, h, tell_nil]
  · rfl

theorem isGated_iff {r : ChildReadiness} : r.isGated = false ↔ r = .immediate := by
  cases r <;> simp [ChildReadiness.isGated]

theorem post_finishSpawn (task : TaskId) : (finishSpawn task (rt.prepareSpawn key e)).post = e.post.spawn := by
  unfold finishSpawn prepareSpawn ChildEntry.post Post.spawn Post.isGated
  cases e.runtime.definition.readiness <;> simp [ChildReadiness.isGated]

theorem get_installTask (key : ChildKey) (e : ChildEntry) : (rt.installTask key e).children.get key =
    some (finishSpawn (rt.cfg.host.taskId (rt.joinSet.map (·.id))) e) :=
  Slab.get_insertAt_self ..

theorem lane_installTask (key : ChildKey) (e : ChildEntry) :
    ({ rt with spawnedFrom := rt.spawnedFrom ++ [e.runtime.state] }.installTask key (rt.prepareSpawn key e)).lane =
      rt.lane.put key e.post.spawn := by
  rw [← @post_finishSpawn rt key e (rt.cfg.host.taskId (rt.joinSet.map (·.id)))]
  unfold lane Lane.put
  congr 1
  funext k
  simp only [installTask, Slab.get_insertAt, Function.update_apply]
  split <;> rfl

theorem lane_afterSpawn (key : ChildKey) (e : ChildEntry) : (rt.afterSpawn key e).lane = rt.lane.spawn key e.post := by
  let rt1 : SupervisorRuntime :=
    { rt with spawnedFrom := rt.spawnedFrom ++ [e.runtime.state] }.installTask key (rt.prepareSpawn key e)
  have hput : rt1.lane = rt.lane.put key e.post.spawn := lane_installTask key e
  have hready : (rt.prepareSpawn key e).runtime.definition.readiness = e.runtime.definition.readiness := rfl
  unfold afterSpawn Lane.spawn
  simp only [hready]
  by_cases hi : e.runtime.definition.readiness = .immediate
  · have hg : e.post.isGated = false := isGated_iff.mpr hi
    rw [if_pos hi, hg]
    show (rt1.sendLifecycle key _).lane = _
    rw [lane_sendLifecycle _ (get_installTask key _), hput]
    rfl
  · have hg : e.post.isGated = true := by
      by_contra hc
      exact hi (isGated_iff.mp (Bool.eq_false_iff.mpr hc))
    rw [if_neg hi, hg]
    exact hput

theorem lane_completeEmptyStartupGate : rt.completeEmptyStartupGate.lane =
    if rt.startupGate = some [] then { rt.lane with startup := none, told := rt.lane.told + 1 } else rt.lane := by
  unfold completeEmptyStartupGate
  split
  · unfold lane notify
    simp [List.countP_append, Notice.tellsParent, startQueue, startGate]
  · rfl

theorem lane_startupMemberReady (key : ChildKey) (lineage : Nat) :
    (rt.startupMemberReady key lineage).lane = rt.lane.memberReady key lineage := by
  unfold startupMemberReady Lane.memberReady
  have hs : rt.lane.startup = rt.startupGate := rfl
  rw [hs]
  cases rt.startupGate with
  | none => rfl
  | some pending =>
    simp only [lane_completeEmptyStartupGate]
    cases hf : pending.filter fun p => p.1 ≠ key || p.2 ≠ lineage with
    | nil => simp [lane, startQueue, startGate]
    | cons a as => simp [lane, startQueue, startGate]

theorem lane_setGate : (rt.setGate none).lane = rt.lane.openGate := by
  unfold lane setGate startGate startQueue Lane.openGate
  cases rt.startSequence <;> rfl

theorem lane_closeGate (gate : StartGate) : (rt.closeGate gate).lane = { rt.lane with gate := some gate } := rfl

theorem lane_dropEntry (key : ChildKey) (e : ChildEntry) : (rt.dropEntry key e).lane =
    { rt.lane with posts := Function.update rt.lane.posts key none, order := rt.lane.order.filter (· ≠ key) } := by
  unfold lane dropEntry
  congr 1
  funext k
  simp only [Slab.get_remove, Function.update_apply]
  split <;> rfl

theorem lane_finalizeRemovedChild (key : ChildKey) (checkElapsedGrace : Bool) :
    (rt.finalizeRemovedChild key checkElapsedGrace).lane = rt.lane.drop key := by
  unfold Lane.drop
  cases h : rt.children.get key with
  | none =>
    rw [lane_get_none h]
    unfold finalizeRemovedChild
    rw [h]
  | some e =>
    have hl : rt.lifecycleDraft key .removed = some ⟨e.id, e.lineage, rt.totalRestarts,
        e.runtime.restartTracker.totalRestarts, .removed⟩ := by
      simp [lifecycleDraft, h]
    rw [lane_get h]
    unfold finalizeRemovedChild
    simp only [h, hl]
    split
    · rw [lane_notify rfl, lane_sendChildEvent, lane_sendLifecycleDraft, lane_retireNested, lane_clearCell, lane_dropEntry]
      rfl
    · rw [lane_sendChildEvent, lane_sendLifecycleDraft, lane_retireNested, lane_clearCell, lane_dropEntry]
      rfl

theorem lane_recordExit (generation : Nat) (status : RuntimeExitStatus) (h : rt.children.get key = some e) :
    (rt.recordExit key generation status).lane = rt.lane.exit key status.view := by
  unfold recordExit Lane.exit
  rw [lane_sendChildEvent, lane_sendLifecycle _ (get_edit h), lane_edit h, lane_get h]
  rfl

theorem lane_removeStartSequenceMember (key : ChildKey) (lineage : Nat) :
    (rt.removeStartSequenceMember key lineage).2.lane = rt.lane.detach key lineage ∧
      (rt.removeStartSequenceMember key lineage).1 = rt.lane.atGate key lineage := by
  unfold removeStartSequenceMember Lane.detach Lane.atGate lane startQueue startGate
  cases h : rt.startSequence with
  | none => simp [h]
  | some s => simp

end SupervisorRuntime

end Kokage.Supervisor
