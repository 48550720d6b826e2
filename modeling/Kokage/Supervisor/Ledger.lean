/-
  Kokage.Supervisor.Ledger — what a supervisor keeps: memberships, their tasks, their
  events and the snapshots shown of them.

  A `Ledger` is the part of the runtime the contract speaks about; backoff, tokens,
  pending removals, commands and replies are not in it. `Step` lists every change a
  ledger can undergo, with the condition under which the supervisor makes it. That the
  runtime only ever makes these changes is shown handler by handler in
  `Kokage.Supervisor.Starting`, `Exits` and `Drains`; everything proved of all steps here
  is then proved of every run.

  Labels separate the steps that only some code paths take: a child asked to stop by a
  drain, the scope's shutdown, the initial announcements, a readiness message sent, an
  exit recorded, a child spawned or queued for its start, a restart scheduled. `Path A` is a sequence of steps whose
  labels satisfy `A`.
-/

import Mathlib.Logic.Relation
import Kokage.Supervisor.Runtime

namespace Kokage.Supervisor

open Kokage.Lib

/-! ## State -/

structure Member where
  id : String
  lineage : Nat
  definition : ChildDefinition
  channels : Option StableChannels
  membership : MembershipState
  generation : Nat
  state : RuntimeChildState
  task : Option TaskId
  hasStarted : Bool
  hasReportedReady : Bool
  startupAborted : Bool
  lastExit : Option ExitStatus

namespace Member

def isActive (m : Member) : Bool := m.state.isActive

/-- The state shown of a member. -/
def view (m : Member) : ChildStateView :=
  match m.state with
  | .startQueued | .starting => .starting m.lastExit
  | .running => .running m.lastExit
  | .stopping => .stopping m.hasReportedReady m.lastExit
  | .stopped =>
    if m.startupAborted then
      match m.lastExit with
      | some exit => .startupAborted exit
      | none => .stopped false none
    else .stopped m.hasReportedReady m.lastExit

/-- The next generation, before it has a task. -/
def prepare (m : Member) : Member :=
  { m with
    generation := if m.hasStarted then m.generation + 1 else m.generation
    state := .starting
    hasReportedReady := false
    startupAborted := false }

/-- The next generation, running in `task`. -/
def spawn (m : Member) (task : TaskId) : Member :=
  { m.prepare with
    state := if m.definition.readiness = .immediate then .running else .starting
    task := some task
    hasStarted := true
    hasReportedReady := decide (m.definition.readiness = .immediate) }

def exit (m : Member) (x : ExitStatus) : Member :=
  { m with state := .stopped, task := none, lastExit := some x }

def ready (m : Member) : Member := { m with state := .running, hasReportedReady := true }

def remove (m : Member) : Member :=
  { m with membership := .removing, state := if m.state.isActive then .stopping else m.state }

def queue (m : Member) : Member := { m with state := .startQueued, hasReportedReady := false }

theorem isActive_eq {m : Member} {st : RuntimeChildState} (h : m.state = st) : m.isActive = st.isActive := by
  unfold isActive
  rw [h]

/-- A nested supervisor without its stable identity cannot be spawned. -/
def Refuses (m : Member) : Prop := m.definition.kind.isSupervisor = true ∧ m.channels = none

/-- As inserted: nothing has happened to it yet. -/
structure Fresh (m : Member) (lineage : Nat) : Prop where
  id_nonempty : m.id ≠ ""
  lineage_eq : m.lineage = lineage
  accepted : ¬ m.Refuses
  membership_eq : m.membership = .active
  generation_eq : m.generation = 0
  state_eq : m.state = .stopped
  task_eq : m.task = none
  hasStarted_eq : m.hasStarted = false
  hasReportedReady_eq : m.hasReportedReady = false
  startupAborted_eq : m.startupAborted = false
  lastExit_eq : m.lastExit = none

/-- There has been an exit, and whether the latest was a failure. -/
def Ended (m : Member) (failed : Bool) : Prop := ∃ x, m.lastExit = some x ∧ x.kind.isFailure = failed

/-- The latest exit is one the child's policy restarts. -/
def Revives (m : Member) : Prop := ∃ failed, m.Ended failed ∧ m.definition.restart.shouldRestart failed = true

theorem Ended.revives {m : Member} {failed : Bool} (h : m.Ended failed) (hr : m.Revives) :
    m.definition.restart.shouldRestart failed = true := by
  obtain ⟨x, hx, rfl⟩ := h
  obtain ⟨_, ⟨y, hy, rfl⟩, hr⟩ := hr
  rw [hx] at hy
  cases hy
  exact hr

/-- Not going to be started again, without having reported readiness: what a startup
    verdict is about. -/
def Doomed (m : Member) : Prop :=
  m.membership ≠ .removing ∧ m.hasReportedReady = false ∧ m.hasStarted = true ∧
    (m.state = .stopped ∧ ¬ m.Revives ∨ m.isActive = false ∧ m.definition.restart.isNever = true)

end Member

structure Ledger where
  host : Host
  kind : ScopeKind
  running : Bool
  members : Slab Member
  byId : String → Option ChildKey
  order : List ChildKey
  live : Nat
  taskMap : TaskId → Option TaskMeta
  joinIds : List TaskId
  gate : Option StartGate
  nextLineage : Nat
  seq : Nat
  log : List ChildEvent
  published : List SupervisorSnapshot
  readySignals : List ChildReady
  readyRx : List ChildReady
  timelyReady : List ChildReady
  verdicts : List TaskMeta
  spawnedFrom : List RuntimeChildState

/-- The events of one membership. -/
def word (log : List ChildEvent) (id : String) (lineage : Nat) : List ChildEventKind :=
  (log.filter fun e => e.childId = id && e.lineage = lineage).map (·.kind)

/-- What a snapshot says of each child, in order. -/
def SupervisorSnapshot.rows (s : SupervisorSnapshot) : List (String × Nat × Nat × ChildStateView) :=
  s.children.map fun c => (c.id, c.lineage, c.generation, c.state)

def LifecycleEventDraft.at (d : LifecycleEventDraft) (seq : Nat) : ChildEvent :=
  { seq := seq, childId := d.childId, lineage := d.lineage, totalRestarts := d.totalRestarts,
    childRestartCount := d.childRestartCount, kind := d.kind }

/-- `d` reports `kind` of the member `m`. -/
structure LifecycleEventDraft.For (d : LifecycleEventDraft) (m : Member) (kind : ChildEventKind) : Prop where
  childId_eq : d.childId = m.id
  lineage_eq : d.lineage = m.lineage
  kind_eq : d.kind = kind

namespace Ledger

def rows (L : Ledger) : List (String × Nat × Nat × ChildStateView) :=
  L.order.filterMap fun k => (L.members.get k).map fun m => (m.id, m.lineage, m.generation, m.view)

def put (L : Ledger) (key : ChildKey) (m : Member) : Ledger :=
  { L with members := L.members.insertAt key m }

/-- The event takes the next sequence. -/
def emit (L : Ledger) (d : LifecycleEventDraft) : Ledger :=
  { L with seq := L.seq + 1, log := L.log ++ [d.at (L.seq + 1)] }

/-- The spawn names the gate's child anew if it is the one that is spawned. -/
def regate (gate : Option StartGate) (key : ChildKey) (m : Member) : Option StartGate :=
  gate.map fun g => if g.key = key ∧ g.lineage = m.lineage then { g with generation := m.generation } else g

def install (L : Ledger) (key : ChildKey) (m : Member) (task : TaskId) : Ledger :=
  let m' := m.spawn task
  let spawn : TaskMeta := ⟨key, m'.lineage, m'.generation⟩
  { L with
    members := L.members.insertAt key m'
    live := L.live + 1
    taskMap := Function.update L.taskMap task (some spawn)
    joinIds := L.joinIds ++ [task]
    gate := regate L.gate key m'
    readySignals := if m.definition.readiness.isGated then L.readySignals ++ [spawn] else L.readySignals
    spawnedFrom := L.spawnedFrom ++ [m.state] }

def insert (L : Ledger) (key : ChildKey) (m : Member) : Ledger :=
  { L with
    nextLineage := L.nextLineage + 1
    members := L.members.insertAt key m
    byId := Function.update L.byId m.id (some key)
    order := L.order ++ [key] }

/-- The task is joined. -/
def join (L : Ledger) (task : TaskId) : Ledger :=
  { L with joinIds := L.joinIds.filter (· ≠ task), taskMap := Function.update L.taskMap task none }

def drop (L : Ledger) (key : ChildKey) (m : Member) : Ledger :=
  { L with
    members := L.members.remove key
    live := if m.task.isSome then L.live - 1 else L.live
    byId := Function.update L.byId m.id none
    order := L.order.filter (· ≠ key) }

/-- The member a readiness message or a task record speaks about, if it is current. -/
def Current (L : Ledger) (t : TaskMeta) (m : Member) : Prop :=
  L.members.get t.key = some m ∧ m.lineage = t.lineage ∧ m.generation = t.generation

/-- The latest event of the member is the exit of its current generation. -/
def Armed (L : Ledger) (m : Member) : Prop :=
  ∃ x, (word L.log m.id m.lineage).getLast? = some (.exited m.generation x)

/-! ## Steps -/

inductive Label where
  | other
  | stop (key : ChildKey)
  | shutdown
  | announced
  | sent
  | exited (task : TaskMeta) (failed : Bool)
  | spawned (key : ChildKey)
  | queued (key : ChildKey)
  | scheduled (lineage generation : Nat)
  deriving DecidableEq, Repr

inductive Step : Label → Ledger → Ledger → Prop
  | publish {L : Ledger} (s : SupervisorSnapshot) :
      s.lifecycleSeq = L.seq → s.rows = L.rows → Step .other L { L with published := L.published ++ [s] }
  | shutdown {L : Ledger} : Step .shutdown L { L with running := false }
  | sent {L : Ledger} (r : ChildReady) (timely : Bool) :
      r ∈ L.readySignals → (timely = true → ∃ m, L.Current r m ∧ m.state = .starting) →
      Step .sent L { L with
        readySignals := L.readySignals.erase r
        readyRx := L.readyRx ++ [r]
        timelyReady := if timely then L.timelyReady ++ [r] else L.timelyReady }
  | announced {L : Ledger} {key : ChildKey} {m : Member} {d : LifecycleEventDraft} :
      L.members.get key = some m → d.For m .added → Step .announced L (L.emit d)
  | added {L : Ledger} {key : ChildKey} {m : Member} {d : LifecycleEventDraft} :
      L.members.get key = none → L.byId m.id = none → m.Fresh L.nextLineage → d.For m .added →
      Step .other L ((L.insert key m).emit d)
  /-- A gated child starts. -/
  | spawned {L : Ledger} {key : ChildKey} {m : Member} {task : TaskId} :
      L.members.get key = some m → m.membership = .active → m.state.isIdle = true → task ∉ L.joinIds → ¬ m.Refuses →
      m.definition.readiness.isGated = true → Step (.spawned key) L (L.install key m task)
  /-- A child that is ready as soon as it is spawned. -/
  | spawnedReady {L : Ledger} {key : ChildKey} {m : Member} {task : TaskId} {d : LifecycleEventDraft} :
      L.members.get key = some m → m.membership = .active → m.state.isIdle = true → task ∉ L.joinIds → ¬ m.Refuses →
      m.definition.readiness = .immediate → d.For m (.started (m.spawn task).generation) →
      Step (.spawned key) L ((L.install key m task).emit d)
  /-- The spawn of a nested supervisor without identity fails half way. -/
  | refused {L : Ledger} {key : ChildKey} {m : Member} :
      L.members.get key = some m → m.Refuses →
      Step (.spawned key) L ({ L with spawnedFrom := L.spawnedFrom ++ [m.state] }.put key m.prepare)
  | received {L : Ledger} {r : ChildReady} {rest : List ChildReady} {m : Member} {d : LifecycleEventDraft} :
      L.readyRx = r :: rest → L.Current r m → m.membership = .active → m.state = .starting →
      L.gate ≠ some ⟨r.key, r.lineage, r.generation⟩ → d.For m (.started m.generation) →
      Step .other L (({ L with readyRx := rest }.put r.key m.ready).emit d)
  | dropped {L : Ledger} {r : ChildReady} {rest : List ChildReady} :
      L.readyRx = r :: rest →
      (∀ m, L.Current r m → m.membership = .active → m.state ≠ .starting ∧ m.state ≠ .stopping) →
      Step .other L { L with readyRx := rest }
  | exited {L : Ledger} {task : TaskId} {t : TaskMeta} {m : Member} {x : ExitStatus} {d : LifecycleEventDraft} :
      L.taskMap task = some t → L.Current t m → d.For m (.exited t.generation x) →
      Step (.exited t x.kind.isFailure) L (({ L.join task with live := L.live - 1 }.put t.key (m.exit x)).emit d)
  | staleJoin {L : Ledger} {task : TaskId} {t : TaskMeta} :
      L.taskMap task = some t → (∀ m, ¬ L.Current t m) → Step .other L (L.join task)
  /-- A join without a task record. -/
  | lostJoin {L : Ledger} {task : TaskId} :
      task ∈ L.joinIds → L.taskMap task = none →
      Step .other L { L with joinIds := L.joinIds.filter (· ≠ task) }
  | scheduled {L : Ledger} {key : ChildKey} {m : Member} {delay : Duration} {d : LifecycleEventDraft} :
      L.members.get key = some m → L.Armed m → d.For m (.restartScheduled m.generation delay) →
      Step (.scheduled m.lineage m.generation) L (L.emit d)
  | removed {L : Ledger} {key : ChildKey} {m : Member} {d : LifecycleEventDraft} :
      L.members.get key = some m → d.For m .removed → Step .other L ((L.drop key m).emit d)
  /-- A drain asks the child to stop. -/
  | stopped {L : Ledger} {key : ChildKey} {m : Member} :
      L.members.get key = some m → m.isActive = true → Step (.stop key) L (L.put key { m with state := .stopping })
  | removing {L : Ledger} {key : ChildKey} {m : Member} :
      L.members.get key = some m → Step .other L (L.put key m.remove)
  | queued {L : Ledger} {key : ChildKey} {m : Member} :
      L.members.get key = some m → m.membership = .active → m.state.isIdle = true →
      ¬ (m.hasStarted = true ∧ m.definition.restart.isNever = true) → Step (.queued key) L (L.put key m.queue)
  /-- The start gate opens, or closes on a child that has just been spawned. -/
  | gated {L : Ledger} (gate : Option StartGate) :
      (∀ g, gate = some g → L.gate = some g ∨ L.kind = .ordered ∧ ∃ m, L.Current ⟨g.key, g.lineage, g.generation⟩ m ∧
        m.definition.readiness.isGated = true ∧ m.hasReportedReady = false ∧ m.hasStarted = true ∧ m.isActive = true) →
      Step .other L { L with gate := gate }
  | flagged {L : Ledger} {key : ChildKey} {m : Member} :
      L.running = true → L.members.get key = some m → m.Doomed →
      Step .other L (L.put key { m with startupAborted := true })
  /-- The supervisor gives up on its startup because of `m`. -/
  | verdict {L : Ledger} {key : ChildKey} {m : Member} :
      L.running = true → L.members.get key = some m → m.Doomed →
      Step .other L { L with verdicts := L.verdicts ++ [⟨key, m.lineage, m.generation⟩] }
  /-- The same, on finding the gate's child stopped. -/
  | verdictAtGate {L : Ledger} {g : StartGate} {m : Member} :
      L.running = true → L.gate = some g → L.members.get g.key = some m → m.lineage = g.lineage →
      m.membership = .active → m.state = .stopped →
      Step .other L { L with verdicts := L.verdicts ++ [⟨g.key, m.lineage, m.generation⟩] }

/-- Some steps with labels in `A`. -/
def Path (A : Label → Prop) : Ledger → Ledger → Prop :=
  Relation.ReflTransGen fun L L' => ∃ l, A l ∧ Step l L L'

namespace Path

variable {A B : Label → Prop} {L L' L'' : Ledger}

theorem refl : Path A L L := Relation.ReflTransGen.refl

theorem of_eq (h : L = L') : Path A L L' := h ▸ refl

theorem trans (h : Path A L L') (h' : Path A L' L'') : Path A L L'' := Relation.ReflTransGen.trans h h'

theorem single {l : Label} (h : Step l L L') (hl : A l) : Path A L L' := Relation.ReflTransGen.single ⟨l, hl, h⟩

theorem mono (hAB : ∀ l, A l → B l) (h : Path A L L') : Path B L L' := by
  refine Relation.ReflTransGen.mono ?_ _ _ h
  rintro _ _ ⟨l, hl, hs⟩
  exact ⟨l, hAB l hl, hs⟩

/-- The invariant rule: what every allowed step keeps, a path keeps. -/
theorem keeps {I : Ledger → Prop} (hI : ∀ {l L L'}, A l → Step l L L' → I L → I L') (h : Path A L L') (hL : I L) :
    I L' := by
  induction h with
  | refl => exact hL
  | tail _ hs ih =>
    obtain ⟨l, hl, hs⟩ := hs
    exact hI hl hs ih

end Path

end Ledger

end Kokage.Supervisor
