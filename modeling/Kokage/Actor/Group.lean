/-
  Kokage.Actor.Group — actor children under a group restart (`actor/graph.rs`:
  `run_until_ready`; `supervisor/runtime/supervision.rs`: `restart_group`).

  A scope with a group strategy drains the members it is about to restart: each is asked
  to stop, and the supervisor waits until every child task is joined. The child task is a
  controller around the actor's own task: it passes the request on, waits for the actor
  and then applies the disposition of the binding. A controller that is aborted leaves
  the actor's task behind (`tasks` keeps every one), which ends later. Members that were
  drained are respawned, except those that never restart.

  The disposition is chosen by the controller from what the actor returned, before the
  supervisor decides whom to respawn.

  - `group_restart_follows`: a member that has not returned cleanly after it was asked to
    stop (nor, unless it restarts always, at all) has kept its binding and its watches; so
    where no group restart respawns one that has, each follows every restart.
  - `group_restart_terminates`: one that does is terminated in the drain and respawned.
-/

import Kokage.Actor.Disposition

namespace Kokage.Actor

open Kokage.Lib
open Kokage.Supervisor

/-! ## A member -/

inductive TaskResult where
  | ok
  | error
  | panicked
  deriving DecidableEq, Repr

inductive TaskStage where
  /-- not polled yet -/
  | minted
  | serving
  | gone (result : TaskResult)
  deriving DecidableEq, Repr

structure ActorTask where
  run : MonitorRun
  stage : TaskStage
  deriving DecidableEq, Repr

/-- The child task: the actor's task it waits for, once it was polled. -/
structure Controller where
  task : Option Nat
  shutdownRequested : Bool
  deriving DecidableEq, Repr

structure Member where
  policy : RestartPolicy
  core : BindingCore
  /-- Every actor task so far, by the number of its run. -/
  tasks : List ActorTask
  controller : Option Controller
  hasStarted : Bool
  /-- The supervisor is to spawn it. -/
  due : Bool
  /-- It exited, and its policy asks for a restart. -/
  failed : Bool
  /-- The runs that have tried to bind, and what they did. -/
  tried : List Nat
  history : History
  /-- Ghost: its actor has stopped cleanly. -/
  stopped : Bool
  deriving DecidableEq, Repr

inductive MemberAction where
  /-- The controller's first poll. -/
  | poll
  /-- The first poll of an actor task. -/
  | bind (k : Nat)
  | finish (k : Nat) (result : TaskResult) (status : ExitStatus)
  /-- The controller has joined the actor's task. -/
  | conclude
  | registerWatch
  | cancelWatch (index : Nat)
  deriving DecidableEq, Repr

namespace Member

def new (policy : RestartPolicy) : Member := ⟨policy, .new, [], none, false, true, false, [], [], false⟩

def poll (m : Member) (c : Controller) : Member :=
  { m with
    core := m.core.monitorRun.1
    tasks := m.tasks ++ [⟨m.core.monitorRun.2, .minted⟩]
    controller := some { c with task := some m.tasks.length } }

/-- A run that is superseded returns at once, without an error. -/
def bind (m : Member) (k : Nat) (run : MonitorRun) : Member :=
  match m.core.bind run run.runId with
  | (core, true) =>
    { m with
      core := core
      tasks := m.tasks.set k ⟨run, .serving⟩
      tried := m.tried ++ [run.runId]
      history := m.history ++ [(core.monitors.currentEpoch, .started m.core.monitors.nextGeneration)] }
  | (core, false) =>
    { m with core := core, tasks := m.tasks.set k ⟨run, .gone .ok⟩, tried := m.tried ++ [run.runId] }

/-- The actor's task reports its exit and drops its guard. -/
def finish (m : Member) (k : Nat) (run : MonitorRun) (result : TaskResult) (status : ExitStatus) : Member :=
  let core := { m.core with monitors := m.core.monitors.exited run.runId status }
  { m with
    core := core.dropGuard m.policy run.runId
    tasks := m.tasks.set k ⟨run, .gone result⟩
    history := m.history ++ ((m.core.monitors.activeRuns.find? (·.runId = run.runId)).map fun r =>
      (r.epoch, .exited r.generation status)).toList }

/-- What the controller found when it joined the actor's task. -/
def joined (m : Member) : Option (TaskResult × Bool) :=
  m.controller.bind fun c =>
    (c.task.bind fun k => m.tasks[k]?).bind fun t =>
      match t.stage with
      | .gone result => some (result, c.shutdownRequested)
      | _ => none

/-- The actor returned cleanly, after it was asked to stop or without a policy that
    restarts it all the same. -/
def stopsCleanly (m : Member) : Bool :=
  match m.joined with
  | some (.ok, shutdownRequested) => shutdownRequested || !m.policy.shouldRestart false
  | _ => false

def incarnationExit (result : TaskResult) (shutdownRequested : Bool) : Option IncarnationExit :=
  match result with
  | .ok => some (if shutdownRequested then .shutdownRequested else .stopped)
  | .error => some .failed
  | .panicked => none

def conclude (m : Member) (result : TaskResult) (shutdownRequested : Bool) : Member :=
  { m with
    core := match incarnationExit result shutdownRequested with
      | some exit => m.core.applyRunDisposition (runDisposition m.policy exit)
      | none => m.core
    controller := none
    failed := m.policy.shouldRestart (result ≠ .ok)
    stopped := m.stopped || m.stopsCleanly }

def step (m : Member) : MemberAction → Option Member
  | .poll =>
    match m.controller with
    | some c => if c.task = none then some (m.poll c) else none
    | none => none
  | .bind k =>
    match m.tasks[k]? with
    | some ⟨run, .minted⟩ => some (m.bind k run)
    | _ => none
  | .finish k result status =>
    match m.tasks[k]? with
    | some ⟨run, .serving⟩ => some (m.finish k run result status)
    -- aborted before it was polled
    | some ⟨run, .minted⟩ =>
      if result = .error then some { m with tasks := m.tasks.set k ⟨run, .gone .error⟩ } else none
    | _ => none
  | .conclude => m.joined.map fun joined => m.conclude joined.1 joined.2
  | .registerWatch => some { m with core := { m.core with monitors := m.core.monitors.registerWatch } }
  | .cancelWatch index =>
    some { m with
      core := { m.core with
        monitors := { m.core.monitors with
          watches := m.core.monitors.watches.modify index fun w => { w with live := false } } } }

/-- A group restart spawns it again (`group_respawn_disposition`). -/
def respawns (m : Member) : Bool := !(m.hasStarted && m.policy.isNever)

end Member

/-! ## The scope -/

inductive GroupStrategy where
  | oneForAll
  | restForOne
  deriving DecidableEq, Repr

structure Group where
  strategy : GroupStrategy
  /-- In declaration order. -/
  members : List Member
  /-- The first member of the restart in progress. -/
  draining : Option Nat
  deriving DecidableEq, Repr

inductive GroupAction where
  | spawn (i : Nat)
  | member (i : Nat) (a : MemberAction)
  /-- A failed member's restart comes due. -/
  | restart (i : Nat)
  /-- The drain's request reaches the controller. -/
  | request (i : Nat)
  | hardAbort (i : Nat)
  /-- Every drained member is joined. -/
  | respawn
  deriving DecidableEq, Repr

namespace Group

def new (strategy : GroupStrategy) (policies : List RestartPolicy) : Group :=
  ⟨strategy, policies.map Member.new, none⟩

def covers (g : Group) (i : Nat) : Bool := g.draining.any (· ≤ i)

/-- Edit a member, if it is there and ready for it. -/
def onMember (g : Group) (i : Nat) (f : Member → Option Member) : Option Group :=
  (g.members[i]?.bind f).map fun m => { g with members := g.members.set i m }

/-- The members from `first` on are due, except one that has started and never restarts. -/
def respawned (first : Nat) (members : List Member) : List Member :=
  members.mapIdx fun i m =>
    if first ≤ i then { m with due := m.respawns, failed := false } else m

def step (g : Group) : GroupAction → Option Group
  | .spawn i =>
    g.onMember i fun m =>
      if m.due ∧ m.controller = none then
        some { m with due := false, hasStarted := true, controller := some ⟨none, false⟩ }
      else none
  | .member i a => g.onMember i (·.step a)
  | .restart i =>
    match g.draining, g.members[i]? with
    | none, some m =>
      if m.failed ∧ m.controller = none then
        some { g with draining := some (if g.strategy = .oneForAll then 0 else i) }
      else none
    | _, _ => none
  | .request i =>
    if g.covers i then
      g.onMember i fun m => m.controller.map fun c => { m with controller := some { c with shutdownRequested := true } }
    else none
  | .hardAbort i =>
    if g.covers i then g.onMember i fun m => m.controller.map fun _ => { m with controller := none } else none
  | .respawn =>
    match g.draining with
    | some first =>
      if (g.members.drop first).all (·.controller = none) then
        some { g with members := respawned first g.members, draining := none }
      else none
    | none => none

/-- The condition on a step, for one member: no group restart respawns it after its actor
    has stopped cleanly. -/
def Keeps (i : Nat) (g : Group) (a : GroupAction) : Prop :=
  a = .respawn → g.covers i = true → ∀ m ∈ g.members[i]?, m.respawns = true → m.stopped = false

instance (i : Nat) (g : Group) (a : GroupAction) : Decidable (Keeps i g a) := inferInstanceAs (Decidable (_ → _ → _))

end Group

/-! ## A hub that is open stays open -/

namespace MonitorHub

theorem exited_open {h : MonitorHub} (runId : Nat) (status : ExitStatus) (hc : h.closing = false) :
    (h.exited runId status).closing = false := by
  unfold exited
  split
  · exact hc
  · simp only
    split
    · unfold exitedCurrent
      have hrequested : h.removalRequested = false := (Bool.or_eq_false_iff.mp hc).1
      simp only [hrequested, Bool.false_and, Bool.false_eq_true, if_false, onSeat_closing]
      simpa [closing, hrequested] using hc
    · rw [exitedRetiring_closing]
      exact hc

theorem exited_nextRunId (h : MonitorHub) (runId : Nat) (status : ExitStatus) :
    (h.exited runId status).nextRunId = h.nextRunId := by
  unfold exited
  split
  · rfl
  · simp only
    split
    · unfold exitedCurrent
      simp only
      split <;> rfl
    · unfold exitedRetiring
      split
      · rfl
      · split <;> rfl

end MonitorHub

/-- On an open binding a run is bound, unless a later one was before it. -/
theorem BindingCore.bind_open {c : BindingCore} {run : MonitorRun} (mailbox : Nat) (hr : run.reopensEpoch = none)
    (hc : c.current ≠ .terminated) (hopen : c.monitors.closing = false) :
    c.bind run mailbox = (c, false) ∨
      c.bind run mailbox =
        (⟨.bound mailbox, some run.runId, c.monitors.startRun run.runId⟩, true) := by
  have hstarted := MonitorHub.started_of_open hr (Bool.or_eq_false_iff.mp hopen).2
  by_cases hlate : c.latestBindRun.any (run.runId < ·) = true
  · left
    simp [bind, publish, hlate]
  · right
    simp [bind, publish, hlate, hc, register, hstarted]

/-! ## A member that is kept -/

namespace Member

def watched (m : Member) : Watched := ⟨m.core.monitors, [], m.tried, m.history⟩

structure Follows (m : Member) : Prop where
  kept : Kept m.watched
  next : m.core.monitors.nextRunId = m.tasks.length
  ids : ∀ k (t : ActorTask), m.tasks[k]? = some t → t.run = ⟨k, none⟩
  untried : ∀ k (t : ActorTask), m.tasks[k]? = some t → t.stage = .minted → k ∉ m.tried
  tried : ∀ k ∈ m.tried, k < m.tasks.length
  current : m.core.current ≠ .terminated
  opened : m.core.monitors.closing = false
  epoch : m.core.monitors.currentEpoch = 0

theorem Follows.new (policy : RestartPolicy) : Follows (Member.new policy) where
  kept := Kept.new
  next := rfl
  ids := by simp [Member.new]
  untried := by simp [Member.new]
  tried := by simp [Member.new]
  current := by simp [Member.new, BindingCore.new]
  opened := rfl
  epoch := rfl

theorem Follows.frame {m m' : Member} (h : m.Follows) (hcore : m'.core = m.core) (htasks : m'.tasks = m.tasks)
    (htried : m'.tried = m.tried) (hhistory : m'.history = m.history) : m'.Follows := by
  have hwatched : m'.watched = m.watched := by simp [watched, hcore, htried, hhistory]
  refine ⟨hwatched ▸ h.kept, ?_, ?_, ?_, ?_, ?_, ?_, ?_⟩
  · rw [hcore, htasks]
    exact h.next
  · rw [htasks]
    exact h.ids
  · rw [htasks, htried]
    exact h.untried
  · rw [htasks, htried]
    exact h.tried
  · rw [hcore]
    exact h.current
  · rw [hcore]
    exact h.opened
  · rw [hcore]
    exact h.epoch

theorem Follows.poll {m : Member} (h : m.Follows) (c : Controller) : (m.poll c).Follows := by
  have hrun : m.core.monitorRun.2 = ⟨m.tasks.length, none⟩ := by
    simp [BindingCore.monitorRun, MonitorHub.newRun, h.current, h.next]
  have hget : ∀ k t, (m.poll c).tasks[k]? = some t →
      m.tasks[k]? = some t ∨ k = m.tasks.length ∧ t = ⟨⟨m.tasks.length, none⟩, .minted⟩ := by
    intro k t hk
    simp only [Member.poll, hrun, List.getElem?_append] at hk
    split at hk
    · exact .inl hk
    · right
      have hzero : k - m.tasks.length = 0 := by
        by_contra hne
        simp [hne] at hk
      rw [hzero] at hk
      exact ⟨by omega, by simpa using hk.symm⟩
  have hk := h.kept
  refine ⟨?_, ?_, ?_, ?_, ?_, h.current, h.opened, h.epoch⟩
  · exact ⟨hk.chronicle, hk.below, hk.epochs, hk.last, hk.active, hk.distinct, hk.tried, hk.running, hk.removed,
      hk.retiring, hk.told⟩
  · simp [Member.poll, BindingCore.monitorRun, MonitorHub.newRun, h.next]
  · intro k t hk
    rcases hget k t hk with hk | ⟨rfl, rfl⟩
    · exact h.ids k t hk
    · rfl
  · intro k t hk hs
    rcases hget k t hk with hk | ⟨rfl, rfl⟩
    · exact h.untried k t hk hs
    · intro hm
      exact Nat.lt_irrefl _ (h.tried _ hm)
  · intro k hm
    have := h.tried k hm
    simp only [Member.poll, List.length_append, List.length_singleton]
    omega

theorem Follows.setTask {m : Member} {k : Nat} {run : MonitorRun} {stage stage' : TaskStage} {tried : List Nat}
    {core : BindingCore} {history : History} (h : m.Follows) (hk : m.tasks[k]? = some ⟨run, stage⟩)
    (hstage : stage' ≠ .minted) (htried : ∀ j ∈ tried, j ∈ m.tried ∨ j = k)
    (hkept : Kept ⟨core.monitors, [], tried, history⟩)
    (hnext : core.monitors.nextRunId = m.core.monitors.nextRunId) (hcurrent : core.current ≠ .terminated)
    (hopen : core.monitors.closing = false) (hepoch : core.monitors.currentEpoch = 0) :
    Follows { m with core := core, tasks := m.tasks.set k ⟨run, stage'⟩, tried := tried, history := history } := by
  have hlt : k < m.tasks.length := (List.getElem?_eq_some_iff.mp hk).1
  have hget : ∀ j t, (m.tasks.set k ⟨run, stage'⟩)[j]? = some t →
      j = k ∧ t = ⟨run, stage'⟩ ∨ j ≠ k ∧ m.tasks[j]? = some t := by
    intro j t hj
    rw [List.getElem?_set] at hj
    split at hj
    · rename_i hjk
      exact .inl ⟨hjk.symm, by simpa [hlt] using hj.symm⟩
    · rename_i hjk
      exact .inr ⟨fun heq => hjk heq.symm, hj⟩
  refine ⟨hkept, ?_, ?_, ?_, ?_, hcurrent, hopen, hepoch⟩
  · simp only [hnext, List.length_set]
    exact h.next
  · intro j t hj
    rcases hget j t hj with ⟨rfl, rfl⟩ | ⟨_, hj⟩
    · exact h.ids j ⟨run, stage⟩ hk
    · exact h.ids j t hj
  · intro j t hj hs hm
    rcases hget j t hj with ⟨rfl, rfl⟩ | ⟨hne, hj⟩
    · exact hstage hs
    · rcases htried j hm with hm | rfl
      · exact h.untried j t hj hs hm
      · exact hne rfl
  · intro j hm
    simp only [List.length_set]
    rcases htried j hm with hm | rfl
    · exact h.tried j hm
    · exact hlt

theorem Follows.bind {m : Member} {k : Nat} {run : MonitorRun} (h : m.Follows)
    (hk : m.tasks[k]? = some ⟨run, .minted⟩) : (m.bind k run).Follows := by
  have hrun : run = ⟨k, none⟩ := h.ids k _ hk
  have hnew : run.runId ∉ m.tried := by
    rw [hrun]
    exact h.untried k _ hk rfl
  have htried : ∀ j ∈ m.tried ++ [run.runId], j ∈ m.tried ∨ j = k := by
    intro j hm
    rw [hrun] at hm
    simpa using hm
  have hreopens : run.reopensEpoch = none := by rw [hrun]
  unfold Member.bind
  rcases BindingCore.bind_open run.runId hreopens h.current h.opened with hbind | hbind
  · rw [hbind]
    have hk' := h.kept
    refine h.setTask hk (by simp) htried ?_ rfl h.current h.opened h.epoch
    exact ⟨hk'.chronicle, hk'.below, hk'.epochs, hk'.last, hk'.active, hk'.distinct,
      fun r hr => List.mem_append_left _ (hk'.tried r hr), hk'.running, hk'.removed, hk'.retiring, hk'.told⟩
  · rw [hbind]
    refine h.setTask hk (by simp) htried ?_ rfl (by simp) ?_ h.epoch
    · exact h.kept.startRun (Bool.or_eq_false_iff.mp h.opened).2 hnew
    · rw [MonitorHub.closing_startRun]
      exact (Bool.or_eq_false_iff.mp h.opened).1

theorem Follows.finish {m : Member} {k : Nat} {run : MonitorRun} (result : TaskResult) (status : ExitStatus)
    (h : m.Follows) (hp : m.policy.isNever = false) (hk : m.tasks[k]? = some ⟨run, .serving⟩) :
    (m.finish k run result status).Follows := by
  have hguard : ∀ c : BindingCore, c.dropGuard m.policy run.runId = c.unbindMailbox run.runId := by
    intro c
    simp [BindingCore.dropGuard, hp]
  have hcore : ∀ c : BindingCore, (c.unbindMailbox run.runId).monitors = c.monitors ∧
      (c.current ≠ .terminated → (c.unbindMailbox run.runId).current ≠ .terminated) := by
    intro c
    unfold BindingCore.unbindMailbox
    split
    · exact ⟨rfl, fun _ => by simp⟩
    · exact ⟨rfl, id⟩
  unfold Member.finish
  simp only [hguard]
  refine h.setTask hk (by simp) (fun j hm => .inl hm) ?_ ?_ ?_ ?_ ?_
  · simp only [hcore]
    refine h.kept.step (a := .exited run.runId status) ?_
    simp only [Watched.step, watched]
    cases m.core.monitors.activeRuns.find? (·.runId = run.runId) <;> simp
  · simp only [hcore, MonitorHub.exited_nextRunId]
  · exact (hcore _).2 h.current
  · simp only [hcore]
    exact MonitorHub.exited_open _ _ h.opened
  · simp only [hcore, MonitorHub.exited_currentEpoch]
    exact h.epoch

theorem Follows.onWatches {m : Member} (h : m.Follows) {watches : List Watch}
    (hk : Kept ⟨{ m.core.monitors with watches := watches }, [], m.tried, m.history⟩) :
    Follows { m with core := { m.core with monitors := { m.core.monitors with watches := watches } } } :=
  ⟨hk, h.next, h.ids, h.untried, h.tried, h.current, h.opened, h.epoch⟩

theorem disposition_of_not_clean {m : Member} {result : TaskResult} {shutdownRequested : Bool} {exit : IncarnationExit}
    (hp : m.policy.isNever = false) (hj : m.joined = some (result, shutdownRequested))
    (hclean : m.stopsCleanly = false) (hexit : incarnationExit result shutdownRequested = some exit) :
    runDisposition m.policy exit = .expectRebind := by
  cases result with
  | ok =>
    simp only [stopsCleanly, hj, Bool.or_eq_false_iff, Bool.not_eq_eq_eq_not, Bool.not_false] at hclean
    obtain ⟨rfl, hrestart⟩ := hclean
    cases hexit
    simp [runDisposition, hrestart]
  | error =>
    cases hexit
    cases hpolicy : m.policy <;> simp_all [runDisposition, RestartPolicy.shouldRestart, RestartPolicy.isNever]
  | panicked => cases hexit

theorem Follows.conclude {m : Member} {result : TaskResult} {shutdownRequested : Bool} (h : m.Follows)
    (hp : m.policy.isNever = false) (hj : m.joined = some (result, shutdownRequested))
    (hclean : m.stopsCleanly = false) : (m.conclude result shutdownRequested).Follows := by
  unfold Member.conclude
  split
  · rename_i exit hexit
    rw [disposition_of_not_clean hp hj hclean hexit]
    have hunbind : m.core.unbind.current ≠ .terminated ∧ m.core.unbind.monitors = m.core.monitors := by
      unfold BindingCore.unbind
      split
      · exact ⟨by simp, rfl⟩
      · exact ⟨h.current, rfl⟩
    refine ⟨?_, ?_, h.ids, h.untried, h.tried, hunbind.1, ?_, ?_⟩
    · simp only [watched, BindingCore.applyRunDisposition, hunbind.2]
      exact h.kept
    · simp only [BindingCore.applyRunDisposition, hunbind.2]
      exact h.next
    · simp only [BindingCore.applyRunDisposition, hunbind.2]
      exact h.opened
    · simp only [BindingCore.applyRunDisposition, hunbind.2]
      exact h.epoch
  · exact h.frame rfl rfl rfl rfl

theorem Follows.step {m m' : Member} {a : MemberAction} (h : m.Follows) (hp : m.policy.isNever = false)
    (hclean : a = .conclude → m.stopsCleanly = false) (hs : m.step a = some m') : m'.Follows := by
  cases a with
  | poll =>
    simp only [Member.step] at hs
    split at hs
    · split at hs
      · cases hs
        exact h.poll _
      · cases hs
    · cases hs
  | bind k =>
    simp only [Member.step] at hs
    split at hs
    · rename_i hk
      cases hs
      exact h.bind hk
    · cases hs
  | finish k result status =>
    simp only [Member.step] at hs
    split at hs
    · rename_i hk
      cases hs
      exact h.finish result status hp hk
    · rename_i hk
      split at hs
      · cases hs
        exact h.setTask hk (by simp) (fun j hm => .inl hm) h.kept rfl h.current h.opened h.epoch
      · cases hs
    · cases hs
  | conclude =>
    simp only [Member.step] at hs
    obtain ⟨⟨result, shutdownRequested⟩, hj, rfl⟩ := Option.map_eq_some_iff.mp hs
    exact h.conclude hp hj (hclean rfl)
  | registerWatch =>
    cases hs
    exact h.onWatches h.kept.registerWatch
  | cancelWatch index =>
    cases hs
    exact h.onWatches (h.kept.step (a := .cancelWatch index) rfl)

theorem step_frame {m m' : Member} {a : MemberAction} (hs : m.step a = some m') :
    m'.policy = m.policy ∧ m'.hasStarted = m.hasStarted := by
  cases a with
  | poll =>
    simp only [Member.step] at hs
    split at hs
    · split at hs <;> cases hs
      exact ⟨rfl, rfl⟩
    · cases hs
  | bind k =>
    simp only [Member.step] at hs
    split at hs
    · cases hs
      unfold Member.bind
      split <;> exact ⟨rfl, rfl⟩
    · cases hs
  | finish k result status =>
    simp only [Member.step] at hs
    split at hs
    · cases hs
      exact ⟨rfl, rfl⟩
    · split at hs <;> cases hs
      exact ⟨rfl, rfl⟩
    · cases hs
  | conclude =>
    simp only [Member.step] at hs
    obtain ⟨joined, _, rfl⟩ := Option.map_eq_some_iff.mp hs
    exact ⟨rfl, rfl⟩
  | registerWatch | cancelWatch =>
    cases hs
    exact ⟨rfl, rfl⟩

/-- Only a clean stop is noted, and it stays noted. -/
theorem step_stopped {m m' : Member} {a : MemberAction} (hs : m.step a = some m') (hnot : m'.stopped = false) :
    m.stopped = false ∧ (a = .conclude → m.stopsCleanly = false) := by
  cases a with
  | poll =>
    simp only [Member.step] at hs
    split at hs
    · split at hs <;> cases hs
      exact ⟨hnot, nofun⟩
    · cases hs
  | bind k =>
    simp only [Member.step] at hs
    split at hs
    · cases hs
      unfold Member.bind at hnot
      split at hnot <;> exact ⟨hnot, nofun⟩
    · cases hs
  | finish k result status =>
    simp only [Member.step] at hs
    split at hs
    · cases hs
      exact ⟨hnot, nofun⟩
    · split at hs <;> cases hs
      exact ⟨hnot, nofun⟩
    · cases hs
  | conclude =>
    simp only [Member.step] at hs
    obtain ⟨joined, -, rfl⟩ := Option.map_eq_some_iff.mp hs
    obtain ⟨hstopped, hclean⟩ := Bool.or_eq_false_iff.mp hnot
    exact ⟨hstopped, fun _ => hclean⟩
  | registerWatch | cancelWatch =>
    cases hs
    exact ⟨hnot, nofun⟩

/-- What a live watch of such a member was told: every start and exit from its floor on,
    and no removal. -/
theorem Follows.told {m : Member} (h : m.Follows) {w : Watch} (hw : w ∈ m.core.monitors.watches)
    (hl : w.live = true) :
    (∀ generation, .removed generation ∉ w.staged) ∧
      ∀ epoch event, (epoch, event) ∈ m.history → event.before w.minGeneration = false → event ∈ w.staged := by
  have hopen : m.core.monitors.lifecycle.isRemoved = false := (Bool.or_eq_false_iff.mp h.opened).2
  have hstaged : w.epoch = 0 ∧ w.staged = m.history.tell w.epoch w.minGeneration := by
    have ht := h.kept.told w hw hl
    unfold Told at ht
    simp only [watched, h.epoch, hopen] at ht
    split at ht
    · exact ⟨ht.1, ht.2.2⟩
    · exact absurd ht.2.1 (Nat.not_lt_zero _)
    · simp at ht
  rw [hstaged.2]
  refine ⟨(h.kept.chronicle.coherent _ _).not_removed, ?_⟩
  intro epoch event hm hb
  have hle : epoch ≤ m.core.monitors.currentEpoch := h.kept.epochs _ hm
  rw [h.epoch] at hle
  have hepoch : epoch = w.epoch := by omega
  exact History.mem_tell.mpr ⟨hepoch ▸ hm, hb⟩

/-- A member that was never spawned has done nothing; one that a group restart respawns
    is kept until it stops cleanly. -/
structure Steady (m : Member) : Prop where
  idle : m.hasStarted = false → m.controller = none ∧ m.tasks = [] ∧ m.stopped = false
  follows : m.respawns = true → m.stopped = false → m.Follows

theorem Steady.new (policy : RestartPolicy) : Steady (Member.new policy) :=
  ⟨fun _ => ⟨rfl, rfl, rfl⟩, fun _ _ => .new policy⟩

theorem Steady.step {m m' : Member} {a : MemberAction} (h : m.Steady) (hs : m.step a = some m') : m'.Steady := by
  obtain ⟨hpolicy, hstarted⟩ := step_frame hs
  have hrespawns : m'.respawns = m.respawns := by simp [respawns, hpolicy, hstarted]
  by_cases hidle : m.hasStarted = false
  · -- nothing but a watch can happen to it
    obtain ⟨hc, ht, hstopped⟩ := h.idle hidle
    have hfollows := h.follows (by simp [respawns, hidle]) hstopped
    cases a with
    | registerWatch =>
      cases hs
      exact ⟨fun _ => ⟨hc, ht, hstopped⟩, fun _ _ => hfollows.onWatches hfollows.kept.registerWatch⟩
    | cancelWatch index =>
      cases hs
      exact ⟨fun _ => ⟨hc, ht, hstopped⟩, fun _ _ => hfollows.onWatches (hfollows.kept.step (a := .cancelWatch index) rfl)⟩
    | _ => simp [Member.step, hc, ht, joined] at hs
  · refine ⟨fun hf => absurd (hstarted ▸ hf) hidle, ?_⟩
    intro hr hnot
    rw [hrespawns] at hr
    obtain ⟨hstopped, hclean⟩ := step_stopped hs hnot
    have hp : m.policy.isNever = false := by
      simp only [respawns, Bool.not_eq_eq_eq_not, Bool.not_true, Bool.and_eq_false_iff] at hr
      exact hr.resolve_left hidle
    exact (h.follows hr hstopped).step hp hclean hs

theorem Steady.frame {m m' : Member} (h : m.Steady) (hcore : m'.core = m.core) (htasks : m'.tasks = m.tasks)
    (htried : m'.tried = m.tried) (hhistory : m'.history = m.history) (hstopped : m'.stopped = m.stopped)
    (hidle : m'.hasStarted = false → m.hasStarted = false ∧ (m.controller = none → m'.controller = none))
    (hrespawns : m'.respawns = true → m.respawns = true) : m'.Steady := by
  refine ⟨?_, fun hr hnot => (h.follows (hrespawns hr) (hstopped ▸ hnot)).frame hcore htasks htried hhistory⟩
  intro hf
  obtain ⟨hf, hc⟩ := hidle hf
  obtain ⟨hc', ht, hnot⟩ := h.idle hf
  exact ⟨hc hc', htasks ▸ ht, hstopped ▸ hnot⟩

end Member

/-! ## Group restarts -/

namespace Group

theorem onMember_get {g g' : Group} {j : Nat} {f : Member → Option Member} (h : g.onMember j f = some g') {i : Nat}
    {m' : Member} (hi : g'.members[i]? = some m') :
    g.members[i]? = some m' ∨ i = j ∧ ∃ m, g.members[i]? = some m ∧ f m = some m' := by
  obtain ⟨m₁, hf, rfl⟩ := Option.map_eq_some_iff.mp h
  obtain ⟨m, hm, hf⟩ := Option.bind_eq_some_iff.mp hf
  simp only [List.getElem?_set] at hi
  split at hi
  · rename_i hij
    subst hij
    split at hi
    · cases hi
      exact .inr ⟨rfl, m, hm, hf⟩
    · cases hi
  · exact .inl hi

/-- One member is steady. -/
def SteadyAt (i : Nat) (g : Group) : Prop := ∀ m, g.members[i]? = some m → m.Steady

theorem SteadyAt.onMember {i j : Nat} {g g' : Group} {f : Member → Option Member} (h : g.SteadyAt i)
    (hs : g.onMember j f = some g')
    (hf : ∀ m m', i = j → g.members[i]? = some m → m.Steady → f m = some m' → m'.Steady) : g'.SteadyAt i := by
  intro m' hm'
  rcases onMember_get hs hm' with hm | ⟨hij, m, hm, heq⟩
  · exact h m' hm
  · exact hf m m' hij hm (h m hm) heq

theorem SteadyAt.step {i : Nat} {g g' : Group} {a : GroupAction} (h : g.SteadyAt i) (hs : g.step a = some g') :
    g'.SteadyAt i := by
  cases a with
  | spawn j =>
    refine h.onMember hs ?_
    intro m m' _ _ hsteady heq
    split at heq
    · cases heq
      refine hsteady.frame rfl rfl rfl rfl rfl nofun ?_
      intro hr
      simp only [Member.respawns, Bool.true_and, Bool.not_eq_eq_eq_not, Bool.not_true] at hr
      simp [Member.respawns, hr]
    · cases heq
  | member j a =>
    refine h.onMember hs ?_
    intro m m' _ _ hsteady heq
    exact hsteady.step heq
  | restart j =>
    simp only [Group.step] at hs
    split at hs
    · split at hs
      · cases hs
        exact h
      · cases hs
    · cases hs
  | request j =>
    simp only [Group.step] at hs
    split at hs
    · refine h.onMember hs ?_
      intro m m' _ _ hsteady heq
      obtain ⟨c, hc, rfl⟩ := Option.map_eq_some_iff.mp heq
      exact hsteady.frame rfl rfl rfl rfl rfl (fun hf => ⟨hf, fun hn => by rw [hn] at hc; cases hc⟩) id
    · cases hs
  | hardAbort j =>
    simp only [Group.step] at hs
    split at hs
    · refine h.onMember hs ?_
      intro m m' _ _ hsteady heq
      obtain ⟨c, hc, rfl⟩ := Option.map_eq_some_iff.mp heq
      exact hsteady.frame rfl rfl rfl rfl rfl (fun hf => ⟨hf, fun _ => rfl⟩) id
    · cases hs
  | respawn =>
    simp only [Group.step] at hs
    split at hs
    · split at hs
      · cases hs
        intro m' hm'
        simp only [respawned, List.getElem?_mapIdx] at hm'
        obtain ⟨m, hm, rfl⟩ := Option.map_eq_some_iff.mp hm'
        split
        · exact (h m hm).frame rfl rfl rfl rfl rfl (fun hf => ⟨hf, id⟩) id
        · exact h m hm
      · cases hs
    · cases hs

/-- Backwards in time: a member that has not stopped cleanly had not before, and one that a
    group restart respawns would have been respawned before. -/
theorem step_before {i : Nat} {g g' : Group} {a : GroupAction} {m' : Member} (hs : g.step a = some g')
    (hm' : g'.members[i]? = some m') : ∃ m, g.members[i]? = some m ∧ (m'.stopped = false → m.stopped = false) ∧
      (m'.respawns = true → m.respawns = true) := by
  have hedit : ∀ {j} {f : Member → Option Member}, g.onMember j f = some g' →
      (∀ m x, f m = some x → (x.stopped = false → m.stopped = false) ∧ (x.respawns = true → m.respawns = true)) →
      ∃ m, g.members[i]? = some m ∧ (m'.stopped = false → m.stopped = false) ∧ (m'.respawns = true → m.respawns = true) := by
    intro j f hon hf
    rcases onMember_get hon hm' with hm | ⟨-, m, hm, heq⟩
    · exact ⟨m', hm, id, id⟩
    · exact ⟨m, hm, hf m m' heq⟩
  cases a with
  | spawn j =>
    refine hedit hs fun m x heq => ?_
    split at heq
    · cases heq
      refine ⟨id, fun hr => ?_⟩
      simp only [Member.respawns, Bool.true_and, Bool.not_eq_eq_eq_not, Bool.not_true] at hr
      simp [Member.respawns, hr]
    · cases heq
  | member j a =>
    refine hedit hs fun m x heq => ⟨fun hnot => (Member.step_stopped heq hnot).1, fun hr => ?_⟩
    obtain ⟨hpolicy, hstarted⟩ := Member.step_frame heq
    simpa [Member.respawns, hpolicy, hstarted] using hr
  | restart j =>
    simp only [Group.step] at hs
    split at hs
    · split at hs
      · cases hs
        exact ⟨m', hm', id, id⟩
      · cases hs
    · cases hs
  | request j =>
    simp only [Group.step] at hs
    split at hs
    · refine hedit hs fun m x heq => ?_
      obtain ⟨c, -, rfl⟩ := Option.map_eq_some_iff.mp heq
      exact ⟨id, id⟩
    · cases hs
  | hardAbort j =>
    simp only [Group.step] at hs
    split at hs
    · refine hedit hs fun m x heq => ?_
      obtain ⟨c, -, rfl⟩ := Option.map_eq_some_iff.mp heq
      exact ⟨id, id⟩
    · cases hs
  | respawn =>
    simp only [Group.step] at hs
    split at hs
    · split at hs
      · cases hs
        simp only [respawned, List.getElem?_mapIdx] at hm'
        obtain ⟨m, hm, rfl⟩ := Option.map_eq_some_iff.mp hm'
        refine ⟨m, hm, ?_⟩
        split
        · exact ⟨id, id⟩
        · exact ⟨id, id⟩
      · cases hs
    · cases hs

theorem reach_before {i : Nat} {g g' : Group} (h : Reach Group.step g g') {m' : Member} (hm' : g'.members[i]? = some m') :
    ∃ m, g.members[i]? = some m ∧ (m'.stopped = false → m.stopped = false) ∧ (m'.respawns = true → m.respawns = true) := by
  induction h generalizing m' with
  | start => exact ⟨m', hm', id, id⟩
  | next _ hs ih =>
    obtain ⟨m₁, hm₁, hstopped₁, hrespawns₁⟩ := step_before hs hm'
    obtain ⟨m, hm, hstopped, hrespawns⟩ := ih hm₁
    exact ⟨m, hm, fun hnot => hstopped (hstopped₁ hnot), fun hr => hrespawns (hrespawns₁ hr)⟩

theorem reach_steady {strategy : GroupStrategy} {policies : List RestartPolicy} {g : Group} (i : Nat)
    (h : Reach Group.step (Group.new strategy policies) g) : g.SteadyAt i := by
  refine h.invariant (I := Group.SteadyAt i) ?_ fun g a g' hg hs => hg.step hs
  intro m hm
  simp only [Group.new, List.getElem?_map] at hm
  obtain ⟨policy, _, rfl⟩ := Option.map_eq_some_iff.mp hm
  exact .new policy

end Group

/-- The binding is not terminated; no live watch was told of a removal, and each was told
    every start and exit from its floor on. -/
def Member.Followed (m : Member) : Prop :=
  m.core.current ≠ .terminated ∧ ∀ w ∈ m.core.monitors.watches, w.live = true →
    (∀ generation, .removed generation ∉ w.staged) ∧
      ∀ epoch event, (epoch, event) ∈ m.history → event.before w.minGeneration = false → event ∈ w.staged

/-- In every run of a scope with a group strategy a member that group restarts respawn is
    followed for as long as its actor has not stopped cleanly. So if no group restart of the
    run respawns it after a clean stop, it is followed in every state up to each group
    restart that respawns it. -/
theorem group_restart_follows (strategy : GroupStrategy) (policies : List RestartPolicy) (i : Nat) :
    (∀ g, Reach Group.step (Group.new strategy policies) g →
      ∀ m, g.members[i]? = some m → m.respawns = true → m.stopped = false → m.Followed) ∧
    ∀ g g' g'', Reach (within (Group.Keeps i) Group.step) (Group.new strategy policies) g →
      Reach (within (Group.Keeps i) Group.step) g g' → within (Group.Keeps i) Group.step g' .respawn = some g'' →
      g'.covers i = true → ∀ m', g'.members[i]? = some m' → m'.respawns = true →
        ∃ m, g.members[i]? = some m ∧ m.Followed := by
  have hfirst : ∀ g, Reach Group.step (Group.new strategy policies) g →
      ∀ m, g.members[i]? = some m → m.respawns = true → m.stopped = false → m.Followed := by
    intro g hreach m hm hr hnot
    have hfollows := (Group.reach_steady i hreach m hm).follows hr hnot
    exact ⟨hfollows.current, fun w hw hl => hfollows.told hw hl⟩
  refine ⟨hfirst, ?_⟩
  intro g g' g'' hreach hlater hs hcovers m' hm' hr
  obtain ⟨hkeeps, -⟩ := within_eq_some.mp hs
  have hnot : m'.stopped = false := hkeeps rfl hcovers m' (by simp [hm']) hr
  obtain ⟨m, hm, hstopped, hrespawns⟩ := Group.reach_before hlater.of_within hm'
  exact ⟨m, hm, hfirst g hreach.of_within m hm (hrespawns hr) (hstopped hnot)⟩

/-- Two actors start under the default policy, with a watch on the second. -/
def bothServing : List GroupAction :=
  [.spawn 0, .member 0 .poll, .member 0 (.bind 0), .spawn 1, .member 1 .poll, .member 1 (.bind 0),
    .member 1 .registerWatch]

/-- The first fails, and the group restart asks the second to stop. -/
def firstFails : List GroupAction :=
  [.member 0 (.finish 0 .error ⟨.failed "boom", false⟩), .member 0 .conclude, .restart 0, .request 1]

/-- The second is aborted in the drain. -/
def secondAborted : List GroupAction :=
  [.member 1 (.finish 0 .error ⟨.aborted true, true⟩), .member 1 .conclude]

/-- The second is aborted in the drain, with its references and its watch in place, and
    respawned: the same watch is told of the exit and of the next start. -/
theorem group_restart_follows_aborted :
    (∃ g m, Reach (within (Group.Keeps 1) Group.step) (Group.new .oneForAll [.default, .default]) g ∧
      g.draining = some 0 ∧ g.members[1]? = some m ∧ m.Followed) ∧
    ∃ g m, Reach (within (Group.Keeps 1) Group.step) (Group.new .oneForAll [.default, .default]) g ∧
      g.members[1]? = some m ∧ m.core.current = .bound 1 ∧
      ∀ w ∈ m.core.monitors.watches, w.live = true → .exited 0 ⟨.aborted true, true⟩ ∈ w.staged ∧ .started 1 ∈ w.staged := by
  constructor
  · have hrun : ∃ g g' g'' m', replay (within (Group.Keeps 1) Group.step) (Group.new .oneForAll [.default, .default])
        (bothServing ++ firstFails) = some g ∧ g.draining = some 0 ∧
        replay (within (Group.Keeps 1) Group.step) g secondAborted = some g' ∧
        within (Group.Keeps 1) Group.step g' .respawn = some g'' ∧ g'.covers 1 = true ∧
        g'.members[1]? = some m' ∧ m'.respawns = true := by
      refine ⟨_, _, _, _, rfl, rfl, rfl, rfl, rfl, rfl, ?_⟩
      decide
    obtain ⟨g, g', g'', m', hrun, hdraining, hlater, hs, hcovers, hm', hr⟩ := hrun
    have hreach := Reach.of_replay hrun
    obtain ⟨m, hm, hfollowed⟩ :=
      (group_restart_follows _ _ 1).2 g g' g'' hreach (.of_replay hlater) hs hcovers m' hm' hr
    exact ⟨g, m, hreach, hdraining, hm, hfollowed⟩
  · have hrun : ∃ g m, replay (within (Group.Keeps 1) Group.step) (Group.new .oneForAll [.default, .default])
        (bothServing ++ firstFails ++ secondAborted ++
          [.respawn, .spawn 1, .member 1 .poll, .member 1 (.bind 1)]) = some g ∧
        g.members[1]? = some m ∧ m.respawns = true ∧ m.stopped = false ∧ m.core.current = .bound 1 ∧
        m.core.monitors.watches.all (·.minGeneration = 0) ∧
        (0, .exited 0 ⟨.aborted true, true⟩) ∈ m.history ∧ (0, .started 1) ∈ m.history := by
      refine ⟨_, _, rfl, rfl, ?_⟩
      decide
    obtain ⟨g, m, hrun, hm, hr, hnot, hcurrent, hfloor, hexited, hstarted⟩ := hrun
    have hreach := Reach.of_replay hrun
    refine ⟨g, m, hreach, hm, hcurrent, ?_⟩
    intro w hw hl
    have htold := (((group_restart_follows _ _ 1).1 g hreach.of_within m hm hr hnot).2 w hw hl).2
    have hzero : w.minGeneration = 0 := by simpa using List.all_eq_true.mp hfloor w hw
    exact ⟨htold 0 _ hexited (by simp [MonitorEventKind.before, hzero]),
      htold 0 _ hstarted (by simp [MonitorEventKind.before, hzero])⟩

/-- The second stops when asked. Its binding is terminated in the drain and its watch is
    told of the removal, and then the restart respawns it. -/
theorem group_restart_terminates :
    ∃ g g' m m', Reach Group.step (Group.new .oneForAll [.default, .default]) g ∧
      g.draining = some 0 ∧ g.members[1]? = some m ∧ m.core.current = .terminated ∧
      m.core.monitors.watches.map (·.staged) =
        [[.started 0, .exited 0 ⟨.completed, true⟩, .removed (some 0)]] ∧
      replay Group.step g [.respawn, .spawn 1] = some g' ∧ g'.members[1]? = some m' ∧
      m'.controller = some ⟨none, false⟩ := by
  have hrun : ∃ g g' m m', replay Group.step (Group.new .oneForAll [.default, .default])
      (bothServing ++ firstFails ++ [.member 1 (.finish 0 .ok ⟨.completed, true⟩), .member 1 .conclude]) = some g ∧
      g.draining = some 0 ∧ g.members[1]? = some m ∧ m.core.current = .terminated ∧
      m.core.monitors.watches.map (·.staged) =
        [[.started 0, .exited 0 ⟨.completed, true⟩, .removed (some 0)]] ∧
      replay Group.step g [.respawn, .spawn 1] = some g' ∧ g'.members[1]? = some m' ∧
      m'.controller = some ⟨none, false⟩ := by
    refine ⟨_, _, _, _, rfl, rfl, rfl, ?_, ?_, rfl, rfl, ?_⟩ <;> decide
  obtain ⟨g, g', m, m', hrun, hrest⟩ := hrun
  exact ⟨g, g', m, m', .of_replay hrun, hrest⟩

end Kokage.Actor
