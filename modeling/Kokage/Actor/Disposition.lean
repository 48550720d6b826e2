/-
  Kokage.Actor.Disposition — what a run does to the binding after it has let the next
  run in (`actor/graph.rs`: `RunnableActor::run_until_ready`, `run_disposition`).

  Only one run at a time holds the `running` flag. The flag is released when the
  incarnation returns, and only then is the disposition of the binding applied: `unbind`
  where a restart is expected, `terminate` otherwise. Neither names the run it speaks
  for. `Succession` is one actor with any number of runs; `pending` holds the
  dispositions of runs that have released the flag. `monitor_run`, `terminate` and `bind`
  exclude each other (`latest_bind_run`); `unbind` may fall between the two halves of
  `bind`.

  - `disposition_harmless_iff`: in every run in which each disposition meets `Clear`, no
    bind is ever refused and the run that serves is bound; a disposition is harmless
    exactly when it meets `Clear`, and has no removal come due later either exactly when
    it finds nothing to do (`Idles`).
  - `late_disposition_harms`: both kinds can harm the run that follows.
-/

import Kokage.Actor.Terminality

namespace Kokage.Actor

open Kokage.Lib
open Kokage.Supervisor

/-! ## Dispositions -/

/-- How an incarnation ended, as its controller saw it; a panic unwinds instead. -/
inductive IncarnationExit where
  | shutdownRequested
  | stopped
  | failed
  deriving DecidableEq, Repr

inductive RunDisposition where
  | expectRebind
  | terminate
  deriving DecidableEq, Repr

def runDisposition (policy : RestartPolicy) (exit : IncarnationExit) : RunDisposition :=
  if exit = .shutdownRequested then .terminate
  else if policy.shouldRestart (exit = .failed) then .expectRebind
  else .terminate

def BindingCore.applyRunDisposition (c : BindingCore) : RunDisposition → BindingCore
  | .expectRebind => c.unbind
  | .terminate => c.terminate

/-- `BindingGuard::drop`. -/
def BindingCore.dropGuard (c : BindingCore) (policy : RestartPolicy) (mailbox : Nat) : BindingCore :=
  if policy.isNever then c.terminateMailbox mailbox else c.unbindMailbox mailbox

/-! ## The hub with one run at a time -/

theorem Watch.finish_staged (event : MonitorEventKind) (w : Watch) :
    (w.finish event).staged = w.staged ↔ w.live = false := by
  unfold finish
  cases w.live <;> simp

namespace MonitorHub

theorem started_of_begins {h : MonitorHub} {run : MonitorRun} (hr : run.reopensEpoch = some h.currentEpoch) :
    h.started run = some (h.beginEpoch.startRun run.runId, true) := by
  simp [started, hr]

theorem started_of_open {h : MonitorHub} {run : MonitorRun} (hr : run.reopensEpoch = none)
    (hopen : h.lifecycle.isRemoved = false) : h.started run = some (h.startRun run.runId, false) := by
  simp [started, hr, hopen]

theorem beginEpoch_activeRuns (h : MonitorHub) : h.beginEpoch.activeRuns = h.activeRuns := by
  unfold beginEpoch retireEpoch
  split
  · rfl
  split <;> rfl

theorem beginEpoch_nextRunId (h : MonitorHub) : h.beginEpoch.nextRunId = h.nextRunId := by
  unfold beginEpoch retireEpoch
  split
  · rfl
  split <;> rfl

theorem startRun_only {h : MonitorHub} {runId : Nat} (hactive : h.activeRuns = []) :
    (h.startRun runId).activeRuns = [⟨runId, (h.startRun runId).currentEpoch, h.nextGeneration⟩] := by
  simp [startRun, hactive, onSeat]

theorem closing_startRun (h : MonitorHub) (runId : Nat) : (h.startRun runId).closing = h.removalRequested := by
  simp [startRun, closing, Lifecycle.isRemoved, onSeat]

theorem exited_only {h : MonitorHub} {runId generation : Nat} (status : ExitStatus)
    (hactive : h.activeRuns = [⟨runId, h.currentEpoch, generation⟩]) :
    (h.exited runId status).activeRuns = [] ∧ (h.exited runId status).nextRunId = h.nextRunId ∧
      (h.removalRequested = true → (h.exited runId status).lifecycle.isRemoved = true) ∧
      (h.closing = false → (h.exited runId status).closing = false) := by
  have hnone : ∀ l w r g n, hasActive ⟨n, g, h.currentEpoch, l, w, [], r, h.watches, h.retiring⟩
      h.currentEpoch = false := by
    intros
    rfl
  unfold exited
  simp only [hactive, List.find?_cons, decide_true, List.filter_cons, ne_eq, not_true_eq_false, decide_false,
    Bool.false_eq_true, if_false, List.filter_nil, if_true]
  unfold exitedCurrent
  simp only [hnone, Bool.not_false, Bool.and_true]
  split
  · rename_i hrequested
    refine ⟨rfl, rfl, fun _ => rfl, ?_⟩
    intro hclosing
    simp [closing, hrequested] at hclosing
  · rename_i hrequested
    refine ⟨rfl, rfl, fun hr => absurd hr hrequested, ?_⟩
    intro hclosing
    simpa [closing, onSeat] using hclosing

theorem hasActive_only {h : MonitorHub} {runId generation : Nat}
    (hactive : h.activeRuns = [⟨runId, h.currentEpoch, generation⟩]) : h.hasActive h.currentEpoch = true := by
  simp [hasActive, hactive]

theorem hasActive_nil {h : MonitorHub} (hactive : h.activeRuns = []) (epoch : Nat) : h.hasActive epoch = false := by
  simp [hasActive, hactive]

theorem removed_activeRuns (h : MonitorHub) (epoch : Nat) : (h.removed epoch).activeRuns = h.activeRuns := by
  unfold removed
  split
  · rfl
  split
  · rfl
  split <;> rfl

theorem removed_nextRunId (h : MonitorHub) (epoch : Nat) : (h.removed epoch).nextRunId = h.nextRunId := by
  unfold removed
  split
  · rfl
  split
  · rfl
  split <;> rfl

theorem removed_idle {h : MonitorHub} (hactive : h.activeRuns = []) :
    (h.removed h.currentEpoch).lifecycle.isRemoved = true := by
  unfold removed
  rw [if_neg (by simp)]
  split
  · assumption
  · rw [if_neg (by simp [hasActive_nil hactive])]
    rfl

/-- No watch of the current epoch is live. -/
def deaf (h : MonitorHub) : Bool := h.watches.all fun w => w.seat ≠ .current || !w.live

/-- The watches hear of a removal that takes effect at once exactly when one of them is live. -/
theorem removed_staged {h : MonitorHub} (hopen : h.lifecycle.isRemoved = false)
    (hidle : h.hasActive h.currentEpoch = false) :
    (h.removed h.currentEpoch).watches.map (·.staged) = h.watches.map (·.staged) ↔ h.deaf = true := by
  have hremoved : (h.removed h.currentEpoch).watches =
      h.watches.map fun w => if w.seat = .current then w.finish (.removed h.currentLastGeneration) else w := by
    unfold removed
    rw [if_neg (by simp), if_neg (by simp [hopen]), if_neg (by simp [hidle])]
    rfl
  rw [hremoved, List.map_map, List.map_inj_left]
  simp only [deaf, List.all_eq_true, Function.comp_apply]
  refine forall₂_congr fun w _ => ?_
  by_cases hseat : w.seat = .current
  · simp [hseat, Watch.finish_staged]
  · simp [hseat]

theorem removed_busy {h : MonitorHub} {runId generation : Nat} (hopen : h.lifecycle.isRemoved = false)
    (hactive : h.activeRuns = [⟨runId, h.currentEpoch, generation⟩]) :
    h.removed h.currentEpoch = { h with removalRequested := true } := by
  unfold removed
  rw [if_neg (by simp), if_neg (by simp [hopen]), if_pos (hasActive_only hactive)]

end MonitorHub

/-! ## Runs that follow each other -/

/-- Where the run that holds the flag is. Its mailbox has the number of the run. -/
inductive Phase where
  | started
  | minted (run : MonitorRun)
  /-- in `bind`, before the hub is asked -/
  | published (run : MonitorRun)
  | serving (run : MonitorRun) (reported : Bool)
  /-- `bind` returned nothing -/
  | superseded
  /-- the guard is dropped -/
  | stopped (run : MonitorRun) (reported : Bool)
  deriving DecidableEq, Repr

structure Succession where
  policy : RestartPolicy
  core : BindingCore
  running : Option Phase
  pending : List RunDisposition
  deriving DecidableEq, Repr

inductive RunAction where
  | start
  | monitorRun
  | publish
  | register
  | report (status : ExitStatus)
  | dropGuard
  /-- The incarnation returns, with nothing to apply where it unwinds. -/
  | release (exit : Option IncarnationExit)
  | apply (index : Nat)
  | registerWatch
  | cancelWatch (index : Nat)
  deriving DecidableEq, Repr

namespace Succession

def new (policy : RestartPolicy) : Succession := ⟨policy, .new, none, []⟩

def onHub (s : Succession) (f : MonitorHub → MonitorHub) : Succession :=
  { s with core := { s.core with monitors := f s.core.monitors } }

/-- The lock is taken: a `bind` is between its halves. -/
def binding (s : Succession) : Bool :=
  match s.running with
  | some (.published _) => true
  | _ => false

def register (s : Succession) (run : MonitorRun) : Succession :=
  match s.core.register run with
  | (core, true) => { s with core := core, running := some (.serving run false) }
  | (core, false) => { s with core := core.rollBack run.runId, running := some .superseded }

def release (s : Succession) (exit : Option IncarnationExit) : Succession :=
  { s with
    running := none
    pending := s.pending ++ (exit.map (runDisposition s.policy)).toList }

def step (s : Succession) : RunAction → Option Succession
  | .start =>
    match s.running with
    | none => some { s with running := some .started }
    | some _ => none
  | .monitorRun =>
    match s.running with
    | some .started => some { s with core := s.core.monitorRun.1, running := some (.minted s.core.monitorRun.2) }
    | _ => none
  | .publish =>
    match s.running with
    | some (.minted run) =>
      match s.core.publish run run.runId with
      | some core => some { s with core := core, running := some (.published run) }
      | none => some { s with running := some .superseded }
    | _ => none
  | .register =>
    match s.running with
    | some (.published run) => some (s.register run)
    | _ => none
  -- a task that returns reports first; one that is aborted or panics drops its guard first
  | .report status =>
    match s.running with
    | some (.serving run false) =>
      some { s.onHub (·.exited run.runId status) with running := some (.serving run true) }
    | some (.stopped run false) =>
      some { s.onHub (·.exited run.runId status) with running := some (.stopped run true) }
    | _ => none
  | .dropGuard =>
    match s.running with
    | some (.serving run reported) =>
      some { s with core := s.core.dropGuard s.policy run.runId, running := some (.stopped run reported) }
    | _ => none
  | .release exit =>
    match s.running with
    | some .superseded | some (.stopped _ true) => some (s.release exit)
    | _ => none
  | .apply index =>
    match s.pending[index]? with
    | some disposition =>
      if disposition = .terminate ∧ s.binding then none
      else some { s with core := s.core.applyRunDisposition disposition, pending := s.pending.eraseIdx index }
    | none => none
  | .registerWatch => some (s.onHub (·.registerWatch))
  | .cancelWatch index =>
    some (s.onHub fun h => { h with watches := h.watches.modify index fun w => { w with live := false } })

/-! ## What a disposition may do -/

/-- A step of an earlier run that leaves the run holding the flag alone: a mailbox that
    is bound stays bound, the bind to come is not refused, and no watch is told anything. -/
def Harmless (s s' : Succession) : Prop :=
  ∀ phase, s.running = some phase →
    (∀ mailbox, s.core.current = .bound mailbox → s'.core.current = .bound mailbox) ∧
    (∀ run, phase = .minted run → (s'.core.publish run run.runId).isSome) ∧
    s'.core.monitors.watches.map (·.staged) = s.core.monitors.watches.map (·.staged)

/-- While a run holds the flag, the step has no removal come due. -/
def Quiet (s s' : Succession) : Prop :=
  s.running ≠ none → s'.core.monitors.closing = s.core.monitors.closing

def isMinted (s : Succession) : Bool :=
  match s.running with
  | some (.minted _) => true
  | _ => false

/-- A `terminate` while another run holds the flag, of a binding that run has not bound or
    has let go of: it must not have a monitor run that expects the binding open, and no
    live watch is to hear of it, at once or before the run's own exit. -/
def Spared (s : Succession) : Bool :=
  s.core.current = .unbound && !s.isMinted &&
    (s.core.monitors.hasActive s.core.monitors.currentEpoch || s.core.monitors.deaf)

/-- The condition on a disposition: while another run holds the flag, an `unbind` finds
    no mailbox bound, and a `terminate` finds the binding terminated or spared. -/
def Clear (s : Succession) : RunAction → Prop
  | .apply index =>
    match s.pending[index]? with
    | some .expectRebind => s.running = none ∨ s.core.current.isBound = false
    | some .terminate => s.running = none ∨ s.core.current = .terminated ∨ s.Spared = true
    | none => True
  | _ => True

instance (s : Succession) (a : RunAction) : Decidable (s.Clear a) := by
  unfold Clear
  split
  · split <;> infer_instance
  · infer_instance

/-- The disposition finds nothing to do: an `unbind` no mailbox, a `terminate` a binding
    that is terminated. -/
def Idles (s : Succession) (index : Nat) : Prop :=
  match s.pending[index]? with
  | some .expectRebind => s.running = none ∨ s.core.current.isBound = false
  | some .terminate => s.running = none ∨ s.core.current = .terminated
  | none => True

/-! ## The run that holds the flag -/

/-- Between two runs: nothing is bound, and the hub agrees on whether it is over. -/
structure Idle (c : BindingCore) : Prop where
  latest : ∀ latest, c.latestBindRun = some latest → latest < c.monitors.nextRunId
  active : c.monitors.activeRuns = []
  current : c.current = .terminated ∧ c.monitors.lifecycle.isRemoved = true ∨
    c.current = .unbound ∧ c.monitors.closing = false

/-- A run that has started and not reported is the only one active. -/
structure Busy (c : BindingCore) (run : MonitorRun) : Prop where
  latest : ∀ latest, c.latestBindRun = some latest → latest < c.monitors.nextRunId
  active : ∃ generation, c.monitors.activeRuns = [⟨run.runId, c.monitors.currentEpoch, generation⟩]

/-- What holds of the binding at each point of the run that holds the flag. -/
def Held (c : BindingCore) : Option Phase → Prop
  | none | some .started | some (.stopped _ true) => Idle c
  | some (.minted run) =>
    Idle c ∧ run.runId + 1 = c.monitors.nextRunId ∧ (∀ latest, c.latestBindRun = some latest → latest ≤ run.runId) ∧
      run.reopensEpoch = if c.current = .terminated then some c.monitors.currentEpoch else none
  | some (.published run) =>
    c.current = .bound run.runId ∧ c.monitors.activeRuns = [] ∧ run.runId < c.monitors.nextRunId ∧
      (run.reopensEpoch = some c.monitors.currentEpoch ∨ run.reopensEpoch = none ∧ c.monitors.closing = false)
  | some (.serving run false) => Busy c run ∧ c.current = .bound run.runId ∧ c.monitors.closing = false
  | some (.serving run true) =>
    (∀ latest, c.latestBindRun = some latest → latest < c.monitors.nextRunId) ∧ c.monitors.activeRuns = [] ∧
      c.current = .bound run.runId ∧ c.monitors.closing = false
  | some (.stopped run false) =>
    Busy c run ∧
      (c.current = .terminated ∧ c.monitors.removalRequested = true ∧ c.monitors.lifecycle.isRemoved = false ∨
        c.current = .unbound ∧ c.monitors.closing = false)
  | some .superseded => False

/-! ### The binding, step by step -/

theorem Held.register {s : Succession} {run : MonitorRun} (h : Held s.core (some (.published run))) :
    Held (s.register run).core (s.register run).running := by
  obtain ⟨hcurrent, hactive, hid, hr⟩ := h
  have hstarted : ∃ hub reopened, s.core.monitors.started run = some (hub, reopened) ∧
      (∃ generation, hub.activeRuns = [⟨run.runId, hub.currentEpoch, generation⟩]) ∧
      hub.nextRunId = s.core.monitors.nextRunId ∧ hub.closing = false := by
    rcases hr with hr | ⟨hr, hopen⟩
    · refine ⟨_, _, MonitorHub.started_of_begins hr, ⟨_, MonitorHub.startRun_only ?_⟩, ?_, ?_⟩
      · rw [MonitorHub.beginEpoch_activeRuns, hactive]
      · exact MonitorHub.beginEpoch_nextRunId _
      · rw [MonitorHub.closing_startRun]
        rfl
    · simp only [MonitorHub.closing, Bool.or_eq_false_iff] at hopen
      refine ⟨_, _, MonitorHub.started_of_open hr hopen.2, ⟨_, MonitorHub.startRun_only hactive⟩, rfl, ?_⟩
      rw [MonitorHub.closing_startRun]
      exact hopen.1
  obtain ⟨hub, reopened, hstarted, hactive, hnext, hclosing⟩ := hstarted
  simp only [Succession.register, BindingCore.register, hstarted]
  refine ⟨⟨?_, hactive⟩, hcurrent, hclosing⟩
  intro latest hlatest
  cases hlatest
  rw [hnext]
  exact hid

theorem Held.report {s : Succession} {run : MonitorRun} (status : ExitStatus)
    (h : Held s.core (some (.serving run false))) :
    Held (s.onHub (·.exited run.runId status)).core (some (.serving run true)) := by
  obtain ⟨⟨hlatest, generation, hactive⟩, hcurrent, hclosing⟩ := h
  obtain ⟨hactive', hnext, _, hclosing'⟩ := MonitorHub.exited_only status hactive
  refine ⟨?_, hactive', hcurrent, hclosing' hclosing⟩
  intro latest hl
  simp only [Succession.onHub, hnext]
  exact hlatest latest hl

theorem Held.reportLate {s : Succession} {run : MonitorRun} (status : ExitStatus)
    (h : Held s.core (some (.stopped run false))) :
    Held (s.onHub (·.exited run.runId status)).core (some (.stopped run true)) := by
  obtain ⟨⟨hlatest, generation, hactive⟩, hcurrent⟩ := h
  obtain ⟨hactive', hnext, hremoved, hclosing⟩ := MonitorHub.exited_only status hactive
  refine ⟨?_, hactive', ?_⟩
  · intro latest hl
    simp only [Succession.onHub, hnext]
    exact hlatest latest hl
  · rcases hcurrent with ⟨hcurrent, hrequested, _⟩ | ⟨hcurrent, hopen⟩
    · exact .inl ⟨hcurrent, hremoved hrequested⟩
    · exact .inr ⟨hcurrent, hclosing hopen⟩

theorem dropGuard_bound {c : BindingCore} {mailbox : Nat} (policy : RestartPolicy) (h : c.current = .bound mailbox) :
    c.dropGuard policy mailbox =
      if policy.isNever then c.close.tellRemoved c.monitors.currentEpoch else { c with current := .unbound } := by
  simp [BindingCore.dropGuard, BindingCore.terminateMailbox, BindingCore.closeMailbox, BindingCore.unbindMailbox,
    BindingCore.close, h]

theorem Held.dropGuard {c : BindingCore} {run : MonitorRun} {reported : Bool} (policy : RestartPolicy)
    (h : Held c (some (.serving run reported))) :
    Held (c.dropGuard policy run.runId) (some (.stopped run reported)) := by
  cases reported with
  | false =>
    obtain ⟨⟨hlatest, generation, hactive⟩, hcurrent, hclosing⟩ := h
    rw [dropGuard_bound policy hcurrent]
    split
    · simp only [MonitorHub.closing, Bool.or_eq_false_iff] at hclosing
      simp only [BindingCore.tellRemoved, BindingCore.close, MonitorHub.removed_busy hclosing.2 hactive]
      exact ⟨⟨hlatest, generation, hactive⟩, .inl ⟨rfl, rfl, hclosing.2⟩⟩
    · exact ⟨⟨hlatest, generation, hactive⟩, .inr ⟨rfl, hclosing⟩⟩
  | true =>
    obtain ⟨hlatest, hactive, hcurrent, hclosing⟩ := h
    rw [dropGuard_bound policy hcurrent]
    split
    · refine ⟨?_, ?_, .inl ⟨rfl, MonitorHub.removed_idle hactive⟩⟩
      · simp only [BindingCore.tellRemoved, BindingCore.close, MonitorHub.removed_nextRunId]
        exact hlatest
      · simp only [BindingCore.tellRemoved, BindingCore.close, MonitorHub.removed_activeRuns]
        exact hactive
    · exact ⟨hlatest, hactive, .inr ⟨rfl, hclosing⟩⟩

theorem Held.monitorRun {c : BindingCore} (h : Idle c) :
    Held c.monitorRun.1 (some (.minted c.monitorRun.2)) := by
  refine ⟨⟨?_, h.active, h.current⟩, rfl, ?_, ?_⟩
  · intro latest hl
    exact Nat.lt_succ_of_lt (h.latest latest hl)
  · intro latest hl
    exact Nat.le_of_lt (h.latest latest hl)
  · simp [BindingCore.monitorRun, MonitorHub.newRun]

theorem publish_minted {c : BindingCore} {run : MonitorRun} (h : Held c (some (.minted run))) :
    c.publish run run.runId = some { c with current := .bound run.runId } := by
  obtain ⟨hidle, _, hlatest, hr⟩ := h
  unfold BindingCore.publish
  have hlate : c.latestBindRun.any (run.runId < ·) = false := by
    rw [Option.any_eq_false_iff_get]
    intro hs
    have := hlatest _ (Option.some_get hs).symm
    simp only [decide_eq_false_iff_not]
    omega
  rw [if_neg (by simp [hlate]), if_neg]
  rcases hidle.current with ⟨hcurrent, _⟩ | ⟨hcurrent, _⟩ <;> simp [hcurrent, hr]

theorem Held.publish {c : BindingCore} {run : MonitorRun} (h : Held c (some (.minted run))) :
    Held { c with current := .bound run.runId } (some (.published run)) := by
  obtain ⟨hidle, hnext, _, hr⟩ := h
  refine ⟨rfl, hidle.active, by simp only; omega, ?_⟩
  rcases hidle.current with ⟨hcurrent, _⟩ | ⟨hcurrent, hopen⟩
  · exact .inl (by simp [hr, hcurrent])
  · exact .inr ⟨by simp [hr, hcurrent], hopen⟩

theorem Held.onWatches {c : BindingCore} {phase : Option Phase} (h : Held c phase) (watches : List Watch) :
    Held { c with monitors := { c.monitors with watches := watches } } phase := by
  rcases phase with _ | phase
  · exact ⟨h.latest, h.active, h.current⟩
  · cases phase with
    | started => exact ⟨h.latest, h.active, h.current⟩
    | minted run => exact ⟨⟨h.1.latest, h.1.active, h.1.current⟩, h.2⟩
    | published run => exact h
    | serving run reported =>
      cases reported with
      | false => exact ⟨⟨h.1.latest, h.1.active⟩, h.2⟩
      | true => exact h
    | superseded => exact h
    | stopped run reported =>
      cases reported with
      | false => exact ⟨⟨h.1.latest, h.1.active⟩, h.2⟩
      | true => exact ⟨h.latest, h.active, h.current⟩

/-! ### Dispositions -/

theorem unbind_of_not_bound {c : BindingCore} (h : c.current.isBound = false) : c.unbind = c := by
  unfold BindingCore.unbind
  split
  · rename_i heq
    rw [heq] at h
    cases h
  · rfl

theorem terminate_of_ended {c : BindingCore} (hc : c.current = .terminated)
    (h : c.monitors.lifecycle.isRemoved = true ∨
      c.monitors.removalRequested = true ∧ c.monitors.hasActive c.monitors.currentEpoch = true) : c.terminate = c := by
  have hhub : c.monitors.removed c.monitors.currentEpoch = c.monitors := by
    unfold MonitorHub.removed
    rw [if_neg (by simp)]
    split
    · rfl
    · rename_i hopen
      obtain ⟨hrequested, hactive⟩ := h.resolve_left hopen
      rw [if_pos hactive, ← hrequested]
  unfold BindingCore.terminate BindingCore.close BindingCore.tellRemoved
  simp only [hhub, ← hc]

/-- While a run holds the flag, a binding that is not bound is terminated, with the hub
    told, or it is open. -/
theorem Held.current {c : BindingCore} {phase : Phase} (h : Held c (some phase)) :
    c.current.isBound = true ∨
    c.current = .terminated ∧ (c.monitors.lifecycle.isRemoved = true ∨
      c.monitors.removalRequested = true ∧ c.monitors.hasActive c.monitors.currentEpoch = true) ∨
    c.current = .unbound ∧ c.monitors.closing = false := by
  have hidle : ∀ {c : BindingCore}, Idle c → c.current.isBound = true ∨
      c.current = .terminated ∧ (c.monitors.lifecycle.isRemoved = true ∨
        c.monitors.removalRequested = true ∧ c.monitors.hasActive c.monitors.currentEpoch = true) ∨
      c.current = .unbound ∧ c.monitors.closing = false := by
    intro c h
    rcases h.current with ⟨hc, hr⟩ | hopen
    · exact .inr (.inl ⟨hc, .inl hr⟩)
    · exact .inr (.inr hopen)
  cases phase with
  | started => exact hidle h
  | minted run => exact hidle h.1
  | published run => exact .inl (by rw [h.1]; rfl)
  | serving run reported =>
    cases reported with
    | false => exact .inl (by rw [h.2.1]; rfl)
    | true => exact .inl (by rw [h.2.2.1]; rfl)
  | superseded => exact h.elim
  | stopped run reported =>
    cases reported with
    | false =>
      obtain ⟨⟨_, generation, hactive⟩, hcurrent⟩ := h
      rcases hcurrent with ⟨hc, hr, _⟩ | hopen
      · exact .inr (.inl ⟨hc, .inr ⟨hr, MonitorHub.hasActive_only hactive⟩⟩)
      · exact .inr (.inr hopen)
    | true => exact hidle h

theorem apply_of_idles {s : Succession} {index : Nat} {phase : Phase} {disposition : RunDisposition}
    (h : Held s.core (some phase)) (hrunning : s.running = some phase)
    (hd : s.pending[index]? = some disposition) (hidles : s.Idles index) :
    s.core.applyRunDisposition disposition = s.core := by
  simp only [Succession.Idles, hd, hrunning, reduceCtorEq, false_or] at hidles
  cases disposition with
  | expectRebind => exact unbind_of_not_bound hidles
  | terminate =>
    rcases h.current with hb | ⟨hc, hended⟩ | ⟨hc, _⟩
    · simp [hidles, BindingState.isBound] at hb
    · exact terminate_of_ended hc hended
    · rw [hidles] at hc
      cases hc

theorem Idle.apply {c : BindingCore} (h : Idle c) (disposition : RunDisposition) :
    Idle (c.applyRunDisposition disposition) := by
  cases disposition with
  | expectRebind =>
    have hb : c.current.isBound = false := by
      rcases h.current with ⟨hc, _⟩ | ⟨hc, _⟩ <;> rw [hc] <;> rfl
    simp only [BindingCore.applyRunDisposition, unbind_of_not_bound hb]
    exact h
  | terminate =>
    refine ⟨?_, ?_, .inl ⟨rfl, MonitorHub.removed_idle h.active⟩⟩
    · simp only [BindingCore.applyRunDisposition, BindingCore.terminate, BindingCore.tellRemoved, BindingCore.close,
        MonitorHub.removed_nextRunId]
      exact h.latest
    · simp only [BindingCore.applyRunDisposition, BindingCore.terminate, BindingCore.tellRemoved, BindingCore.close,
        MonitorHub.removed_activeRuns]
      exact h.active

/-- Where the run can be while the binding is open and nothing is bound. -/
theorem Held.unbound {c : BindingCore} {phase : Phase} (h : Held c (some phase)) (hc : c.current = .unbound)
    (hm : ∀ run, phase ≠ .minted run) : phase = .started ∨ ∃ run reported, phase = .stopped run reported := by
  cases phase with
  | started => exact .inl rfl
  | minted run => exact absurd rfl (hm run)
  | published run => cases h.1.symm.trans hc
  | serving run reported =>
    cases reported with
    | false => cases h.2.1.symm.trans hc
    | true => cases h.2.2.1.symm.trans hc
  | superseded => exact h.elim
  | stopped run reported => exact .inr ⟨run, reported, rfl⟩

theorem isMinted_eq_false {s : Succession} {phase : Phase} (hrunning : s.running = some phase) :
    s.isMinted = false ↔ ∀ run, phase ≠ .minted run := by
  unfold Succession.isMinted
  rw [hrunning]
  cases phase <;> simp

theorem spared_staged {c : BindingCore} (hopen : c.monitors.closing = false)
    (h : c.monitors.hasActive c.monitors.currentEpoch = true ∨ c.monitors.deaf = true) :
    c.terminate.monitors.watches.map (·.staged) = c.monitors.watches.map (·.staged) := by
  have hremoved : c.monitors.lifecycle.isRemoved = false := (Bool.or_eq_false_iff.mp hopen).2
  cases hactive : c.monitors.hasActive c.monitors.currentEpoch with
  | true =>
    unfold BindingCore.terminate BindingCore.tellRemoved BindingCore.close MonitorHub.removed
    simp [hremoved, hactive]
  | false =>
    rw [hactive] at h
    exact (MonitorHub.removed_staged hremoved hactive).mpr (h.resolve_left Bool.false_ne_true)

/-- A disposition is harmless exactly when it meets the condition. -/
theorem harmless_iff {s s' : Succession} {index : Nat} (h : Held s.core s.running)
    (hs : s.step (.apply index) = some s') : s.Clear (.apply index) ↔ s.Harmless s' := by
  simp only [Succession.step] at hs
  split at hs
  · rename_i disposition hd
    split at hs
    · cases hs
    cases hs
    constructor
    · intro hclear phase hrunning
      rw [hrunning] at h
      by_cases hidles : s.Idles index
      · have hcore := apply_of_idles h hrunning hd hidles
        simp only [hcore]
        refine ⟨fun _ => id, ?_, trivial⟩
        rintro run rfl
        rw [publish_minted h]
        rfl
      · -- what is left is a `terminate` that is spared
        cases disposition with
        | expectRebind => exact absurd (by simpa [Succession.Clear, Succession.Idles, hd] using hclear) hidles
        | terminate =>
          simp only [Succession.Idles, hd, hrunning, reduceCtorEq, false_or] at hidles
          simp only [Succession.Clear, hd, hrunning, reduceCtorEq, false_or, hidles] at hclear
          simp only [Succession.Spared, Bool.and_eq_true, decide_eq_true_eq, Bool.not_eq_true', Bool.or_eq_true] at hclear
          obtain ⟨⟨hc, hm⟩, hheard⟩ := hclear
          have hopen : s.core.monitors.closing = false := by
            rcases h.current with hb | ⟨hc', _⟩ | ⟨_, hopen⟩
            · rw [hc] at hb
              cases hb
            · rw [hc] at hc'
              cases hc'
            · exact hopen
          refine ⟨?_, fun run hrun => absurd hrun ((isMinted_eq_false hrunning).mp hm run), spared_staged hopen hheard⟩
          intro mailbox hbound
          rw [hc] at hbound
          cases hbound
    · intro hharmless
      cases hrunning : s.running with
      | none =>
        simp only [Succession.Clear, hd, hrunning]
        cases disposition <;> simp
      | some phase =>
        rw [hrunning] at h
        obtain ⟨hbound, hpublish, hstaged⟩ := hharmless phase hrunning
        simp only [Succession.Clear, hd, hrunning]
        cases disposition with
        | expectRebind =>
          right
          cases hc : s.core.current with
          | bound mailbox =>
            have := hbound mailbox hc
            simp [BindingCore.applyRunDisposition, BindingCore.unbind, hc] at this
          | _ => rfl
        | terminate =>
          right
          rcases h.current with hb | ⟨hc, _⟩ | ⟨hc, hopen⟩
          · cases hc : s.core.current with
            | bound mailbox => cases hbound mailbox hc
            | _ => simp [hc, BindingState.isBound] at hb
          · exact .inl hc
          · right
            have hm : ∀ run, phase ≠ .minted run := by
              rintro run rfl
              have hreopens : run.reopensEpoch = none := by simpa [hc] using h.2.2.2
              have := hpublish run rfl
              simp [BindingCore.applyRunDisposition, BindingCore.terminate, BindingCore.tellRemoved, BindingCore.close,
                BindingCore.publish, hreopens] at this
            have hheard : (s.core.monitors.hasActive s.core.monitors.currentEpoch || s.core.monitors.deaf) = true := by
              cases hactive : s.core.monitors.hasActive s.core.monitors.currentEpoch with
              | true => rfl
              | false => exact (MonitorHub.removed_staged (Bool.or_eq_false_iff.mp hopen).2 hactive).mp hstaged
            simp only [Succession.Spared, hc, (isMinted_eq_false hrunning).mpr hm, hheard]
            rfl
  · cases hs

theorem quiet_iff {s s' : Succession} {index : Nat} (h : Held s.core s.running)
    (hs : s.step (.apply index) = some s') : s.Idles index ↔ s.Harmless s' ∧ s.Quiet s' := by
  have hharmless := harmless_iff h hs
  simp only [Succession.step] at hs
  split at hs
  · rename_i disposition hd
    split at hs
    · cases hs
    cases hs
    constructor
    · intro hidles
      refine ⟨hharmless.mp ?_, fun hne => ?_⟩
      · simp only [Succession.Idles, hd] at hidles
        simp only [Succession.Clear, hd]
        cases disposition with
        | expectRebind => exact hidles
        | terminate => exact hidles.imp_right .inl
      · obtain ⟨phase, hrunning⟩ := Option.ne_none_iff_exists'.mp hne
        rw [hrunning] at h
        simp only [apply_of_idles h hrunning hd hidles]
    · intro ⟨hclear, hquiet⟩
      have hclear := hharmless.mpr hclear
      simp only [Succession.Clear, hd] at hclear
      simp only [Succession.Idles, hd]
      cases disposition with
      | expectRebind => exact hclear
      | terminate =>
        cases hrunning : s.running with
        | none => exact .inl rfl
        | some phase =>
          right
          rw [hrunning] at h
          have hclosing : s.core.terminate.monitors.closing = s.core.monitors.closing := hquiet (by simp [hrunning])
          have hover : s.core.terminate.monitors.closing = true := MonitorHub.removed_closing s.core.monitors
          rcases h.current with hb | ⟨hc, _⟩ | ⟨_, hopen⟩
          · simp only [hrunning, reduceCtorEq, false_or] at hclear
            rcases hclear with hc | hspared
            · exact hc
            · simp only [Succession.Spared, Bool.and_eq_true, decide_eq_true_eq] at hspared
              rw [hspared.1.1] at hb
              cases hb
          · exact hc
          · rw [hover, hopen] at hclosing
            cases hclosing
  · cases hs

/-- The run that holds the flag stays held by a disposition that meets the condition. -/
theorem Held.apply {s : Succession} {index : Nat} {phase : Phase} {disposition : RunDisposition}
    (h : Held s.core (some phase)) (hrunning : s.running = some phase) (hd : s.pending[index]? = some disposition)
    (hclear : s.Clear (.apply index)) : Held (s.core.applyRunDisposition disposition) (some phase) := by
  by_cases hidles : s.Idles index
  · rw [apply_of_idles h hrunning hd hidles]
    exact h
  · cases disposition with
    | expectRebind => exact absurd (by simpa [Succession.Clear, Succession.Idles, hd] using hclear) hidles
    | terminate =>
      simp only [Succession.Idles, hd, hrunning, reduceCtorEq, false_or] at hidles
      simp only [Succession.Clear, hd, hrunning, reduceCtorEq, false_or, hidles] at hclear
      simp only [Succession.Spared, Bool.and_eq_true, decide_eq_true_eq, Bool.not_eq_true'] at hclear
      obtain ⟨⟨hc, hm⟩, -⟩ := hclear
      have hm := (isMinted_eq_false hrunning).mp hm
      rcases h.unbound hc hm with rfl | ⟨run, reported, rfl⟩
      · exact Idle.apply h .terminate
      · cases reported with
        | true => exact Idle.apply h .terminate
        | false =>
          -- the removal waits for the exit of the run
          obtain ⟨⟨hlatest, generation, hactive⟩, hcurrent⟩ := h
          obtain ⟨-, hopen⟩ := hcurrent.resolve_left fun hended => hidles hended.1
          have hremoved := (Bool.or_eq_false_iff.mp hopen).2
          simp only [BindingCore.applyRunDisposition, BindingCore.terminate, BindingCore.tellRemoved, BindingCore.close,
            MonitorHub.removed_busy hremoved hactive]
          exact ⟨⟨hlatest, generation, hactive⟩, .inl ⟨rfl, rfl, hremoved⟩⟩

theorem Held.step {s s' : Succession} {a : RunAction} (h : Held s.core s.running) (hclear : s.Clear a)
    (hs : s.step a = some s') : Held s'.core s'.running := by
  cases a with
  | start =>
    simp only [Succession.step] at hs
    split at hs
    · rename_i hrunning
      cases hs
      rw [hrunning] at h
      exact h
    · cases hs
  | monitorRun =>
    simp only [Succession.step] at hs
    split at hs
    · rename_i hrunning
      cases hs
      rw [hrunning] at h
      exact Held.monitorRun h
    · cases hs
  | publish =>
    simp only [Succession.step] at hs
    split at hs
    · rename_i hrunning
      rw [hrunning] at h
      rw [publish_minted h] at hs
      cases hs
      exact h.publish
    · cases hs
  | register =>
    simp only [Succession.step] at hs
    split at hs
    · rename_i hrunning
      cases hs
      rw [hrunning] at h
      exact h.register
    · cases hs
  | report status =>
    simp only [Succession.step] at hs
    split at hs
    · rename_i hrunning
      cases hs
      rw [hrunning] at h
      exact h.report status
    · rename_i hrunning
      cases hs
      rw [hrunning] at h
      exact h.reportLate status
    · cases hs
  | dropGuard =>
    simp only [Succession.step] at hs
    split at hs
    · rename_i hrunning
      cases hs
      rw [hrunning] at h
      exact h.dropGuard s.policy
    · cases hs
  | release exit =>
    simp only [Succession.step] at hs
    split at hs
    · rename_i hrunning
      rw [hrunning] at h
      exact h.elim
    · rename_i hrunning
      cases hs
      rw [hrunning] at h
      exact h
    · cases hs
  | apply index =>
    simp only [Succession.step] at hs
    split at hs
    · rename_i disposition hd
      split at hs
      · cases hs
      cases hs
      cases hrunning : s.running with
      | none =>
        rw [hrunning] at h
        exact Idle.apply h disposition
      | some phase =>
        rw [hrunning] at h
        exact h.apply hrunning hd hclear
    · cases hs
  | registerWatch =>
    cases hs
    exact h.onWatches _
  | cancelWatch index =>
    cases hs
    exact h.onWatches _

end Succession

/-! ## Dispositions and the run that follows -/

/-- In every run of an actor whose dispositions all meet the condition, no bind is
    refused, the mailbox of the run that serves is the bound one, and a disposition is
    harmless exactly when it meets the condition. It is harmless and has no removal come
    due exactly when it finds nothing to do. -/
theorem disposition_harmless_iff (policy : RestartPolicy) :
    ∀ s, Reach (within Succession.Clear Succession.step) (Succession.new policy) s →
      s.running ≠ some .superseded ∧
      (∀ run reported, s.running = some (.serving run reported) → s.core.current = .bound run.runId) ∧
      ∀ index s', s.step (.apply index) = some s' →
        (s.Clear (.apply index) ↔ s.Harmless s') ∧ (s.Idles index ↔ s.Harmless s' ∧ s.Quiet s') := by
  intro s hreach
  have h : Succession.Held s.core s.running := by
    refine hreach.invariant (I := fun s => Succession.Held s.core s.running) ?_ ?_
    · exact ⟨nofun, rfl, .inr ⟨rfl, rfl⟩⟩
    · intro s a s' h hs
      obtain ⟨hclear, hs⟩ := within_eq_some.mp hs
      exact h.step hclear hs
  refine ⟨?_, ?_, fun index s' hs => ⟨Succession.harmless_iff h hs, Succession.quiet_iff h hs⟩⟩
  · intro hrunning
    rw [hrunning] at h
    exact h
  · intro run reported hrunning
    rw [hrunning] at h
    cases reported with
    | false => exact h.2.1
    | true => exact h.2.2.1

/-- A run fails, its disposition is applied before the next run starts, and that one is
    bound. -/
theorem disposition_harmless_in_time :
    ∃ s, Reach (within Succession.Clear Succession.step) (Succession.new .default) s ∧
      s.running = some (.serving ⟨1, none⟩ false) ∧ s.core.current = .bound 1 := by
  have hrun : ∃ s, replay (within Succession.Clear Succession.step) (Succession.new .default)
      [.start, .monitorRun, .publish, .register, .report ⟨.failed "boom", false⟩, .dropGuard, .release (some .failed),
        .apply 0, .start, .monitorRun, .publish, .register] = some s ∧
      s.running = some (.serving ⟨1, none⟩ false) := by
    refine ⟨_, rfl, ?_⟩
    decide
  obtain ⟨s, hrun, hrunning⟩ := hrun
  have hreach := Reach.of_replay hrun
  exact ⟨s, hreach, hrunning, (disposition_harmless_iff _ s hreach).2.1 _ _ hrunning⟩

/-- Applied after the next run is bound, the `unbind` of a failed run clears a mailbox
    that serves. Applied after the next run has taken its number, the `terminate` of a
    run that was asked to stop has its bind refused. -/
theorem late_disposition_harms :
    (∃ s s', Reach Succession.step (Succession.new .default) s ∧ s.step (.apply 0) = some s' ∧
      s.running = some (.serving ⟨1, none⟩ false) ∧ s.core.current = .bound 1 ∧ s'.core.current = .unbound ∧
      ¬s.Harmless s') ∧
    ∃ s, Reach Succession.step (Succession.new .default) s ∧ s.running = some .superseded := by
  constructor
  · have hrun : ∃ s s', replay Succession.step (Succession.new .default)
        [.start, .monitorRun, .publish, .register, .report ⟨.failed "boom", false⟩, .dropGuard,
          .release (some .failed), .start, .monitorRun, .publish, .register] = some s ∧
        s.step (.apply 0) = some s' ∧ s.running = some (.serving ⟨1, none⟩ false) ∧ s.core.current = .bound 1 ∧
        s'.core.current = .unbound := by
      refine ⟨_, _, rfl, rfl, ?_⟩
      decide
    obtain ⟨s, s', hrun, hs, hrunning, hbound, hunbound⟩ := hrun
    refine ⟨s, s', .of_replay hrun, hs, hrunning, hbound, hunbound, ?_⟩
    intro hharmless
    have := (hharmless _ hrunning).1 1 hbound
    rw [hunbound] at this
    cases this
  · have hrun : ∃ s, replay Succession.step (Succession.new .default)
        [.start, .monitorRun, .publish, .register, .report ⟨.completed, true⟩, .dropGuard,
          .release (some .shutdownRequested), .start, .monitorRun, .apply 0, .publish] = some s ∧
        s.running = some .superseded := by
      refine ⟨_, rfl, ?_⟩
      decide
    obtain ⟨s, hrun, hrunning⟩ := hrun
    exact ⟨s, .of_replay hrun, hrunning⟩

end Kokage.Actor
