/-
  Kokage.Supervisor.Abstraction — the ledger of a runtime, and what the runtime's small
  operations do to it.

  Most of them do nothing to it (tokens, flags, deadlines, replies, start queue): these
  are the `ledger_*` equations. The rest are single ledger steps followed by
  publications.
-/

import Kokage.Supervisor.Ledger
import Kokage.Supervisor.Machine

namespace Kokage.Supervisor

open Kokage.Lib

def ChildEntry.member (e : ChildEntry) : Member where
  id := e.id
  lineage := e.lineage
  definition := e.runtime.definition
  channels := e.nestedChannels
  membership := e.membership
  generation := e.runtime.generation
  state := e.runtime.state
  task := e.runtime.abortHandle
  hasStarted := e.runtime.hasStarted
  hasReportedReady := e.runtime.hasReportedReady
  startupAborted := e.runtime.startupAborted
  lastExit := e.lastExit.map fun k => ⟨k, e.lastExitCancelled⟩

def Notice.verdict : Notice → Option TaskMeta
  | .startupAborted t => some t
  | _ => none

namespace SupervisorRuntime

open Ledger

def ledger (rt : SupervisorRuntime) : Ledger where
  host := rt.cfg.host
  kind := rt.cfg.kind
  running := decide (rt.state = .running)
  members := rt.children.map fun _ e => e.member
  byId := rt.childrenById
  order := rt.childOrder
  live := rt.liveTasks
  taskMap := rt.taskMap
  joinIds := rt.joinSet.map (·.id)
  gate := rt.startGate
  nextLineage := rt.nextLineage
  seq := rt.seq
  log := rt.log
  published := rt.published
  readySignals := rt.readySignals
  readyRx := rt.readyRx
  timelyReady := rt.timelyReady
  verdicts := rt.notices.filterMap Notice.verdict
  spawnedFrom := rt.spawnedFrom

variable {rt : SupervisorRuntime} {key : ChildKey} {e : ChildEntry} {A : Label → Prop}

theorem ledger_get (h : rt.children.get key = some e) : rt.ledger.members.get key = some e.member := by
  simp [ledger, h]

theorem ledger_get_none (h : rt.children.get key = none) : rt.ledger.members.get key = none := by
  simp [ledger, h]

theorem get_of_ledger {m : Member} (h : rt.ledger.members.get key = some m) :
    ∃ e, rt.children.get key = some e ∧ e.member = m := by
  simpa [ledger] using h

/-! ## Edits -/

theorem map_modify_quiet {s : Slab ChildEntry} {f : ChildEntry → ChildEntry}
    (h : ∀ e, s.get key = some e → (f e).member = e.member) :
    ((s.modify key f).map fun _ e => e.member) = s.map fun _ e => e.member := by
  ext1
  · rename_i k
    simp only [Slab.get_map, Slab.get_modify]
    split
    · rename_i hk
      subst hk
      cases hg : s.get k with
      | none => rfl
      | some e => simp [h e hg]
    · rfl
  · rfl

theorem map_modify {s : Slab ChildEntry} {f : ChildEntry → ChildEntry} (h : s.get key = some e) :
    ((s.modify key f).map fun _ e => e.member) = (s.map fun _ e => e.member).insertAt key (f e).member := by
  ext1
  · rename_i k
    simp only [Slab.get_map, Slab.get_modify, Slab.get_insertAt]
    split
    · rename_i hk
      subst hk
      simp [h]
    · rfl
  · have := Slab.lt_bound h
    show s.bound = max s.bound (key + 1)
    omega

theorem map_insertAt {s : Slab ChildEntry} :
    ((s.insertAt key e).map fun _ e => e.member) = (s.map fun _ e => e.member).insertAt key e.member := by
  ext1
  · rename_i k
    simp only [Slab.get_map, Slab.get_insertAt]
    split <;> rfl
  · rfl

theorem map_remove {s : Slab ChildEntry} :
    ((s.remove key).map fun _ e => e.member) = (s.map fun _ e => e.member).remove key := by
  ext1
  · rename_i k
    simp only [Slab.get_map, Slab.get_remove]
    split <;> rfl
  · rfl

theorem map_map_quiet {s : Slab ChildEntry} {f : Nat → ChildEntry → ChildEntry}
    (h : ∀ k e, (f k e).member = e.member) : ((s.map f).map fun _ e => e.member) = s.map fun _ e => e.member := by
  ext1
  · rename_i k
    simp only [Slab.get_map, Option.map_map]
    cases s.get k with
    | none => rfl
    | some e => simp [h]
  · rfl

theorem ledger_edit_quiet {f : ChildEntry → ChildEntry}
    (h : ∀ e, rt.children.get key = some e → (f e).member = e.member) : (rt.edit key f).ledger = rt.ledger := by
  unfold ledger
  congr 1
  exact map_modify_quiet h

theorem ledger_edit {f : ChildEntry → ChildEntry} (h : rt.children.get key = some e) :
    (rt.edit key f).ledger = rt.ledger.put key (f e).member := by
  unfold ledger put
  congr 1
  exact map_modify h

theorem get_edit {f : ChildEntry → ChildEntry} (h : rt.children.get key = some e) :
    (rt.edit key f).children.get key = some (f e) := by
  simp [edit, h]

theorem ledger_notify {n : Notice} (h : n.verdict = none) : (rt.notify n).ledger = rt.ledger := by
  unfold ledger
  congr 1
  simp [notify, h]

theorem ledger_abortTask (task : TaskId) : (rt.abortTask task).ledger = rt.ledger := by
  unfold ledger
  congr 1
  simp only [abortTask, List.map_map]
  apply List.map_congr_left
  intro t _
  simp only [Function.comp_apply]
  split <;> rfl

/-! ## Stopping, gates and replies leave the ledger alone -/

theorem ledger_cancelChild (key : ChildKey) : (rt.cancelChild key).ledger = rt.ledger :=
  ledger_edit_quiet fun _ _ => rfl

theorem ledger_escalateChild (key : ChildKey) : (rt.escalateChild key).ledger = rt.ledger :=
  ledger_edit_quiet fun _ _ => rfl

theorem ledger_abortChild (key : ChildKey) : (rt.abortChild key).ledger = rt.ledger := by
  unfold abortChild
  simp only
  split
  · rw [ledger_abortTask]
    exact ledger_edit_quiet fun _ _ => rfl
  · exact ledger_edit_quiet fun _ _ => rfl

theorem ledger_expireRemoval (key : ChildKey) (grace : Duration) : (rt.expireRemoval key grace).ledger = rt.ledger := by
  unfold expireRemoval
  rw [ledger_escalateChild]
  exact ledger_edit_quiet fun _ _ => rfl

theorem ledger_hardAbortRemoval (key : ChildKey) : (rt.hardAbortRemoval key).ledger = rt.ledger := by
  unfold hardAbortRemoval
  rw [ledger_abortChild]
  exact ledger_edit_quiet fun _ _ => rfl

/-- A fold of operations that leave the ledger alone leaves it alone. -/
theorem ledger_foldl {α : Type} {f : SupervisorRuntime → α → SupervisorRuntime}
    (hf : ∀ rt a, (f rt a).ledger = rt.ledger) : ∀ (as : List α) (rt : SupervisorRuntime), (as.foldl f rt).ledger = rt.ledger
  | [], _ => rfl
  | a :: as, rt => (ledger_foldl hf as (f rt a)).trans (hf rt a)

theorem ledger_completeEmptyStartupGate : rt.completeEmptyStartupGate.ledger = rt.ledger := by
  unfold completeEmptyStartupGate
  split
  · exact ledger_notify rfl
  · rfl

theorem ledger_startupMemberReady (key : ChildKey) (lineage : Nat) :
    (rt.startupMemberReady key lineage).ledger = rt.ledger := by
  unfold startupMemberReady
  split
  · rfl
  · exact ledger_completeEmptyStartupGate

theorem ledger_markChildTerminal (key : ChildKey) : (rt.markChildTerminal key).ledger = rt.ledger := by
  unfold markChildTerminal
  split
  · rfl
  · split
    · rfl
    · exact ledger_notify rfl

theorem ledger_retireNested : (rt.retireNested e).ledger = rt.ledger := by
  unfold retireNested
  split
  · exact ledger_notify rfl
  · rfl

theorem ledger_clearCell : (rt.clearCell e).ledger = rt.ledger := by
  unfold clearCell
  split <;> rfl

theorem ledger_resolvePendingRemovals (failure : Option SupervisorError) :
    (rt.resolvePendingRemovals failure).ledger = rt.ledger := by
  unfold resolvePendingRemovals
  simp only
  rw [ledger_foldl fun rt p => ledger_notify rfl]
  unfold ledger
  congr 1
  exact map_map_quiet fun _ _ => rfl

theorem ledger_finalizeStableChannels : rt.finalizeStableChannels.ledger = rt.ledger :=
  ledger_foldl (fun _ key => ledger_markChildTerminal key) _ _

theorem ledger_detachNested : rt.detachNestedChildrenForRevivableFailure.ledger = rt.ledger := by
  unfold ledger
  congr 1
  refine map_map_quiet fun _ e => ?_
  split <;> rfl

theorem ledger_cancelGroupToken : rt.cancelGroupToken.ledger = rt.ledger := by
  unfold ledger
  congr 1
  exact map_map_quiet fun _ _ => rfl

theorem ledger_closeCommandsFor (reason : DrainReason) : (rt.closeCommandsFor reason).ledger = rt.ledger := by
  unfold closeCommandsFor
  split <;> rfl

theorem ledger_abortMatching (p : ChildKey → ChildEntry → Bool) : (rt.abortMatching p).ledger = rt.ledger := by
  refine ledger_foldl (fun rt x => ?_) _ _
  simp only
  split
  · split
    · rw [ledger_abortTask]
      exact ledger_edit_quiet fun _ _ => rfl
    · rfl
  · rfl

/-! ## Publication -/

theorem rows_snapshotView : rt.snapshotView.rows = rt.ledger.rows := by
  simp only [SupervisorSnapshot.rows, snapshotView, Ledger.rows, ledger, List.map_filterMap, Slab.get_map,
    Option.map_map]
  rfl

theorem publishes (hA : A .other) : Ledger.Path A rt.ledger rt.publishSnapshot.ledger :=
  .single (.publish rt.snapshotView rfl rows_snapshotView) hA

theorem ledger_sendSupervisorEvent (kind : SupervisorEventKind) :
    (rt.sendSupervisorEvent kind).ledger = rt.publishSnapshot.ledger := by
  unfold sendSupervisorEvent
  simp only
  split
  · rfl
  · exact ledger_notify rfl

/-- An event with its sequence, then the aligned snapshot unless the hub is terminal. -/
theorem emits (d : LifecycleEventDraft) (hA : A .other) : Ledger.Path A (rt.ledger.emit d) (rt.sendLifecycleDraft d).ledger := by
  unfold sendLifecycleDraft
  simp only
  split
  · exact .refl
  · exact @publishes { rt with seq := rt.seq + 1, log := rt.log ++ [d.at (rt.seq + 1)] } A hA

/-- `send_lifecycle` about a present child. -/
theorem sendLifecycle_eq (kind : ChildEventKind) (h : rt.children.get key = some e) :
    ∃ d, d.For e.member kind ∧ rt.sendLifecycle key kind = rt.sendLifecycleDraft d :=
  ⟨⟨e.id, e.lineage, rt.totalRestarts, e.runtime.restartTracker.totalRestarts, kind⟩, ⟨rfl, rfl, rfl⟩, by
    simp [sendLifecycle, lifecycleDraft, h]⟩

/-- An announcement that is no change by itself. -/
theorem announces (hA : A .announced) (hA' : A .other) : Ledger.Path A rt.ledger (rt.sendLifecycle key .added).ledger := by
  cases h : rt.children.get key with
  | none =>
    have : rt.sendLifecycle key .added = rt := by simp [sendLifecycle, lifecycleDraft, h]
    rw [this]
    exact .refl
  | some e =>
    obtain ⟨d, hd, he⟩ := sendLifecycle_eq .added h
    rw [he]
    exact .trans (.single (.announced (ledger_get h) hd) hA) (emits d hA')

end SupervisorRuntime

end Kokage.Supervisor
