/-
  Kokage.Supervisor.Accounts — a restart drain accounts for every join.

  A drain is followed from its start to its return (`Drained`), with the joins it consumed
  on the way; a join is consumed when `consume_joined_child` returns an exit. Whatever the
  order of joins, timers and sweeps (`Accounted`):
  - when the drain returns `Ok`, no child in its scope is active;
  - a child outside the scope is asked nothing: its tokens and its task's abort flag are
    those of the start, until its own exit is consumed;
  - the exits recorded since the start are the joins consumed, in their order;
  - of the joins outside the scope, each is deferred once, in their order, unless the child
    was being removed: then its removal is finalized instead. An ordered scope removes
    nobody, so there all are deferred.
-/

import Kokage.Supervisor.Removals
import Kokage.Supervisor.Startup

namespace Kokage.Supervisor

open Kokage.Lib Ledger SupervisorRuntime

/-! ## One drain -/

/-- The drain polls the join set at this await. -/
def DrainPhase.polls : DrainPhase → Bool
  | .ordered _ (.yielded _) | .concurrent _ .yield | .concurrent _ .lastYield => false
  | _ => true

/-- What a drain at `p` makes of a wake. -/
def drainWake (p : DrainPhase) (rt : SupervisorRuntime) : Wake → DrainOut × SupervisorRuntime
  | .joined task =>
    match p.polls, joinable rt task with
    | true, some c => drainJoined p task c rt
    | _, _ => (.await p, rt)
  | .timer => drainTimer p rt
  | .resumed => drainResumed p rt
  | .noJoin => drainNoJoin p rt
  | _ => (.await p, rt)

theorem wakeDrain_eq (rt : SupervisorRuntime) (p : DrainPhase) (k : Continuation) (w : Wake) :
    wakeDrain rt p k w = resumeDrain k (drainWake p rt w) := by
  have hstay : ∀ p, resumeDrain k (.await p, rt) = ⟨rt, .drain p k⟩ := by
    intro p
    cases k <;> rfl
  cases w with
  | joined task =>
    cases hc : joinable rt task with
    | none => cases p with
      | ordered d w => cases w <;> simp [wakeDrain, drainWake, hc, hstay]
      | concurrent d w => cases w <;> simp [wakeDrain, drainWake, hc, hstay]
    | some c => cases p with
      | ordered d w => cases w <;> simp [wakeDrain, drainWake, DrainPhase.polls, hc, hstay]
      | concurrent d w => cases w <;> simp [wakeDrain, drainWake, DrainPhase.polls, hc, hstay]
  | timer => rfl
  | resumed => rfl
  | noJoin => rfl
  | _ => exact (hstay p).symm

structure ConsumedJoin where
  record : TaskMeta
  /-- The child was being removed. -/
  removing : Bool
  deriving DecidableEq, Repr

/-- The join a drain at `p` consumes on a wake. -/
def consumedJoin (p : DrainPhase) (rt : SupervisorRuntime) : Wake → List ConsumedJoin
  | .joined task =>
    if p.polls && (joinable rt task).isSome then
      ((rt.taskMap task).toList.filter fun t => rt.currentChildMatches t.key t.lineage t.generation).map fun t =>
        ⟨t, (rt.children.get t.key).any (·.membership = .removing)⟩
    else []
  | _ => []

/-- The drain begun at `rt₀` has consumed `joins` and come to `out`. -/
inductive Drained (reason : DrainReason) (scope : DrainScope) (rt₀ : SupervisorRuntime) :
    List ConsumedJoin → DrainOut → SupervisorRuntime → Prop
  | start : Drained reason scope rt₀ [] (rt₀.startDrain reason scope).1 (rt₀.startDrain reason scope).2
  | env {joins : List ConsumedJoin} {p : DrainPhase} {rt : SupervisorRuntime} (e : EnvStep) :
      Drained reason scope rt₀ joins (.await p) rt → Drained reason scope rt₀ joins (.await p) (rt.env e)
  | wake {joins : List ConsumedJoin} {p : DrainPhase} {rt : SupervisorRuntime} (w : Wake) :
      Drained reason scope rt₀ joins (.await p) rt →
      Drained reason scope rt₀ (joins ++ consumedJoin p rt w) (drainWake p rt w).1 (drainWake p rt w).2

/-- The exits in the log, by lineage and generation. -/
def exitsTold (log : List ChildEvent) : List (Nat × Nat) :=
  log.filterMap fun ev => match ev.kind with
    | .exited generation _ => some (ev.lineage, generation)
    | _ => none

/-- What has been asked of a child's task. -/
structure Requests where
  cancelled : Option Bool
  marked : Bool
  escalated : Option Bool
  timedOut : Bool
  cascades : Bool
  aborted : Bool
  deriving DecidableEq

def SupervisorRuntime.requests (rt : SupervisorRuntime) (e : ChildEntry) : Requests where
  cancelled := e.runtime.activeToken
  marked := decide (e.runtime.completion = .cancelled)
  escalated := e.runtime.activeAbortToken
  timedOut := e.runtime.shutdownTimedOut
  cascades := e.runtime.nestedAbortCascades
  aborted := rt.joinSet.any fun t => decide (e.runtime.abortHandle = some t.id) && t.abortRequested

/-- A child outside the scope is asked nothing before its exit is consumed. -/
def Untouched (scope : DrainScope) (rt₀ : SupervisorRuntime) (joins : List ConsumedJoin) (rt : SupervisorRuntime) : Prop :=
  ∀ key e, scope.contains key = false → rt.children.get key = some e →
    (∃ j ∈ joins, j.record = ⟨key, e.lineage, e.runtime.generation⟩) ∨
      ∃ e₀, rt₀.children.get key = some e₀ ∧ e₀.lineage = e.lineage ∧ e₀.runtime.generation = e.runtime.generation ∧
        rt.requests e = rt₀.requests e₀

/-- The exits a drain has deferred, whether it goes on or returns. -/
def DrainOut.deferred : DrainOut → Option (List ClassifiedExit)
  | .await p => some p.deferred
  | .done (.ok exits) => some exits
  | .done (.error _) => none

/-- The account of a drain. -/
structure Accounted (scope : DrainScope) (rt₀ : SupervisorRuntime) (joins : List ConsumedJoin) (out : DrainOut)
    (rt : SupervisorRuntime) : Prop where
  complete : ∀ exits, out = .done (.ok exits) → ∀ key e, scope.contains key = true → rt.children.get key = some e →
    e.runtime.state.isActive = false
  untouched : Untouched scope rt₀ joins rt
  recorded : exitsTold rt.log = exitsTold rt₀.log ++ joins.map fun j => (j.record.lineage, j.record.generation)
  deferred : ∀ exits, out.deferred = some exits →
    (exits.filter fun c => !scope.contains c.key).map (·.record) =
      (joins.filter fun j => !scope.contains j.record.key && !j.removing).map (·.record)

/-! ## A join inside a drain -/

namespace SupervisorRuntime

variable {rt rt' : SupervisorRuntime} {key : ChildKey} {e : ChildEntry} {scope : DrainScope}

theorem exitsTold_append (log log' : List ChildEvent) : exitsTold (log ++ log') = exitsTold log ++ exitsTold log' :=
  List.filterMap_append

/-- The children but `key` and the tasks stand. -/
structure SparesAll (key : ChildKey) (rt rt' : SupervisorRuntime) : Prop where
  others : ∀ k, k ≠ key → rt'.children.get k = rt.children.get k
  joinSet_eq : rt'.joinSet = rt.joinSet

theorem SparesAll.trans {rt'' : SupervisorRuntime} (h : SparesAll key rt rt') (h' : SparesAll key rt' rt'') :
    SparesAll key rt rt'' :=
  ⟨fun k hk => (h'.others k hk).trans (h.others k hk), h'.joinSet_eq.trans h.joinSet_eq⟩

theorem spares_sendLifecycleDraft (d : LifecycleEventDraft) : SparesAll key rt (rt.sendLifecycleDraft d) := by
  unfold sendLifecycleDraft
  simp only
  split
  · exact ⟨fun _ _ => rfl, rfl⟩
  · exact ⟨fun _ _ => rfl, rfl⟩

theorem log_sendLifecycleDraft (d : LifecycleEventDraft) : (rt.sendLifecycleDraft d).log = rt.log ++ [d.at (rt.seq + 1)] := by
  unfold sendLifecycleDraft
  simp only
  split <;> rfl

theorem spares_recordExit (generation : Nat) (status : RuntimeExitStatus) :
    SparesAll key rt (rt.recordExit key generation status) := by
  have h₁ : SparesAll key rt (rt.edit key (recordExitEntry rt.now status)) :=
    ⟨fun k hk => Slab.get_modify_ne _ _ hk, rfl⟩
  have h₂ : ∀ (rt : SupervisorRuntime) kind, SparesAll key rt (rt.sendLifecycle key kind) := by
    intro rt kind
    unfold sendLifecycle
    split
    · exact spares_sendLifecycleDraft _
    · exact ⟨fun _ _ => rfl, rfl⟩
  exact (h₁.trans (h₂ _ _)).trans ⟨fun _ _ => rfl, rfl⟩

theorem spares_finalizeRemovedChild (checkElapsedGrace : Bool) :
    SparesAll key rt (rt.finalizeRemovedChild key checkElapsedGrace) := by
  cases he : rt.children.get key with
  | none =>
    unfold finalizeRemovedChild
    rw [he]
    exact ⟨fun _ _ => rfl, rfl⟩
  | some e =>
    have hdrop : SparesAll key rt (((rt.dropEntry key e).clearCell e).retireNested e) := by
      refine ⟨fun k hk => ?_, ?_⟩
      · rw [retireNested_children, clearCell_children]
        exact Slab.get_remove_ne _ hk
      · unfold retireNested clearCell
        split <;> split <;> rfl
    have hdraft : rt.lifecycleDraft key .removed = some ⟨e.id, e.lineage, rt.totalRestarts,
        e.runtime.restartTracker.totalRestarts, .removed⟩ := by
      simp [lifecycleDraft, he]
    have hsend := hdrop.trans (spares_sendLifecycleDraft ⟨e.id, e.lineage, rt.totalRestarts,
      e.runtime.restartTracker.totalRestarts, .removed⟩)
    unfold finalizeRemovedChild
    simp only [he, hdraft]
    split
    · exact hsend.trans ⟨fun _ _ => rfl, rfl⟩
    · exact hsend.trans ⟨fun _ _ => rfl, rfl⟩

/-- A removal is no exit. -/
theorem exits_finalizeRemovedChild (checkElapsedGrace : Bool) :
    exitsTold (rt.finalizeRemovedChild key checkElapsedGrace).log = exitsTold rt.log := by
  cases he : rt.children.get key with
  | none =>
    unfold finalizeRemovedChild
    rw [he]
  | some e =>
    have hlog : (((rt.dropEntry key e).clearCell e).retireNested e).log = rt.log := by
      unfold retireNested clearCell
      split <;> split <;> rfl
    have hdraft : rt.lifecycleDraft key .removed = some ⟨e.id, e.lineage, rt.totalRestarts,
        e.runtime.restartTracker.totalRestarts, .removed⟩ := by
      simp [lifecycleDraft, he]
    have hsend : exitsTold ((((rt.dropEntry key e).clearCell e).retireNested e).sendLifecycleDraft ⟨e.id, e.lineage,
        rt.totalRestarts, e.runtime.restartTracker.totalRestarts, .removed⟩).log = exitsTold rt.log := by
      rw [log_sendLifecycleDraft, exitsTold_append, hlog]
      exact List.append_nil _
    unfold finalizeRemovedChild
    simp only [he, hdraft]
    split
    · exact hsend
    · exact hsend

/-- What a drain with this scope makes of the join of `task`. -/
inductive Joins (scope : DrainScope) (task : TaskId) (rt : SupervisorRuntime) :
    List ClassifiedExit → SupervisorRuntime → Prop
  /-- Nobody's current task. -/
  | stale {t : TaskMeta} : rt.taskMap task = some t → rt.currentChildMatches t.key t.lineage t.generation = false →
      Joins scope task rt [] (rt.unlinked task)
  | consumed {t : TaskMeta} {e : ChildEntry} {exits : List ClassifiedExit} {rt' : SupervisorRuntime} :
      rt.taskMap task = some t → rt.children.get t.key = some e → e.lineage = t.lineage →
      e.runtime.generation = t.generation → (∀ k, k ≠ t.key → rt'.children.get k = rt.children.get k) →
      (∀ e', rt'.children.get t.key = some e' → e'.lineage = t.lineage ∧ e'.runtime.generation = t.generation) →
      rt'.joinSet = rt.joinSet.filter (·.id ≠ task) →
      exitsTold rt'.log = exitsTold rt.log ++ [(t.lineage, t.generation)] →
      (exits.filter fun c => !scope.contains c.key).map (·.record) =
        (if scope.contains t.key = false ∧ e.membership ≠ .removing then [t] else []) →
      Joins scope task rt exits rt'

theorem handleJoinForScope_joins {task : TaskId} (c : Conclusion) (scope : DrainScope) (cursor : Option ChildKey)
    (hb : rt.ledger.Books) (hj : task ∈ rt.joinSet.map (·.id)) :
    ∃ exits, (handleJoinForScope task c scope cursor rt).1 = .ok exits ∧
      Joins scope task rt exits (handleJoinForScope task c scope cursor rt).2 := by
  have hc := @consumeJoinedChild_cases rt task c
  unfold handleJoinForScope
  rw [Act.run_bind]
  generalize consumeJoinedChild task c rt = q at hc
  obtain ⟨r, rt₁⟩ := q
  cases hc with
  | lost ht =>
    obtain ⟨t, hrec⟩ := (hb.record_iff task).mp hj
    have hrec : rt.taskMap task = some t := hrec
    rw [ht] at hrec
    cases hrec
  | stale ht hno => exact ⟨[], rfl, .stale ht hno⟩
  | @current t e status ht he hl hg =>
    let rt₁ : SupervisorRuntime := { rt.unlinked task with liveTasks := rt.liveTasks - 1 }
    let rt₂ := rt₁.recordExit t.key t.generation status
    obtain ⟨d, hd, hget, hlog, -⟩ := @recordExit_spec rt₁ t.key e t.generation status he
    have hspare : SparesAll t.key rt₁ rt₂ := spares_recordExit _ _
    have hexits : exitsTold rt₂.log = exitsTold rt.log ++ [(t.lineage, t.generation)] := by
      have hone : exitsTold [d.at (rt₁.seq + 1)] = [(t.lineage, t.generation)] := by
        have hkind : d.kind = .exited t.generation (exitOf status e) := hd.kind_eq
        have hlin : d.lineage = t.lineage := hd.lineage_eq.trans hl
        simp [exitsTold, LifecycleEventDraft.at, hkind, hlin]
      have hlog : rt₂.log = rt.log ++ [d.at (rt₁.seq + 1)] := hlog
      rw [hlog, exitsTold_append, hone]
    have hself : ∀ e', rt₂.children.get t.key = some e' → e'.lineage = t.lineage ∧ e'.runtime.generation = t.generation := by
      intro e' he'
      rw [hget] at he'
      cases he'
      exact ⟨hl, hg⟩
    simp only [Act.run_modify_bind, Act.run_get_bind]
    rw [hget]
    simp only
    split
    · rename_i hrem
      have hrem : e.membership = .removing := hrem
      have hfin : SparesAll t.key rt₂ (rt₂.finalizeRemovedChild t.key true) := spares_finalizeRemovedChild true
      refine ⟨[], rfl, .consumed ht he hl hg (fun k hk => ?_) (fun e' he' => ?_) ?_ ?_ ?_⟩
      · exact (hfin.others k hk).trans (hspare.others k hk)
      · have he' : (rt₂.finalizeRemovedChild t.key true).children.get t.key = some e' := he'
        rw [finalizeRemovedChild_gone] at he'
        cases he'
      · exact hfin.joinSet_eq.trans hspare.joinSet_eq
      · exact (exits_finalizeRemovedChild true).trans hexits
      · rw [if_neg fun h => h.2 hrem]
        rfl
    · rename_i hrem
      have hrem : e.membership ≠ .removing := hrem
      split
      · refine ⟨_, rfl, .consumed ht he hl hg hspare.others hself hspare.joinSet_eq hexits ?_⟩
        cases hs : scope.contains t.key with
        | false => simp [hs, hrem, ClassifiedExit.record]
        | true => simp [hs]
      · rename_i hin
        simp only [Bool.or_eq_true, Bool.not_eq_true', not_or, Bool.not_eq_false] at hin
        refine ⟨[], rfl, .consumed ht he hl hg hspare.others hself hspare.joinSet_eq hexits ?_⟩
        rw [if_neg fun h => by rw [hin.1.1] at h; cases h.1]
        rfl

end SupervisorRuntime

/-! ## What is asked of others -/

section Others

variable {rt₀ rt rt' : SupervisorRuntime} {scope : DrainScope} {joins : List ConsumedJoin}

theorem any_filter_id {task : TaskId} {handle : Option TaskId} (h : handle ≠ some task) (ts : List Task) :
    (ts.filter (·.id ≠ task)).any (fun t => decide (handle = some t.id) && t.abortRequested) =
      ts.any fun t => decide (handle = some t.id) && t.abortRequested := by
  rw [List.any_filter]
  refine List.any_congr rfl fun t => ?_
  by_cases ht : t.id = task
  · have hne : handle ≠ some t.id := ht ▸ h
    simp [hne]
  · simp [ht]

theorem any_abortTasks {aborted : List TaskId} {handle : Option TaskId} (h : ∀ task ∈ aborted, handle ≠ some task)
    (ts : List Task) : (abortTasks ts aborted).any (fun t => decide (handle = some t.id) && t.abortRequested) =
      ts.any fun t => decide (handle = some t.id) && t.abortRequested := by
  unfold abortTasks
  rw [List.any_map]
  refine List.any_congr rfl fun t => ?_
  simp only [Function.comp]
  by_cases ht : t.id ∈ aborted
  · have hne : handle ≠ some t.id := h _ ht
    simp [ht, hne]
  · simp [ht]

/-- Nothing is asked of a child whose task is not among those aborted. -/
theorem Untouched.winds (hb : rt.ledger.Books) (h : Untouched scope rt₀ joins rt) (hw : Winds scope rt rt') :
    Untouched scope rt₀ joins rt' := by
  intro key e hout he
  rw [hw.outside key hout] at he
  have hreq : rt'.requests e = rt.requests e := by
    obtain ⟨aborted, hjoin, hab⟩ := hw.tasks
    unfold requests
    rw [hjoin, any_abortTasks fun task ht heq => ?_]
    obtain ⟨k, x, hk, hx, hhandle⟩ := hab task ht
    have h₁ := hb.task_record k x.member task (ledger_get hx) hhandle
    have h₂ := hb.task_record key e.member task (ledger_get he) heq
    have heq : k = key := congrArg TaskMeta.key (Option.some.inj (h₁.symm.trans h₂))
    rw [← heq, hk] at hout
    cases hout
  rw [hreq]
  exact h key e hout he

theorem Untouched.join {task : TaskId} {exits : List ClassifiedExit} {consumed : List ConsumedJoin} (hb : rt.ledger.Books)
    (h : Untouched scope rt₀ joins rt) (hj : Joins scope task rt exits rt')
    (hc : ∀ t e, rt.taskMap task = some t → rt.children.get t.key = some e → e.lineage = t.lineage →
      e.runtime.generation = t.generation → ∃ j ∈ consumed, j.record = t) :
    Untouched scope rt₀ (joins ++ consumed) rt' := by
  -- whoever is not joined stands, its task too
  have hstand : ∀ key e, scope.contains key = false → rt.children.get key = some e → e.runtime.abortHandle ≠ some task →
      rt'.joinSet = rt.joinSet.filter (·.id ≠ task) →
      (∃ j ∈ joins ++ consumed, j.record = ⟨key, e.lineage, e.runtime.generation⟩) ∨
      ∃ e₀, rt₀.children.get key = some e₀ ∧ e₀.lineage = e.lineage ∧ e₀.runtime.generation = e.runtime.generation ∧
        rt'.requests e = rt₀.requests e₀ := by
    intro key e hout he hne hjoin
    have hreq : rt'.requests e = rt.requests e := by
      unfold requests
      rw [hjoin, any_filter_id hne]
    rcases h key e hout he with ⟨j, hmem, hj⟩ | ⟨e₀, he₀, hl, hg, hr⟩
    · exact .inl ⟨j, List.mem_append_left _ hmem, hj⟩
    · exact .inr ⟨e₀, he₀, hl, hg, hreq.trans hr⟩
  intro key e hout he
  cases hj with
  | stale ht hno =>
    refine hstand key e hout he (fun heq => ?_) rfl
    have hrec := hb.task_record key e.member task (ledger_get he) heq
    have hrec : rt.taskMap task = some ⟨key, e.lineage, e.runtime.generation⟩ := hrec
    rw [ht] at hrec
    cases hrec
    have : rt.currentChildMatches key e.lineage e.runtime.generation = true :=
      (currentChildMatches_iff (t := ⟨key, e.lineage, e.runtime.generation⟩)).mpr ⟨e, he, rfl, rfl⟩
    rw [this] at hno
    cases hno
  | @consumed t x _ _ ht hx hxl hxg hothers hself hjoin =>
    by_cases hk : key = t.key
    · subst hk
      obtain ⟨j, hmem, hj⟩ := hc t x ht hx hxl hxg
      obtain ⟨hl, hg⟩ := hself e he
      refine .inl ⟨j, List.mem_append_right _ hmem, ?_⟩
      rw [hj, hl, hg]
    · rw [hothers key hk] at he
      refine hstand key e hout he (fun heq => hk ?_) hjoin
      have hrec := hb.task_record key e.member task (ledger_get he) heq
      have hrec : rt.taskMap task = some ⟨key, e.lineage, e.runtime.generation⟩ := hrec
      rw [ht] at hrec
      cases hrec
      rfl

/-- Nothing is asked of anybody. -/
def AsksNothing (rt rt' : SupervisorRuntime) : Prop :=
  ∀ key e', rt'.children.get key = some e' → ∃ e, rt.children.get key = some e ∧ e.lineage = e'.lineage ∧
    e.runtime.generation = e'.runtime.generation ∧ rt'.requests e' = rt.requests e

theorem AsksNothing.of_eq (hc : rt'.children = rt.children) (hj : rt'.joinSet = rt.joinSet) : AsksNothing rt rt' := by
  intro key e' he
  rw [hc] at he
  refine ⟨e', he, rfl, rfl, ?_⟩
  unfold requests
  rw [hj]

theorem AsksNothing.trans {rt'' : SupervisorRuntime} (h : AsksNothing rt rt') (h' : AsksNothing rt' rt'') :
    AsksNothing rt rt'' := by
  intro key e'' he''
  obtain ⟨e', he', hl', hg', hr'⟩ := h' key e'' he''
  obtain ⟨e, he, hl, hg, hr⟩ := h key e' he'
  exact ⟨e, he, hl.trans hl', hg.trans hg', hr'.trans hr⟩

theorem asksNothing_setStatus (task : TaskId) (status : TaskStatus) : AsksNothing rt (rt.setStatus task status) := by
  intro key e he
  refine ⟨e, he, rfl, rfl, ?_⟩
  unfold requests setStatus
  simp only [List.any_map]
  congr 1
  refine List.any_congr rfl fun t => ?_
  simp only [Function.comp]
  split <;> rfl

theorem asksNothing_markClean (task : TaskId) : AsksNothing rt (rt.markClean task) := by
  unfold markClean
  split
  · rename_i t _
    split
    · intro key e' he'
      have he' : (rt.children.modify t.key _).get key = some e' := he'
      rw [Slab.get_modify] at he'
      split at he'
      · obtain ⟨e, he, rfl⟩ := Option.map_eq_some_iff.mp he'
        refine ⟨e, he, rfl, rfl, ?_⟩
        have hmark : decide (e.runtime.completion.markClean = .cancelled) = decide (e.runtime.completion = .cancelled) := by
          cases e.runtime.completion <;> rfl
        exact congrArg (fun marked => ({ rt.requests e with marked := marked } : Requests)) hmark
      · exact ⟨e', he', rfl, rfl, rfl⟩
    · exact .of_eq rfl rfl
  · exact .of_eq rfl rfl

theorem asksNothing_env (ev : EnvStep) : AsksNothing rt (rt.env ev) := by
  cases ev with
  | submit command =>
    unfold env
    simp only
    split
    · exact .of_eq rfl rfl
    · exact .of_eq rfl rfl
  | markReady r =>
    unfold env
    simp only
    split
    · exact .of_eq rfl rfl
    · exact .of_eq rfl rfl
  | forward spawn snapshot =>
    unfold env forwardSnapshot
    simp only
    split
    · exact .of_eq rfl rfl
    · exact .of_eq rfl rfl
  | conclude task c =>
    unfold env
    simp only
    split
    · exact .of_eq rfl rfl
    · split
      · exact .of_eq rfl rfl
      · -- a clean completion is marked before the task ends
        refine AsksNothing.trans ?_ (asksNothing_setStatus task _)
        split
        · exact asksNothing_markClean task
        · exact .of_eq rfl rfl
  | settle task =>
    unfold env
    simp only
    split
    · exact asksNothing_setStatus task _
    · exact .of_eq rfl rfl
  | requestShutdown => exact .of_eq rfl rfl
  | closeCommands => exact .of_eq rfl rfl
  | tick d => exact .of_eq rfl rfl
  | terminalHub => exact .of_eq rfl rfl

theorem Untouched.env (ev : EnvStep) (h : Untouched scope rt₀ joins rt) : Untouched scope rt₀ joins (rt.env ev) := by
  intro key e' hout he'
  obtain ⟨e, he, hl, hg, hr⟩ := asksNothing_env ev key e' he'
  rw [← hl, ← hg, hr]
  exact h key e hout he

theorem log_env (ev : EnvStep) : (rt.env ev).log = rt.log := by
  rcases @env_ledger rt ev with h | h
  · exact congrArg Ledger.log h
  · have : (rt.env ev).ledger.log = rt.ledger.log := by
      generalize rt.ledger = L, (rt.env ev).ledger = L' at h
      cases h
      rfl
    exact this

/-! ## Steps -/

/-- A join, the exits it defers, and the loop head after it. -/
theorem drainJoined_joins {p : DrainPhase} {task : TaskId} (c : Conclusion) (hb : rt.ledger.Books)
    (hj : task ∈ rt.joinSet.map (·.id)) (hp : p.Progress rt.ledger) :
    ∃ cursor exits, let rt₁ := (handleJoinForScope task c p.scope cursor rt).2
      (handleJoinForScope task c p.scope cursor rt).1 = .ok exits ∧ Joins p.scope task rt exits rt₁ ∧ rt₁.ledger.Books ∧
      (deferring p exits).Progress rt₁.ledger ∧ drainJoined p task c rt = rejoined (deferring p exits) rt₁ ∧
      (drainJoined p task c rt).1.Good p.scope (p.deferred ++ exits) (drainJoined p task c rt).2.ledger := by
  obtain ⟨cursor, hok, -⟩ := @drainJoined_cases rt p task c
  obtain ⟨exits, hex, hjoins⟩ := handleJoinForScope_joins c p.scope cursor hb hj
  have hpath := handleJoinForScope_path c p.scope cursor hj hb
  have hb₁ := path_books hpath hb
  have hprog : (deferring p exits).Progress (handleJoinForScope task c p.scope cursor rt).2.ledger := by
    refine progress_path exits ?_ hpath hp
    rintro l k (rfl | ⟨t, failed, rfl⟩)
    · exact nofun
    · exact nofun
  have hgood := rejoined_good hb₁ hprog
  rw [deferring_scope, deferring_deferred] at hgood
  refine ⟨cursor, exits, hex, hjoins, hb₁, hprog, hok exits hex, ?_⟩
  rw [hok exits hex]
  exact hgood

theorem DrainOut.Good.deferred_eq {out : DrainOut} {exits ds : List ClassifiedExit} {L : Ledger} (h : out.Good scope exits L)
    (hd : out.deferred = some ds) : ds = exits := by
  cases out with
  | await p =>
    cases hd
    exact h.2.1
  | done r =>
    cases r with
    | ok x =>
      cases hd
      exact h.1
    | error e => cases hd

end Others

/-! ## The account -/

section Accounts

variable {reason : DrainReason} {scope : DrainScope} {rt₀ rt : SupervisorRuntime} {joins : List ConsumedJoin} {out : DrainOut}

/-- What holds of a restart drain wherever it has come to. -/
structure Following (reason : DrainReason) (scope : DrainScope) (rt₀ : SupervisorRuntime) (joins : List ConsumedJoin)
    (out : DrainOut) (rt : SupervisorRuntime) : Prop where
  books : rt.ledger.Books
  opened : rt.ledger.Open
  inv : out.Inv scope rt.ledger
  within : out.Within (reason, scope, rt₀.cfg.kind) scope
  untouched : Untouched scope rt₀ joins rt
  recorded : exitsTold rt.log = exitsTold rt₀.log ++ joins.map fun j => (j.record.lineage, j.record.generation)
  deferred : ∀ exits, out.deferred = some exits →
    (exits.filter fun c => !scope.contains c.key).map (·.record) =
      (joins.filter fun j => !scope.contains j.record.key && !j.removing).map (·.record)

theorem Following.accounted (h : Following reason scope rt₀ joins out rt) : Accounted scope rt₀ joins out rt where
  complete exits heq key e hk he := by
    obtain ⟨ds, hgood, -⟩ := h.inv
    rw [heq] at hgood
    exact hgood.2 key hk e.member (ledger_get he)
  untouched := h.untouched
  recorded := h.recorded
  deferred := h.deferred

theorem Winds.log_eq {rt' : SupervisorRuntime} (h : Winds scope rt rt') : rt'.log = rt.log := by
  show rt'.still.log = rt.still.log
  rw [h.rest]

theorem start_following (hb : rt₀.ledger.Books) (ho : rt₀.ledger.Open) (hs : rt₀.ledger.Settled) (hr : reason ≠ .shutdown) :
    Following reason scope rt₀ [] (rt₀.startDrain reason scope).1 (rt₀.startDrain reason scope).2 := by
  obtain ⟨hb₁, ho₁, hinv⟩ := startDrain_restart scope hb ho hs hr
  obtain ⟨hw, hin⟩ := @startDrain_wends rt₀ reason scope
  refine ⟨hb₁, ho₁, hinv, hin, Untouched.winds hb (fun key e _ he => .inr ⟨e, he, rfl, rfl, rfl⟩) hw, ?_, fun exits hd => ?_⟩
  · rw [hw.log_eq]
    exact (List.append_nil _).symm
  · rw [(startDrain_good hb hr).deferred_eq hd]
    rfl

theorem Following.continuation {p : DrainPhase} (h : Following reason scope rt₀ joins (.await p) rt) :
    (Continuation.restart [] false).Inv p rt.ledger ∧ p.scope = scope := by
  obtain ⟨hp, hscope⟩ := h.inv.await
  exact ⟨⟨h.opened, hp, List.nodup_nil, nofun⟩, hscope⟩

theorem Following.env {p : DrainPhase} (e : EnvStep) (h : Following reason scope rt₀ joins (.await p) rt) :
    Following reason scope rt₀ joins (.await p) (rt.env e) := by
  obtain ⟨hcont, hscope⟩ := h.continuation
  have hinv : (rt.env e).ledger.Books ∧ (Continuation.restart [] false).Inv p (rt.env e).ledger := by
    rcases @env_ledger rt e with heq | hs
    · rw [heq]
      exact ⟨h.books, hcont⟩
    · exact ⟨step_books hs h.books, @sent_phase _ _ (.drain p (.restart [] false)) hs h.books hcont⟩
  obtain ⟨hb, ho, ⟨hprog, hset, hdef⟩, -⟩ := hinv
  refine ⟨hb, ho, ⟨p.deferred, ⟨hscope, rfl, hprog⟩, hdef, fun k hk => hset k (hscope ▸ hk)⟩, h.within, h.untouched.env e, ?_, h.deferred⟩
  rw [log_env]
  exact h.recorded

/-- A wake that is no join: the drain's own work. -/
theorem Following.winds {p : DrainPhase} {out : DrainOut × SupervisorRuntime}
    (h : Following reason scope rt₀ joins (.await p) rt) (hw : Wends (reason, scope, rt₀.cfg.kind) scope rt out)
    (hlead : Leads (Stops p.scope) rt out.2) (hgood : out.1.Good p.scope p.deferred out.2.ledger) :
    Following reason scope rt₀ joins out.1 out.2 := by
  obtain ⟨hcont, hscope⟩ := h.continuation
  obtain ⟨hb, ho, hinv⟩ := restartDrain_out h.books hcont hlead hgood
  refine ⟨hb, ho, hscope ▸ hinv, hw.2, h.untouched.winds h.books hw.1, ?_, fun exits hd => ?_⟩
  · rw [hw.1.log_eq]
    exact h.recorded
  · rw [hgood.deferred_eq hd]
    exact h.deferred p.deferred rfl

/-- The join of a task that can be joined. -/
theorem Following.joined {p : DrainPhase} {task : TaskId} {c : Conclusion} (hpoll : p.polls = true)
    (hc : joinable rt task = some c) (h : Following reason scope rt₀ joins (.await p) rt) :
    Following reason scope rt₀ (joins ++ consumedJoin p rt (.joined task)) (drainJoined p task c rt).1
      (drainJoined p task c rt).2 := by
  obtain ⟨hcont, hscope⟩ := h.continuation
  have hj := mem_of_joinable hc
  obtain ⟨hb, ho, hinv⟩ := @restartDrain_joined rt p [] false task c h.books hcont hj
  obtain ⟨cursor, exits, -, hjoins, hb₁, -, heq, hgood⟩ := drainJoined_joins c h.books hj hcont.2.1.progress
  generalize (handleJoinForScope task c p.scope cursor rt).2 = rt₁ at hjoins hb₁ heq
  rw [hscope] at hjoins hinv
  have hw : Wends (reason, scope, rt₀.cfg.kind) scope rt₁ (drainJoined p task c rt) := by
    rw [heq]
    exact rejoined_wends rt₁ (deferring_within exits h.within)
  -- the exit that `consumedJoin` names
  have hcons : ∀ t, rt.taskMap task = some t → consumedJoin p rt (.joined task) =
      if rt.currentChildMatches t.key t.lineage t.generation then
        [⟨t, (rt.children.get t.key).any (·.membership = .removing)⟩] else [] := by
    intro t ht
    unfold consumedJoin
    simp only [hpoll, hc, Option.isSome_some, Bool.and_self, if_true, ht, Option.toList_some]
    cases hm : rt.currentChildMatches t.key t.lineage t.generation with
    | false => simp [hm]
    | true => simp [hm]
  have hmatch : ∀ (t : TaskMeta) e, rt.children.get t.key = some e → e.lineage = t.lineage → e.runtime.generation = t.generation →
      rt.currentChildMatches t.key t.lineage t.generation = true :=
    fun t e he hl hg => (currentChildMatches_iff (t := t)).mpr ⟨e, he, hl, hg⟩
  have hunt : Untouched scope rt₀ (joins ++ consumedJoin p rt (.joined task)) rt₁ := by
    refine h.untouched.join h.books hjoins fun t e ht he hl hg => ?_
    rw [hcons t ht, if_pos (hmatch t e he hl hg)]
    exact ⟨_, .head _, rfl⟩
  refine ⟨hb, ho, hinv, hw.2, hunt.winds hb₁ hw.1, ?_, fun ds hd => ?_⟩
  · rw [hw.1.log_eq, List.map_append]
    cases hjoins with
    | stale ht hno =>
      rw [hcons _ ht, hno]
      exact h.recorded.trans (congrArg _ (List.append_nil _).symm)
    | @consumed t e _ _ ht he hl hg _ _ _ hlog =>
      rw [hlog, h.recorded, hcons t ht, if_pos (hmatch t e he hl hg), List.append_assoc]
      rfl
  · rw [hgood.deferred_eq hd, List.filter_append, List.map_append, List.filter_append, List.map_append,
      h.deferred p.deferred rfl]
    congr 1
    cases hjoins with
    | stale ht hno =>
      rw [hcons _ ht, hno]
      rfl
    | @consumed t e _ _ ht he hl hg _ _ _ _ hex =>
      rw [hex, hcons t ht, if_pos (hmatch t e he hl hg)]
      cases hs : scope.contains t.key with
      | true => simp [hs]
      | false =>
        by_cases hm : e.membership = .removing
        · simp [hs, he, hm]
        · simp [hs, he, hm]

theorem drained_following (hb : rt₀.ledger.Books) (ho : rt₀.ledger.Open) (hs : rt₀.ledger.Settled) (hr : reason ≠ .shutdown)
    (h : Drained reason scope rt₀ joins out rt) : Following reason scope rt₀ joins out rt := by
  induction h with
  | start => exact start_following hb ho hs hr
  | env e _ ih => exact ih.env e
  | @wake joins p rt w _ ih =>
    obtain ⟨hcont, hscope⟩ := ih.continuation
    have hprog := hcont.2.1.progress
    have hstay : Following reason scope rt₀ (joins ++ []) (.await p) rt := by
      rw [List.append_nil]
      exact ih
    cases w with
    | joined task =>
      by_cases hpoll : p.polls = true
      · cases hc : joinable rt task with
        | some c =>
          have heq : drainWake p rt (.joined task) = drainJoined p task c rt := by
            simp [drainWake, hpoll, hc]
          rw [heq]
          exact ih.joined hpoll hc
        | none =>
          have heq : drainWake p rt (.joined task) = (.await p, rt) := by
            simp [drainWake, hc]
          have hnone : consumedJoin p rt (.joined task) = [] := by
            simp [consumedJoin, hc]
          rw [heq, hnone]
          exact hstay
      · rw [Bool.not_eq_true] at hpoll
        have heq : drainWake p rt (.joined task) = (.await p, rt) := by
          simp [drainWake, hpoll]
        have hnone : consumedJoin p rt (.joined task) = [] := by
          simp [consumedJoin, hpoll]
        rw [heq, hnone]
        exact hstay
    | timer =>
      show Following reason scope rt₀ (joins ++ []) (drainTimer p rt).1 (drainTimer p rt).2
      rw [List.append_nil]
      exact ih.winds (drainTimer_wends ih.within) (drainTimer_leads hprog.stopping) (drainTimer_good ih.books hprog)
    | resumed =>
      show Following reason scope rt₀ (joins ++ []) (drainResumed p rt).1 (drainResumed p rt).2
      rw [List.append_nil]
      exact ih.winds (drainResumed_wends ih.within) (drainResumed_leads hprog.stopping) (drainResumed_good ih.books hprog)
    | noJoin =>
      show Following reason scope rt₀ (joins ++ []) (drainNoJoin p rt).1 (drainNoJoin p rt).2
      rw [List.append_nil]
      exact ih.winds (drainNoJoin_wends ih.within) (drainNoJoin_leads hprog.stopping) (drainNoJoin_good ih.books hprog)
    | _ => exact hstay

end Accounts

end Kokage.Supervisor
