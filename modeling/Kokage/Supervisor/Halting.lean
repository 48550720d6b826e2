/-
  Kokage.Supervisor.Halting — what a drain does to the lane.

  Whatever a drain does between two joins only asks active children in its scope to stop
  (`Halts`); a join inside a drain records an exit, drops the child if it is being
  removed, and hands the exit back unless the drain itself caused it.
-/

import Kokage.Supervisor.Handlers

namespace Kokage.Supervisor

open Kokage.Lib

/-- Some active children in scope were asked to stop; nothing else changed. -/
def Lane.Halts (scope : DrainScope) (L L' : Lane) : Prop :=
  ∃ posts, L' = { L with posts := posts } ∧ ∀ k, posts k = L.posts k ∨
    ∃ p, scope.contains k = true ∧ L.posts k = some p ∧ p.state.isActive = true ∧ posts k = some p.halt

namespace Lane.Halts

variable {scope : DrainScope} {L L' L'' : Lane}

theorem refl : Halts scope L L := ⟨L.posts, rfl, fun _ => .inl rfl⟩

theorem of_eq (h : L' = L) : Halts scope L L' := h ▸ refl

theorem trans (h : Halts scope L L') (h' : Halts scope L' L'') : Halts scope L L'' := by
  obtain ⟨posts, rfl, hp⟩ := h
  obtain ⟨posts', rfl, hp'⟩ := h'
  refine ⟨posts', rfl, fun k => ?_⟩
  rcases hp' k with h2 | ⟨p, hk, h1, ha, h2⟩
  · rw [h2]
    exact hp k
  · rcases hp k with h3 | ⟨q, -, h3, hact, h4⟩
    · rw [show posts k = some p from h1] at h3
      exact .inr ⟨p, hk, h3.symm, ha, h2⟩
    · refine .inr ⟨q, hk, h3, hact, ?_⟩
      rw [h2]
      rw [show posts k = some p from h1] at h4
      cases h4
      rfl

theorem put {key : ChildKey} {p : Post} (hk : scope.contains key = true) (h : L.posts key = some p)
    (hact : p.state.isActive = true) : Halts scope L (L.put key p.halt) := by
  refine ⟨_, rfl, fun k => ?_⟩
  by_cases hk' : k = key
  · subst hk'
    exact .inr ⟨p, hk, h, hact, Function.update_self ..⟩
  · exact .inl (Function.update_of_ne hk' ..)

end Lane.Halts

namespace SupervisorRuntime

open Lane

variable {rt : SupervisorRuntime} {key : ChildKey} {e : ChildEntry} {scope : DrainScope}

/-! ## Between joins -/

theorem stop_halts {f : ChildRuntime → ChildRuntime} (hk : scope.contains key = true) (h : rt.children.get key = some e)
    (hact : e.runtime.state.isActive = true) (hf : ({ e with runtime := f e.runtime } : ChildEntry).post = e.post.halt) :
    Halts scope rt.lane (rt.editRuntime key f).lane := by
  unfold editRuntime
  rw [lane_edit h, hf]
  exact Halts.put hk (lane_get h) hact

theorem orderedWalk_halts {d : OrderedDrain} : ∀ (keys : List ChildKey) {rt : SupervisorRuntime},
    (∀ k ∈ keys, scope.contains k = true) → Halts scope rt.lane (orderedWalk d keys rt).2.lane
  | [], _, _ => Halts.refl
  | key :: rest, rt, hk => by
    have hrest : ∀ k ∈ rest, scope.contains k = true := fun k hk' => hk k (List.mem_cons_of_mem _ hk')
    have hkey : scope.contains key = true := hk key (List.mem_cons_self ..)
    unfold orderedWalk
    cases h : rt.children.get key with
    | none => exact orderedWalk_halts rest hrest
    | some e =>
      simp only
      split
      · exact orderedWalk_halts rest hrest
      · rename_i hc
        simp only [Bool.or_eq_true, decide_eq_true_eq, Bool.not_eq_true', not_or, Bool.not_eq_false] at hc
        have h1 : Halts scope rt.lane (rt.editRuntime key fun r => { r with state := .stopping }).lane :=
          stop_halts hkey h hc.2 rfl
        split
        · exact h1.trans (Halts.of_eq (lane_abortChild key))
        · exact h1.trans (Halts.of_eq (lane_cancelChild key))

theorem orderedExpired_halts {d : OrderedDrain} {w : OrderedWait} (hd : ∀ k ∈ d.rest, scope.contains k = true) :
    Halts scope rt.lane (orderedExpired d w rt).2.lane := by
  cases w with
  | grace key deadline grace => exact Halts.of_eq (lane_escalateChild key)
  | tidy key deadline => exact Halts.of_eq (lane_abortChild key)
  | yielded key => exact Halts.refl
  | window key deadline => exact orderedWalk_halts (d := { d with remaining := d.remaining ++ [key] }) d.rest hd
  | stragglers deadline => exact Halts.refl

theorem orderedStopped_halts {d : OrderedDrain} {w : OrderedWait} (hd : ∀ k ∈ d.rest, scope.contains k = true) :
    Halts scope rt.lane (orderedStopped d w rt).2.lane := by
  cases w with
  | grace key deadline grace => exact orderedWalk_halts d.rest hd
  | tidy key deadline => exact Halts.refl
  | yielded key => exact Halts.refl
  | window key deadline => exact orderedWalk_halts d.rest hd
  | stragglers deadline => exact Halts.refl

theorem orderedRecheck_halts {d : OrderedDrain} {w : OrderedWait} (hd : ∀ k ∈ d.rest, scope.contains k = true) :
    Halts scope rt.lane (orderedRecheck d w rt).2.lane := by
  have hone : ∀ key : ChildKey, Halts scope rt.lane
      (if rt.isChildActive key then (.await (.ordered d w), rt) else orderedStopped d w rt : DrainOut × _).2.lane := by
    intro key
    split
    · exact Halts.refl
    · exact orderedStopped_halts hd
  cases w with
  | grace key deadline grace => exact hone key
  | tidy key deadline => exact hone key
  | window key deadline => exact hone key
  | yielded key => exact Halts.refl
  | stragglers deadline => exact Halts.refl

theorem orderedYielded_halts {d : OrderedDrain} (hd : ∀ k ∈ d.rest, scope.contains k = true) (key : ChildKey) :
    Halts scope rt.lane (orderedYielded d key rt).2.lane := by
  unfold orderedYielded
  split
  · exact Halts.refl
  · exact orderedWalk_halts d.rest hd

theorem concurrentLeave_lane (d : ConcurrentDrain) : (rt.concurrentLeave d).2.lane = rt.lane := by
  unfold concurrentLeave
  split
  · exact lane_abortMatching _
  · rfl

theorem concurrentLoop_lane (d : ConcurrentDrain) : (rt.concurrentLoop d).2.lane = rt.lane := by
  unfold concurrentLoop
  split
  · exact concurrentLeave_lane d
  · simp only
    split
    · exact concurrentLeave_lane _
    · rfl

theorem concurrentTimer_lane (d : ConcurrentDrain) : (concurrentTimer d rt).2.lane = rt.lane := by
  have hfold : ∀ (expired : List (ChildKey × Duration)) (x : ConcurrentDrain × SupervisorRuntime),
      (expired.foldl (fun x p => expireGrace x p.1 p.2) x).2.lane = x.2.lane := by
    intro expired
    induction expired with
    | nil => intro x; rfl
    | cons p rest ih => intro x; exact (ih _).trans (lane_escalateChild _)
  unfold concurrentTimer
  simp only
  rw [concurrentLoop_lane, lane_foldl (fun rt k => lane_abortChild k)]
  exact hfold _ (d, rt)

theorem cancelRunningChildren_halts (scope : DrainScope) :
    Halts scope rt.lane (rt.cancelRunningChildren scope).lane := by
  have hfold : ∀ (keys : List ChildKey) (rt : SupervisorRuntime), Halts scope rt.lane
      (keys.foldl (fun rt key =>
        if scope.contains key && (rt.children.get key).any (fun e =>
            e.runtime.state = .running || e.runtime.state = .starting) then
          rt.editRuntime key (stopForDrain scope)
        else rt) rt).lane := by
    intro keys
    induction keys with
    | nil => intro rt; exact Halts.refl
    | cons key rest ih =>
      intro rt
      rw [List.foldl_cons]
      refine Halts.trans ?_ (ih _)
      split
      · rename_i hc
        rw [Bool.and_eq_true] at hc
        cases h : rt.children.get key with
        | none => simp [h] at hc
        | some e =>
          simp only [h, Option.any_some, Bool.or_eq_true, decide_eq_true_eq] at hc
          refine stop_halts (f := stopForDrain scope) hc.1 h ?_ rfl
          rcases hc.2 with hs | hs <;> rw [hs] <;> rfl
      · exact Halts.refl
  unfold cancelRunningChildren
  simp only
  cases scope with
  | all => exact (hfold _ rt).trans (Halts.of_eq lane_cancelGroupToken)
  | subset keys => exact hfold _ rt

theorem startDrain_halts (reason : DrainReason) (scope : DrainScope) :
    Halts scope rt.lane (rt.startDrain reason scope).2.lane := by
  unfold startDrain
  split
  · refine Halts.trans (Halts.of_eq (lane_closeCommandsFor reason)) ?_
    refine orderedWalk_halts (d := { reason := reason, scope := scope, rest := _, backstop := _ }) _ fun k hk => ?_
    exact (List.mem_filter.mp hk).2
  · refine Halts.trans ?_ (Halts.of_eq (lane_abortMatching _))
    exact (cancelRunningChildren_halts scope).trans (Halts.of_eq (lane_closeCommandsFor reason))

section Phase

variable {p : DrainPhase} (hw : p.Stopping (Stops scope))

include hw

theorem drainTimer_halts : Halts scope rt.lane (drainTimer p rt).2.lane := by
  cases p with
  | ordered d w =>
    unfold drainTimer
    simp only
    split
    · exact orderedExpired_halts hw
    · exact Halts.refl
  | concurrent d w =>
    unfold drainTimer
    simp only
    split
    · exact Halts.of_eq (concurrentTimer_lane d)
    · exact Halts.refl

theorem drainResumed_halts : Halts scope rt.lane (drainResumed p rt).2.lane := by
  unfold drainResumed
  split
  · exact orderedYielded_halts hw _
  · exact Halts.refl
  · exact Halts.refl
  · exact Halts.refl

theorem drainNoJoin_halts : Halts scope rt.lane (drainNoJoin p rt).2.lane := by
  unfold drainNoJoin
  split
  · split
    · exact orderedStopped_halts hw
    · exact Halts.refl
  · split
    · exact Halts.of_eq (concurrentLeave_lane _)
    · exact Halts.refl
  · rename_i d w _
    unfold concurrentSwept
    cases w with
    | sweep =>
      simp only
      split
      · exact Halts.refl
      · exact Halts.of_eq (concurrentLoop_lane d)
    | lastSweep => exact Halts.refl
    | yield => exact Halts.refl
    | select => exact Halts.refl
    | lastYield => exact Halts.refl

theorem rejoined_halts (rt : SupervisorRuntime) : Halts scope rt.lane (rejoined p rt).2.lane := by
  cases p with
  | ordered d w => exact orderedRecheck_halts hw
  | concurrent d w =>
    unfold rejoined
    simp only
    split
    · exact Halts.of_eq (concurrentLoop_lane d)
    · exact Halts.refl

end Phase

/-! ## Joins -/

/-- What a join inside a drain does: nothing, the exit of a child that leaves with it, or
    an exit that is handed back unless the drain caused it. -/
theorem handleJoinForScope_lane (task : TaskId) (c : Conclusion) (scope : DrainScope) (cursor : Option ChildKey)
    (hb : rt.ledger.Books) :
    let out := handleJoinForScope task c scope cursor rt
    out.2.lane = rt.lane ∧ (out.1 = .ok [] ∨ ∃ err, out.1 = .error err) ∨
      ∃ key p status, rt.lane.posts key = some p ∧ p.state.isActive = true ∧
        (p.membership = .removing ∧ out.1 = .ok [] ∧ out.2.lane = (rt.lane.exit key (RuntimeExitStatus.view status)).drop key ∨
          p.membership ≠ .removing ∧ out.2.lane = rt.lane.exit key status.view ∧
            (out.1 = .ok [] ∧ scope.contains key = true ∨ out.1 = .ok [⟨key, p.lineage, p.generation, status⟩])) := by
  have hc := @consumeJoinedChild_cases rt task c
  simp only
  unfold handleJoinForScope
  rw [Act.run_bind]
  generalize consumeJoinedChild task c rt = r at hc
  obtain ⟨r, rt1⟩ := r
  cases hc with
  | lost _ => exact .inl ⟨rfl, .inr ⟨_, rfl⟩⟩
  | stale _ _ => exact .inl ⟨rfl, .inl rfl⟩
  | @current t e status ht he hl hg =>
    let rt1 : SupervisorRuntime := { rt.unlinked task with liveTasks := rt.liveTasks - 1 }
    have he1 : rt1.children.get t.key = some e := he
    have hx : (rt1.recordExit t.key t.generation status).lane = rt.lane.exit t.key status.view :=
      lane_recordExit t.generation status he1
    have hact : e.post.state.isActive = true := by
      have := (hb.record_task task t t.key e.member ht (ledger_get he) hl).2.2
      have ha := hb.active_iff t.key e.member (ledger_get he)
      rw [this] at ha
      exact ha
    obtain ⟨-, -, hget, -⟩ := recordExit_spec t.generation status he1
    refine .inr ⟨t.key, e.post, status, lane_get he, hact, ?_⟩
    simp only [Act.run_modify_bind, Act.run_get_bind]
    rw [hget]
    have hm : (recordExitEntry rt1.now status e).membership = e.membership := rfl
    simp only [hm]
    split
    · rename_i hrem
      refine .inl ⟨hrem, rfl, ?_⟩
      exact (lane_finalizeRemovedChild ..).trans (by rw [hx])
    · rename_i hrem
      refine .inr ⟨hrem, ?_⟩
      split
      · refine ⟨hx, .inr ?_⟩
        rw [← hl, ← hg]
        rfl
      · rename_i hout
        refine ⟨hx, .inl ⟨rfl, ?_⟩⟩
        simp only [Bool.or_eq_true, not_or, Bool.not_eq_true', Bool.not_eq_false] at hout
        exact hout.1.1

end SupervisorRuntime

end Kokage.Supervisor
