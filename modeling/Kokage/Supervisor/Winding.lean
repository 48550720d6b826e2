/-
  Kokage.Supervisor.Winding — what a drain does between two joins.

  Whatever the synchronous code of a drain does, it does to the children of its scope:
  their tokens, flags and stop states change (`Wound`), abort is requested of their tasks,
  the group token and the command queue may be closed. Everything else stands (`Winds`).
  Nothing in a drain, joins included, moves the supervisor's own state (`SameState`).
-/

import Kokage.Supervisor.Drains

namespace Kokage.Supervisor

open Kokage.Lib SupervisorRuntime

/-! ## The relation -/

/-- A child after requests to stop. -/
structure Wound (r r' : ChildRuntime) : Prop where
  rest : r' = { r with
    state := r'.state, activeToken := r'.activeToken, activeAbortToken := r'.activeAbortToken,
    nestedAbortCascades := r'.nestedAbortCascades, completion := r'.completion, shutdownTimedOut := r'.shutdownTimedOut }
  state : r'.state = r.state ∨ r.state.isActive = true ∧ r'.state = .stopping

theorem Wound.refl (r : ChildRuntime) : Wound r r := ⟨rfl, .inl rfl⟩

theorem Wound.abortHandle {r r' : ChildRuntime} (h : Wound r r') : r'.abortHandle = r.abortHandle := by
  rw [h.rest]

theorem Wound.isActive {r r' : ChildRuntime} (h : Wound r r') : r'.state.isActive = r.state.isActive := by
  rcases h.state with hs | ⟨ha, hs⟩
  · rw [hs]
  · rw [hs, ha]
    rfl

theorem Wound.trans {r r' r'' : ChildRuntime} (h : Wound r r') (h' : Wound r' r'') : Wound r r'' where
  rest := by
    have hrest := h'.rest
    rw [h.rest] at hrest
    exact hrest
  state := by
    rcases h'.state with hs | ⟨ha, hs⟩
    · rw [hs]
      exact h.state
    · exact .inr ⟨h.isActive ▸ ha, hs⟩

namespace SupervisorRuntime

/-- What no drain touches between two joins. -/
def still (rt : SupervisorRuntime) : SupervisorRuntime :=
  { rt with children := .empty, joinSet := [], groupToken := false, commandsClosed := false }

def abortTasks (joinSet : List Task) (aborted : List TaskId) : List Task :=
  joinSet.map fun t => if t.id ∈ aborted then { t with abortRequested := true } else t

end SupervisorRuntime

structure Winds (scope : DrainScope) (rt rt' : SupervisorRuntime) : Prop where
  rest : rt'.still = rt.still
  entries : ∀ k e, rt.children.get k = some e → ∃ r, rt'.children.get k = some { e with runtime := r } ∧ Wound e.runtime r
  vacant : ∀ k, rt.children.get k = none → rt'.children.get k = none
  outside : ∀ k, scope.contains k = false → rt'.children.get k = rt.children.get k
  tasks : ∃ aborted, rt'.joinSet = abortTasks rt.joinSet aborted ∧
    ∀ task ∈ aborted, ∃ k e, scope.contains k = true ∧ rt.children.get k = some e ∧ e.runtime.abortHandle = some task

theorem abortTasks_nil (joinSet : List Task) : abortTasks joinSet [] = joinSet := by
  simp [abortTasks]

theorem abortTasks_append (joinSet : List Task) (as bs : List TaskId) :
    abortTasks (abortTasks joinSet as) bs = abortTasks joinSet (as ++ bs) := by
  unfold abortTasks
  rw [List.map_map]
  refine List.map_congr_left fun t _ => ?_
  simp only [Function.comp, List.mem_append]
  by_cases ha : t.id ∈ as
  · by_cases hb : t.id ∈ bs
    · simp [ha, hb]
    · simp [ha, hb]
  · by_cases hb : t.id ∈ bs
    · simp [ha, hb]
    · simp [ha, hb]

namespace Winds

variable {scope : DrainScope} {rt rt' rt'' : SupervisorRuntime}

theorem refl (rt : SupervisorRuntime) : Winds scope rt rt where
  rest := rfl
  entries _ e h := ⟨e.runtime, h, .refl _⟩
  vacant _ h := h
  outside _ _ := rfl
  tasks := ⟨[], (abortTasks_nil _).symm, nofun⟩

theorem trans (h : Winds scope rt rt') (h' : Winds scope rt' rt'') : Winds scope rt rt'' where
  rest := h'.rest.trans h.rest
  entries k e he := by
    obtain ⟨r, he', hr⟩ := h.entries k e he
    obtain ⟨r', he'', hr'⟩ := h'.entries k _ he'
    exact ⟨r', he'', hr.trans hr'⟩
  vacant k hk := h'.vacant k (h.vacant k hk)
  outside k hk := (h'.outside k hk).trans (h.outside k hk)
  tasks := by
    obtain ⟨as, hjoin, has⟩ := h.tasks
    obtain ⟨bs, hjoin', hbs⟩ := h'.tasks
    refine ⟨as ++ bs, by rw [hjoin', hjoin, abortTasks_append], fun task ht => ?_⟩
    rcases List.mem_append.mp ht with ht | ht
    · exact has task ht
    · obtain ⟨k, e', hk, he', ha⟩ := hbs task ht
      cases he : rt.children.get k with
      | none =>
        rw [h.vacant k he] at he'
        cases he'
      | some e =>
        obtain ⟨r, hr, hw⟩ := h.entries k e he
        rw [hr] at he'
        cases he'
        exact ⟨k, e, hk, he, hw.abortHandle ▸ ha⟩

/-- A list of edits, each of which winds. -/
theorem foldl {α : Type} {f : SupervisorRuntime → α → SupervisorRuntime} :
    ∀ (as : List α) {rt : SupervisorRuntime}, (∀ a ∈ as, ∀ rt, Winds scope rt (f rt a)) → Winds scope rt (as.foldl f rt)
  | [], rt, _ => .refl rt
  | a :: as, rt, hf => by
    refine Winds.trans (hf a (List.mem_cons_self ..) rt) ?_
    exact foldl as fun b hb => hf b (List.mem_cons_of_mem _ hb)

end Winds

namespace SupervisorRuntime

variable {rt : SupervisorRuntime} {key : ChildKey} {scope : DrainScope}

/-! ## One child -/

theorem winds_edit {f : ChildRuntime → ChildRuntime} (hk : scope.contains key = true)
    (hf : ∀ e, rt.children.get key = some e → Wound e.runtime (f e.runtime)) : Winds scope rt (rt.editRuntime key f) where
  rest := rfl
  entries k e he := by
    show ∃ r, (rt.children.modify key _).get k = _ ∧ _
    rw [Slab.get_modify]
    by_cases hkey : k = key
    · rw [if_pos hkey, he]
      exact ⟨f e.runtime, rfl, hf e (hkey ▸ he)⟩
    · rw [if_neg hkey]
      exact ⟨e.runtime, he, .refl _⟩
  vacant k he := by
    show (rt.children.modify key _).get k = none
    rw [Slab.get_modify, he]
    split <;> rfl
  outside k hout := by
    have hne : k ≠ key := by
      intro heq
      rw [heq, hk] at hout
      cases hout
    exact Slab.get_modify_ne _ _ hne
  tasks := ⟨[], (abortTasks_nil _).symm, nofun⟩

theorem winds_abortTask {task : TaskId} {e : ChildEntry} (hk : scope.contains key = true) (he : rt.children.get key = some e)
    (ha : e.runtime.abortHandle = some task) : Winds scope rt (rt.abortTask task) where
  rest := rfl
  entries _ e he := ⟨e.runtime, he, .refl _⟩
  vacant _ he := he
  outside _ _ := rfl
  tasks := by
    refine ⟨[task], ?_, fun t ht => ?_⟩
    · simp [abortTask, abortTasks]
    · rw [List.mem_singleton.mp ht]
      exact ⟨key, e, hk, he, ha⟩

theorem winds_cancelChild (hk : scope.contains key = true) : Winds scope rt (rt.cancelChild key) :=
  winds_edit hk fun _ _ => ⟨rfl, .inl rfl⟩

theorem winds_escalateChild (hk : scope.contains key = true) : Winds scope rt (rt.escalateChild key) :=
  winds_edit hk fun _ _ => ⟨rfl, .inl rfl⟩

/-- A child marked for a hard abort, and its task aborted. -/
theorem winds_markAbort {task : TaskId} {f : ChildRuntime → ChildRuntime} (hk : scope.contains key = true)
    (hf : ∀ e, rt.children.get key = some e → Wound e.runtime (f e.runtime))
    (ha : ∃ e, rt.children.get key = some e ∧ e.runtime.abortHandle = some task) :
    Winds scope rt ((rt.editRuntime key f).abortTask task) := by
  have h₁ : Winds scope rt (rt.editRuntime key f) := winds_edit hk hf
  obtain ⟨e, he, ha⟩ := ha
  obtain ⟨r, he₁, hr⟩ := h₁.entries key e he
  exact h₁.trans (winds_abortTask hk he₁ (hr.abortHandle.trans ha))

theorem winds_abortChild (hk : scope.contains key = true) : Winds scope rt (rt.abortChild key) := by
  unfold abortChild
  simp only
  split
  · rename_i task ha
    exact winds_markAbort hk (fun _ _ => ⟨rfl, .inl rfl⟩) (Option.bind_eq_some_iff.mp ha)
  · exact winds_edit hk fun _ _ => ⟨rfl, .inl rfl⟩

theorem winds_closeCommandsFor (reason : DrainReason) : Winds scope rt (rt.closeCommandsFor reason) := by
  unfold closeCommandsFor
  split
  · exact ⟨rfl, fun _ e he => ⟨e.runtime, he, .refl _⟩, fun _ he => he, fun _ _ => rfl, [], (abortTasks_nil _).symm, nofun⟩
  · exact .refl rt

/-! ## Several children -/

theorem winds_foldl {β : Type} {f : SupervisorRuntime → β → SupervisorRuntime} {rt₀ : SupervisorRuntime} :
    ∀ (xs : List β) {rt : SupervisorRuntime}, (∀ rt, Winds scope rt₀ rt → ∀ x ∈ xs, Winds scope rt (f rt x)) →
      Winds scope rt₀ rt → Winds scope rt₀ (xs.foldl f rt) := by
  intro xs
  induction xs with
  | nil => exact fun _ h => h
  | cons x xs ih =>
    intro rt hf h
    exact ih (fun rt h y hy => hf rt h y (List.mem_cons_of_mem _ hy)) (h.trans (hf rt h x (List.mem_cons_self ..)))

theorem winds_abortMatching {p : ChildKey → ChildEntry → Bool} (hp : ∀ k e, p k e = true → scope.contains k = true) :
    Winds scope rt (rt.abortMatching p) := by
  -- the entries listed at the start are wound as the list is walked
  refine winds_foldl _ (fun rt₁ h x hx => ?_) (.refl rt)
  obtain ⟨k, e⟩ := x
  have he : rt.children.get k = some e := Slab.mem_iter.mp hx
  simp only
  split
  · rename_i hc
    simp only [Bool.and_eq_true] at hc
    split
    · rename_i task ha
      obtain ⟨r, he₁, hr⟩ := h.entries k e he
      exact winds_markAbort (hp k e hc.2) (fun _ _ => ⟨rfl, .inl rfl⟩) ⟨_, he₁, hr.abortHandle.trans ha⟩
    · exact .refl _
  · exact .refl _

theorem winds_cancelGroupToken (hk : ∀ k, scope.contains k = true) : Winds scope rt rt.cancelGroupToken where
  rest := rfl
  entries k e he := by
    refine ⟨{ e.runtime with activeToken := e.runtime.activeToken.map fun _ => true }, ?_, rfl, .inl rfl⟩
    show (rt.children.map _).get k = _
    rw [Slab.get_map, he]
    rfl
  vacant k he := by
    show (rt.children.map _).get k = none
    rw [Slab.get_map, he]
    rfl
  outside k hout := by
    rw [hk k] at hout
    cases hout
  tasks := ⟨[], (abortTasks_nil _).symm, nofun⟩

theorem winds_cancelRunningChildren (scope : DrainScope) : Winds scope rt (rt.cancelRunningChildren scope) := by
  have hfold : Winds scope rt (rt.childOrder.reverse.foldl (fun rt key =>
      if scope.contains key && (rt.children.get key).any (fun e =>
          e.runtime.state = .running || e.runtime.state = .starting) then
        rt.editRuntime key (stopForDrain scope)
      else rt) rt) := by
    refine Winds.foldl _ fun key _ rt => ?_
    split
    · rename_i hc
      rw [Bool.and_eq_true] at hc
      refine winds_edit hc.1 fun e he => ⟨rfl, .inr ⟨?_, rfl⟩⟩
      simp only [he, Option.any_some, Bool.or_eq_true, decide_eq_true_eq] at hc
      rcases hc.2 with hs | hs <;> rw [hs] <;> rfl
    · exact .refl rt
  unfold cancelRunningChildren
  simp only
  cases scope with
  | all => exact hfold.trans (winds_cancelGroupToken fun _ => rfl)
  | subset keys => exact hfold

end SupervisorRuntime

/-! ## Drains -/

/-- What a drain was asked for, and by which kind of scope. -/
abbrev DrainTag := DrainReason × DrainScope × ScopeKind

def DrainPhase.tag : DrainPhase → DrainTag
  | .ordered d _ => (d.reason, d.scope, .ordered)
  | .concurrent d _ => (d.reason, d.scope, .dynamic)

/-- The drain works on children of `scope` only. -/
def DrainPhase.Within (tag : DrainTag) (scope : DrainScope) : DrainPhase → Prop
  | .ordered d w => (d.reason, d.scope, ScopeKind.ordered) = tag ∧ (∀ k ∈ d.rest, scope.contains k = true) ∧
    ∀ k, w.key = some k → scope.contains k = true
  | .concurrent d _ => (d.reason, d.scope, ScopeKind.dynamic) = tag ∧ (∀ k, d.scope.contains k = true → scope.contains k = true) ∧
    ∀ x ∈ d.deadlines, scope.contains x.key = true

def DrainOut.Within (tag : DrainTag) (scope : DrainScope) : DrainOut → Prop
  | .await p => p.Within tag scope
  | .done _ => True

theorem DrainPhase.within_all (p : DrainPhase) : p.Within p.tag .all := by
  cases p with
  | ordered d w => exact ⟨rfl, fun _ _ => rfl, fun _ _ => rfl⟩
  | concurrent d w => exact ⟨rfl, fun _ _ => rfl, fun _ _ => rfl⟩

/-- Where a step of a drain leads, and what it waits for next. -/
def Wends (tag : DrainTag) (scope : DrainScope) (rt : SupervisorRuntime) (out : DrainOut × SupervisorRuntime) : Prop :=
  Winds scope rt out.2 ∧ out.1.Within tag scope

namespace SupervisorRuntime

variable {rt : SupervisorRuntime} {tag : DrainTag} {scope : DrainScope} {p : DrainPhase}

theorem orderedResult_within (d : OrderedDrain) (stragglers : String) : (orderedResult d stragglers).Within tag scope := by
  unfold orderedResult
  split
  · trivial
  · split <;> trivial

theorem awaitStragglers_within {d : OrderedDrain} (htag : (d.reason, d.scope, ScopeKind.ordered) = tag) (hd : ∀ k ∈ d.rest, scope.contains k = true) (deadline : Instant) :
    (rt.awaitStragglers d deadline).Within tag scope := by
  unfold awaitStragglers
  split
  · exact ⟨htag, hd, nofun⟩
  · exact orderedResult_within _ _

theorem orderedEnd_within {d : OrderedDrain} (htag : (d.reason, d.scope, ScopeKind.ordered) = tag) (hd : ∀ k ∈ d.rest, scope.contains k = true) : (rt.orderedEnd d).Within tag scope := by
  unfold orderedEnd
  split
  · split
    · exact awaitStragglers_within htag hd _
    · exact orderedResult_within _ _
  · exact orderedResult_within _ _

theorem orderedWalk_wends {d : OrderedDrain} (htag : (d.reason, d.scope, ScopeKind.ordered) = tag) : ∀ (keys : List ChildKey) {rt : SupervisorRuntime},
    (∀ k ∈ keys, scope.contains k = true) → Wends tag scope rt (orderedWalk d keys rt)
  | [], rt, _ => ⟨.refl rt, orderedEnd_within htag nofun⟩
  | key :: rest, rt, hk => by
    have hrest : ∀ k ∈ rest, scope.contains k = true := fun k hk' => hk k (List.mem_cons_of_mem _ hk')
    have hkey : scope.contains key = true := hk key (List.mem_cons_self ..)
    have hwithin : ∀ w : OrderedWait, w.key = some key → (DrainPhase.ordered { d with rest := rest } w).Within tag scope := by
      intro w hw
      refine ⟨htag, hrest, fun k hk => ?_⟩
      rw [hw] at hk
      cases hk
      exact hkey
    unfold orderedWalk
    cases h : rt.children.get key with
    | none => exact orderedWalk_wends htag rest hrest
    | some e =>
      simp only
      split
      · exact orderedWalk_wends htag rest hrest
      · rename_i hc
        simp only [Bool.or_eq_true, decide_eq_true_eq, Bool.not_eq_true', not_or, Bool.not_eq_false] at hc
        have h₁ : Winds scope rt (rt.editRuntime key fun r => { r with state := .stopping }) := by
          refine winds_edit hkey fun e' he' => ⟨rfl, .inr ⟨?_, rfl⟩⟩
          rw [h] at he'
          cases he'
          exact hc.2
        split
        · exact ⟨h₁.trans (winds_abortChild hkey), hwithin _ rfl⟩
        · exact ⟨h₁.trans (winds_cancelChild hkey), hwithin _ rfl⟩

theorem orderedExpired_wends {d : OrderedDrain} {w : OrderedWait} (hp : (DrainPhase.ordered d w).Within tag scope) :
    Wends tag scope rt (orderedExpired d w rt) := by
  obtain ⟨htag, hd, hw⟩ := hp
  cases w with
  | grace key deadline grace =>
    refine ⟨winds_escalateChild (hw key rfl), ?_, ?_, hw⟩
    · split
      · exact htag
      · exact htag
    · split
      · exact hd
      · exact hd
  | tidy key deadline => exact ⟨winds_abortChild (hw key rfl), htag, hd, hw⟩
  | yielded key => exact ⟨.refl rt, htag, hd, hw⟩
  | window key deadline => exact orderedWalk_wends (d := { d with remaining := d.remaining ++ [key] }) htag d.rest hd
  | stragglers deadline => exact ⟨.refl rt, orderedResult_within _ _⟩

theorem orderedStopped_wends {d : OrderedDrain} {w : OrderedWait} (hp : (DrainPhase.ordered d w).Within tag scope) :
    Wends tag scope rt (orderedStopped d w rt) := by
  obtain ⟨htag, hd, hw⟩ := hp
  cases w with
  | grace key deadline grace => exact orderedWalk_wends htag d.rest hd
  | tidy key deadline => exact ⟨.refl rt, htag, hd, hw⟩
  | yielded key => exact ⟨.refl rt, htag, hd, hw⟩
  | window key deadline => exact orderedWalk_wends htag d.rest hd
  | stragglers deadline => exact ⟨.refl rt, orderedResult_within _ _⟩

theorem orderedRecheck_wends {d : OrderedDrain} {w : OrderedWait} (hp : (DrainPhase.ordered d w).Within tag scope) :
    Wends tag scope rt (orderedRecheck d w rt) := by
  unfold orderedRecheck
  split
  · split
    · exact ⟨.refl rt, hp⟩
    · exact orderedStopped_wends hp
  · split
    · exact ⟨.refl rt, hp⟩
    · exact orderedStopped_wends hp
  · split
    · exact ⟨.refl rt, hp⟩
    · exact orderedStopped_wends hp
  · exact ⟨.refl rt, awaitStragglers_within hp.1 hp.2.1 _⟩
  · exact ⟨.refl rt, hp⟩

theorem orderedYielded_wends {d : OrderedDrain} {key : ChildKey} (hp : (DrainPhase.ordered d (.yielded key)).Within tag scope) :
    Wends tag scope rt (orderedYielded d key rt) := by
  unfold orderedYielded
  split
  · exact ⟨.refl rt, hp⟩
  · exact orderedWalk_wends hp.1 d.rest hp.2.1

theorem concurrentEnd_within (d : ConcurrentDrain) : (rt.concurrentEnd d).Within tag scope := by
  unfold concurrentEnd
  simp only
  split
  · trivial
  · split <;> trivial

theorem concurrentLeave_wends {d : ConcurrentDrain} {w : ConcurrentWait} (hp : (DrainPhase.concurrent d w).Within tag scope) :
    Wends tag scope rt (rt.concurrentLeave d) := by
  unfold concurrentLeave
  split
  · exact ⟨winds_abortMatching fun k _ hk => hp.2.1 k hk, hp⟩
  · exact ⟨.refl rt, concurrentEnd_within d⟩

theorem concurrentLoop_wends {d : ConcurrentDrain} {w : ConcurrentWait} (hp : (DrainPhase.concurrent d w).Within tag scope) :
    Wends tag scope rt (rt.concurrentLoop d) := by
  have hp' : ∀ w, (DrainPhase.concurrent { d with deadlines := d.deadlines.filter fun x => rt.isChildActive x.key } w).Within
      tag scope := fun _ => ⟨hp.1, hp.2.1, fun x hx => hp.2.2 x (List.mem_filter.mp hx).1⟩
  unfold concurrentLoop
  split
  · exact concurrentLeave_wends hp
  · simp only
    split
    · exact concurrentLeave_wends (hp' .select)
    · exact ⟨.refl rt, hp' .select⟩

theorem concurrentSwept_wends {d : ConcurrentDrain} {w : ConcurrentWait} (hp : (DrainPhase.concurrent d w).Within tag scope) :
    Wends tag scope rt (concurrentSwept d w rt) := by
  unfold concurrentSwept
  split
  · split
    · exact ⟨.refl rt, trivial⟩
    · exact concurrentLoop_wends hp
  · exact ⟨.refl rt, concurrentEnd_within d⟩
  · exact ⟨.refl rt, hp⟩
  · exact ⟨.refl rt, hp⟩
  · exact ⟨.refl rt, hp⟩

theorem expireGrace_wends {d : ConcurrentDrain} {w : ConcurrentWait} {key : ChildKey} (grace : Duration)
    (hp : (DrainPhase.concurrent d w).Within tag scope) (hk : scope.contains key = true) :
    Winds scope rt (expireGrace (d, rt) key grace).2 ∧
      (DrainPhase.concurrent (expireGrace (d, rt) key grace).1 w).Within tag scope := by
  have hd : (expireGrace (d, rt) key grace).1.reason = d.reason ∧
      (expireGrace (d, rt) key grace).1.scope = d.scope ∧ (expireGrace (d, rt) key grace).1.deadlines =
      d.deadlines.map fun x => if x.key = key then
        { x with phase := .hardAbort, at_ := rt.now + tidyAbortBeat grace } else x := by
    unfold expireGrace
    simp only
    split <;> exact ⟨rfl, rfl, rfl⟩
  refine ⟨winds_escalateChild hk, ?_, ?_, ?_⟩
  · rw [hd.1, hd.2.1]
    exact hp.1
  · rw [hd.2.1]
    exact hp.2.1
  · rw [hd.2.2]
    intro x hx
    obtain ⟨y, hy, rfl⟩ := List.mem_map.mp hx
    split
    · exact hp.2.2 y hy
    · exact hp.2.2 y hy

theorem expireGraces_wends {w : ConcurrentWait} : ∀ (expired : List (ChildKey × Duration)) {d : ConcurrentDrain}
    {rt : SupervisorRuntime}, (DrainPhase.concurrent d w).Within tag scope → (∀ x ∈ expired, scope.contains x.1 = true) →
    let y := expired.foldl (fun x p => expireGrace x p.1 p.2) (d, rt)
    Winds scope rt y.2 ∧ (DrainPhase.concurrent y.1 w).Within tag scope
  | [], d, rt, hp, _ => ⟨.refl rt, hp⟩
  | x :: rest, d, rt, hp, hx => by
    obtain ⟨h₁, hp₁⟩ := @expireGrace_wends rt tag scope d w x.1 x.2 hp (hx x (List.mem_cons_self ..))
    obtain ⟨h₂, hp₂⟩ := @expireGraces_wends w rest _ (expireGrace (d, rt) x.1 x.2).2 hp₁
      fun y hy => hx y (List.mem_cons_of_mem _ hy)
    exact ⟨h₁.trans h₂, hp₂⟩

theorem concurrentTimer_wends {d : ConcurrentDrain} {w : ConcurrentWait} (hp : (DrainPhase.concurrent d w).Within tag scope) :
    Wends tag scope rt (concurrentTimer d rt) := by
  have hexp : ∀ x ∈ expiredGraces d rt.now, scope.contains x.1 = true := by
    intro x hx
    unfold expiredGraces at hx
    obtain ⟨y, hy, hyx⟩ := List.mem_filterMap.mp hx
    split at hyx
    · split at hyx
      · cases hyx
        exact hp.2.2 y hy
      · cases hyx
    · cases hyx
  obtain ⟨h₁, hp₁⟩ := @expireGraces_wends tag scope w (expiredGraces d rt.now) d rt hp hexp
  -- the hard aborts of the deadlines that have come, then the loop head
  have hdue : ∀ (d₁ : ConcurrentDrain) (rt₁ : SupervisorRuntime), (DrainPhase.concurrent d₁ w).Within tag scope →
      let due := d₁.deadlines.filter fun x => x.phase = .hardAbort && decide (x.at_ ≤ rt₁.now)
      let rt₂ := (due.map (·.key)).foldl abortChild rt₁
      Wends tag scope rt₁ (rt₂.concurrentLoop
        { d₁ with deadlines := d₁.deadlines.filter fun x => x.phase ≠ .hardAbort || decide (rt₂.now < x.at_) }) := by
    intro d₁ rt₁ hp₁ due rt₂
    have h₂ : Winds scope rt₁ rt₂ := by
      refine Winds.foldl _ fun k hk rt => winds_abortChild ?_
      obtain ⟨x, hx, rfl⟩ := List.mem_map.mp hk
      exact hp₁.2.2 x (List.mem_filter.mp hx).1
    have hp₂ : (DrainPhase.concurrent
        { d₁ with deadlines := d₁.deadlines.filter fun x => x.phase ≠ .hardAbort || decide (rt₂.now < x.at_) } w).Within
        tag scope := ⟨hp₁.1, hp₁.2.1, fun x hx => hp₁.2.2 x (List.mem_filter.mp hx).1⟩
    have h₃ := @concurrentLoop_wends rt₂ _ _ _ _ hp₂
    exact ⟨h₂.trans h₃.1, h₃.2⟩
  have h₃ := hdue _ ((expiredGraces d rt.now).foldl (fun x p => expireGrace x p.1 p.2) (d, rt)).2 hp₁
  exact ⟨h₁.trans h₃.1, h₃.2⟩

theorem startDrain_wends (reason : DrainReason) (scope : DrainScope) :
    Wends (reason, scope, rt.cfg.kind) scope rt (rt.startDrain reason scope) := by
  unfold startDrain
  split
  · rename_i hkind
    rw [hkind]
    unfold startOrderedDrain
    simp only
    have hkeys : ∀ k ∈ (rt.closeCommandsFor reason).childOrder.reverse.filter scope.contains, scope.contains k = true :=
      fun k hk => (List.mem_filter.mp hk).2
    exact ⟨(winds_closeCommandsFor reason).trans (orderedWalk_wends rfl _ hkeys).1, (orderedWalk_wends rfl _ hkeys).2⟩
  · rename_i hkind
    rw [hkind]
    unfold startConcurrentDrain
    simp only
    have h₁ : Winds scope rt ((rt.cancelRunningChildren scope).closeCommandsFor reason) :=
      (winds_cancelRunningChildren scope).trans (winds_closeCommandsFor reason)
    have h₂ : Winds scope ((rt.cancelRunningChildren scope).closeCommandsFor reason)
        (((rt.cancelRunningChildren scope).closeCommandsFor reason).abortMatching fun key e =>
          scope.contains key && e.runtime.definition.shutdownPolicy.isAbort) := by
      refine winds_abortMatching fun k _ hk => ?_
      rw [Bool.and_eq_true] at hk
      exact hk.1
    refine ⟨h₁.trans h₂, rfl, fun _ hk => hk, fun x hx => ?_⟩
    · obtain ⟨⟨k, e⟩, -, hy⟩ := List.mem_filterMap.mp hx
      simp only at hy
      split at hy
      · rename_i hc
        obtain ⟨grace, -, rfl⟩ := Option.map_eq_some_iff.mp hy
        simp only [Bool.and_eq_true] at hc
        exact hc.1
      · cases hy

theorem drainTimer_wends (hp : p.Within tag scope) : Wends tag scope rt (drainTimer p rt) := by
  cases p with
  | ordered d w =>
    unfold drainTimer
    simp only
    split
    · exact orderedExpired_wends hp
    · exact ⟨.refl rt, hp⟩
  | concurrent d w =>
    unfold drainTimer
    simp only
    split
    · exact concurrentTimer_wends hp
    · exact ⟨.refl rt, hp⟩

theorem drainResumed_wends (hp : p.Within tag scope) : Wends tag scope rt (drainResumed p rt) := by
  unfold drainResumed
  split
  · exact orderedYielded_wends hp
  · exact ⟨.refl rt, hp⟩
  · exact ⟨.refl rt, hp⟩
  · exact ⟨.refl rt, hp⟩

theorem drainNoJoin_wends (hp : p.Within tag scope) : Wends tag scope rt (drainNoJoin p rt) := by
  unfold drainNoJoin
  split
  · split
    · exact orderedStopped_wends hp
    · exact ⟨.refl rt, hp⟩
  · split
    · exact concurrentLeave_wends hp
    · exact ⟨.refl rt, hp⟩
  · exact concurrentSwept_wends hp

theorem rejoined_wends (rt : SupervisorRuntime) (hp : p.Within tag scope) : Wends tag scope rt (rejoined p rt) := by
  cases p with
  | ordered d w => exact orderedRecheck_wends hp
  | concurrent d w =>
    unfold rejoined
    simp only
    split
    · exact concurrentLoop_wends hp
    · exact ⟨.refl rt, hp⟩

theorem deferring_within (exits : List ClassifiedExit) (hp : p.Within tag scope) : (deferring p exits).Within tag scope := by
  cases p with
  | ordered d w => exact hp
  | concurrent d w => exact hp

end SupervisorRuntime

/-! ## The state of the supervisor -/

theorem Winds.state {scope : DrainScope} {rt rt' : SupervisorRuntime} (h : Winds scope rt rt') : rt'.state = rt.state := by
  show rt'.still.state = rt.still.state
  rw [h.rest]

namespace SupervisorRuntime

variable {rt : SupervisorRuntime}

theorem sendLifecycleDraft_state (d : LifecycleEventDraft) : (rt.sendLifecycleDraft d).state = rt.state := by
  unfold sendLifecycleDraft
  simp only
  split <;> rfl

theorem recordExit_state (key : ChildKey) (generation : Nat) (status : RuntimeExitStatus) :
    (rt.recordExit key generation status).state = rt.state := by
  unfold recordExit sendChildEvent publishSnapshot sendLifecycle
  simp only
  split
  · exact sendLifecycleDraft_state _
  · rfl

theorem finalizeRemovedChild_state (key : ChildKey) (checkElapsedGrace : Bool) :
    (rt.finalizeRemovedChild key checkElapsedGrace).state = rt.state := by
  have hleft : ∀ e : ChildEntry, (((rt.dropEntry key e).clearCell e).retireNested e).state = rt.state := by
    intro e
    unfold retireNested clearCell
    split <;> split <;> rfl
  cases he : rt.children.get key with
  | none => simp only [finalizeRemovedChild, he]
  | some e =>
    unfold finalizeRemovedChild
    simp only [he]
    cases rt.lifecycleDraft key .removed with
    | none =>
      cases e.pendingRemoval with
      | none => exact hleft e
      | some pending => exact hleft e
    | some d =>
      cases e.pendingRemoval with
      | none => exact (sendLifecycleDraft_state d).trans (hleft e)
      | some pending => exact (sendLifecycleDraft_state d).trans (hleft e)

/-- The supervisor's state is as before. -/
def SameState (rt rt' : SupervisorRuntime) : Prop := rt'.state = rt.state

instance : Std.Refl SameState := ⟨fun _ => rfl⟩

instance : IsTrans SupervisorRuntime SameState := ⟨fun _ _ _ h h' => Eq.trans h' h⟩

theorem consumeJoinedChild_sameState (task : TaskId) (c : Conclusion) :
    Act.Runs SameState (consumeJoinedChild task c) rt fun _ _ => True := by
  unfold consumeJoinedChild
  refine Act.runs_bind (Q := fun _ _ => True) ?_ fun classified rt' _ _ => ?_
  · unfold classifyJoin
    refine Act.runs_modify_bind rfl (Act.runs_get ?_)
    split
    · exact Act.runs_fail
    · exact Act.runs_modify_bind rfl (Act.runs_get (Act.runs_pure trivial))
  · refine Act.runs_get ?_
    split
    · exact Act.runs_modify_bind rfl (Act.runs_pure trivial)
    · exact Act.runs_pure trivial

theorem handleJoinForScope_sameState (task : TaskId) (c : Conclusion) (scope : DrainScope) (cursor : Option ChildKey) :
    Act.Runs SameState (handleJoinForScope task c scope cursor) rt fun _ _ => True := by
  unfold handleJoinForScope
  refine Act.runs_bind (consumeJoinedChild_sameState task c) fun classified rt' _ _ => ?_
  split
  · exact Act.runs_pure trivial
  · refine Act.runs_modify_bind (recordExit_state _ _ _) (Act.runs_get ?_)
    split
    · exact Act.runs_pure trivial
    · split
      · exact Act.runs_modify_bind (finalizeRemovedChild_state _ _) (Act.runs_pure trivial)
      · simp only
        split
        · exact Act.runs_pure trivial
        · exact Act.runs_pure trivial

end SupervisorRuntime

end Kokage.Supervisor
