/-
  Kokage.Supervisor.Budgets — the restart budget of a membership over a whole run.

  A policy is applied to an exit in two places: at a join in the main loop, and to the exits
  that a restart drain handed back once its group is respawned. `applications` computes
  them along a run, each with the runtime it finds. An application is eligible when the
  policy asks for a restart, so that `schedule_restart` is called. What a membership's
  tracker holds is then a function of the eligible applications to its own exits
  (`Budgeted`): group respawns, exits consumed by a drain and other children's exits
  leave it as it is. `schedule_restart` fails exactly when too many of them lie within
  the window (`restart_budget`).
-/

import Kokage.Lib.Window
import Kokage.Supervisor.Writes

namespace Kokage.Supervisor

open Kokage.Lib Ledger SupervisorRuntime

/-! ## Applications -/

/-- An exit whose policy is applied, with the runtime it finds. -/
structure Application where
  exit : ClassifiedExit
  rt : SupervisorRuntime

/-- The policy asks for a restart. -/
def Application.eligible (x : Application) : Bool :=
  decide (x.rt.state = .running) && (x.rt.children.get x.exit.key).any fun e =>
    decide (e.membership ≠ .removing) && e.runtime.definition.restart.shouldRestart x.exit.status.isFailure

def joinApplications (task : TaskId) (c : Conclusion) (rt : SupervisorRuntime) : List Application :=
  match consumeJoinedChild task c rt with
  | (.ok (some exit), rt) => [⟨exit, rt.recordExit exit.key exit.generation exit.status⟩]
  | _ => []

def deferredApplications : List ClassifiedExit → SupervisorRuntime → List Application
  | [], _ => []
  | exit :: rest, rt =>
    if rt.currentChildMatches exit.key exit.lineage exit.generation then
      ⟨exit, rt⟩ :: match applyExitPolicy exit rt with
        | (.ok _, rt) => deferredApplications rest rt
        | (.error _, _) => []
    else deferredApplications rest rt

def restartApplications (keys : List ChildKey) (freshGroupToken : Bool) : DrainOut × SupervisorRuntime → List Application
  | (.done (.ok completed), rt) =>
    match respawnGroup keys freshGroupToken completed rt with
    | (.ok deferred, rt) => if freshGroupToken then [] else deferredApplications deferred rt
    | (.error _, _) => []
  | _ => []

section Restart

variable {rt rt₁ : SupervisorRuntime} {keys : List ChildKey} {freshGroupToken : Bool} {completed deferred : List ClassifiedExit}

theorem restartApplications_respawned (h : respawnGroup keys freshGroupToken completed rt = (.ok deferred, rt₁)) :
    restartApplications keys freshGroupToken (.done (.ok completed), rt) =
      if freshGroupToken then [] else deferredApplications deferred rt₁ := by
  unfold restartApplications
  simp only [h]

theorem resumeRestart_respawned (h : respawnGroup keys freshGroupToken completed rt = (.ok deferred, rt₁)) :
    resumeRestart keys freshGroupToken (.done (.ok completed), rt) =
      continueMain (if freshGroupToken then pure () else applyDeferred deferred) rt₁ := by
  have hrun : finishRestart keys freshGroupToken completed rt =
      (if freshGroupToken then pure () else applyDeferred deferred : RuntimeM Unit) rt₁ := by
    unfold finishRestart
    rw [Act.run_bind, h]
  show continueMain (finishRestart keys freshGroupToken completed) rt = _
  unfold continueMain
  rw [hrun]

theorem restartApplications_failed {reason : ExitReason}
    (h : respawnGroup keys freshGroupToken completed rt = (.error reason, rt₁)) :
    restartApplications keys freshGroupToken (.done (.ok completed), rt) = [] := by
  unfold restartApplications
  simp only [h]

theorem resumeRestart_failed {reason : ExitReason}
    (h : respawnGroup keys freshGroupToken completed rt = (.error reason, rt₁)) :
    resumeRestart keys freshGroupToken (.done (.ok completed), rt) = exitWith reason rt₁ := by
  have hrun : finishRestart keys freshGroupToken completed rt = (.error reason, rt₁) := by
    unfold finishRestart
    rw [Act.run_bind, h]
  show continueMain (finishRestart keys freshGroupToken completed) rt = _
  unfold continueMain
  rw [hrun]

end Restart

/-- The policies applied between an await and the next. -/
def applications (m : Machine) (w : Wake) : List Application :=
  match m.phase, w with
  | .main, .joined task =>
    match joinable m.rt task with
    | some c => joinApplications task c m.rt
    | none => []
  | .deadlineYield, .resumed =>
    match (drainDeadlineCommandBatch m.rt.commandRx >>= fun _ => handleDeadlines) m.rt with
    | (.ok (some keys), rt) =>
      if rt.cfg.strategy = .oneForAll then restartApplications keys true (rt.startDrain .groupRestart .all)
      else restartApplications keys false (rt.startDrain .restForOneRestart (.subset keys))
    | _ => []
  | .drain p (.restart keys freshGroupToken), w => restartApplications keys freshGroupToken (drainWake p m.rt w)
  | _, _ => []

def runApplications : Machine → List Input → List Application
  | _, [] => []
  | m, i :: is =>
    (match i with
      | .wake w => applications m w
      | .env _ => []) ++ runApplications (step m i) is

/-- When the restarts of a membership were asked for. -/
def restartTimes (history : List Application) (lineage : Nat) : List Instant :=
  (history.filter fun x => x.eligible && decide (x.exit.lineage = lineage)).map fun x => x.rt.now

/-! ## Budgets -/

/-- What a membership may spend, and what it has spent. -/
structure ChildBudget where
  policy : RestartPolicy
  maxRestarts : Nat
  within : Duration
  times : List Instant

def ChildEntry.budget (e : ChildEntry) : ChildBudget where
  policy := e.runtime.definition.restart
  maxRestarts := e.runtime.restartTracker.maxRestarts
  within := e.runtime.restartTracker.within
  times := e.runtime.restartTracker.times

/-- The budget that a history leaves. -/
def ChildBudget.after (policy : RestartPolicy) (times : List Instant) : ChildBudget where
  policy := policy
  maxRestarts := policy.maxRestarts.getD 0
  within := policy.within.getD (secs 30)
  times := times.foldl (slide (policy.within.getD (secs 30))) []

structure Budgeted (history : List Application) (rt : SupervisorRuntime) : Prop where
  sorted : (history.map fun x => x.rt.now).Pairwise (· ≤ ·)
  past : ∀ x ∈ history, x.rt.now ≤ rt.now
  known : ∀ x ∈ history, x.exit.lineage < rt.nextLineage
  entries : ∀ k e, rt.children.get k = some e →
    e.budget = .after e.runtime.definition.restart (restartTimes history e.lineage)

theorem Write.budget {t : WriteTag} {e e' : ChildEntry} (h : Write t e e') (ht : t ≠ .restart) : e'.budget = e.budget := by
  cases h with
  | request hw =>
    unfold ChildEntry.budget
    simp only
    rw [hw.rest]
  | record => exact absurd rfl ht
  | schedule => exact absurd rfl ht
  | _ => rfl

theorem Evolves.budget {e e' : ChildEntry} (h : Evolves (· ≠ .restart) e e') : e'.budget = e.budget := by
  refine h.keeps (I := fun x => x.budget = e.budget) (fun {t x x'} ht hw hx => ?_) rfl
  refine (hw.budget ?_).trans hx
  rcases ht with rfl | ht
  · exact nofun
  · exact ht

section Budgeted

variable {history : List Application} {rt rt' : SupervisorRuntime}

theorem restartTimes_fresh {lineage : Nat} (h : ∀ x ∈ history, x.exit.lineage < lineage) : restartTimes history lineage = [] := by
  have hnone : history.filter (fun x => x.eligible && decide (x.exit.lineage = lineage)) = [] := by
    refine List.filter_eq_nil_iff.mpr fun x hx => ?_
    have := h x hx
    simp only [Bool.and_eq_true, decide_eq_true_eq, not_and]
    intro _
    omega
  rw [restartTimes, hnone]
  rfl

theorem restartTimes_snoc (x : Application) (lineage : Nat) : restartTimes (history ++ [x]) lineage =
    restartTimes history lineage ++ if x.eligible && decide (x.exit.lineage = lineage) then [x.rt.now] else [] := by
  rw [restartTimes, List.filter_append, List.map_append, ← restartTimes]
  congr 1
  by_cases h : (x.eligible && decide (x.exit.lineage = lineage)) = true
  · simp [h]
  · simp [h]

/-- Code that schedules no restart spends nothing. -/
theorem Budgeted.works (h : Budgeted history rt) (hw : Works (· ≠ .restart) rt rt') : Budgeted history rt' where
  sorted := h.sorted
  past x hx := hw.now ▸ h.past x hx
  known x hx := Nat.lt_of_lt_of_le (h.known x hx) hw.lineage_le
  entries k e' he' := by
    rcases hw.entries k e' he' with ⟨e, he, hev⟩ | ⟨d, nested, lineage, seed, hlow, -, hev⟩
    · have hb := hev.budget
      have hp : e'.runtime.definition.restart = e.runtime.definition.restart := congrArg ChildBudget.policy hb
      rw [hb, hp, hev.lineage]
      exact h.entries k e he
    · have hb := hev.budget
      have hp : e'.runtime.definition.restart = d.restart := congrArg ChildBudget.policy hb
      have hl : e'.lineage = lineage := hev.lineage
      rw [hb, hp, hl, restartTimes_fresh fun x hx => Nat.lt_of_lt_of_le (h.known x hx) hlow]
      rfl

theorem Budgeted.writes (h : Budgeted history rt) (hw : Writes (· ≠ .restart) rt rt') : Budgeted history rt' := h.works hw.toWorks

theorem Budgeted.env (h : Budgeted history rt) (i : EnvStep) : Budgeted history (rt.env i) := by
  have hnow : rt.now ≤ (rt.env i).now := now_le_env i
  have h₁ : Budgeted history { rt with now := (rt.env i).now } :=
    { sorted := h.sorted, past := fun x hx => Nat.le_trans (h.past x hx) hnow, known := h.known, entries := h.entries }
  exact h₁.works (env_works i)

end Budgeted

/-! ## One policy -/

section Policy

variable {history : List Application} {rt rt' : SupervisorRuntime} {key : ChildKey} {e : ChildEntry} {exit : ClassifiedExit}

theorem backoff_budget (t : RestartTracker) :
    t.backoff.2.maxRestarts = t.maxRestarts ∧ t.backoff.2.within = t.within ∧ t.backoff.2.times = t.times := by
  unfold RestartTracker.backoff
  split
  · exact ⟨rfl, rfl, rfl⟩
  · exact ⟨rfl, rfl, rfl⟩
  · simp only
    split
    · exact ⟨rfl, rfl, rfl⟩
    · exact ⟨rfl, rfl, rfl⟩

/-- A restart is asked for: one stamp is spent, and the scope fails when that is one too
    many. -/
structure Spends (rt rt' : SupervisorRuntime) (key : ChildKey) (e : ChildEntry) : Prop where
  now : rt'.now = rt.now
  nextLineage : rt'.nextLineage = rt.nextLineage
  others : ∀ k, k ≠ key → rt'.children.get k = rt.children.get k
  entry : ∃ e', rt'.children.get key = some e' ∧ e'.lineage = e.lineage ∧
    e'.budget = { e.budget with times := slide e.budget.within e.budget.times rt.now }

theorem Spends.frame {rt₁ rt₂ : SupervisorRuntime} (h : Spends rt rt₁ key e) (hc : rt₂.children = rt₁.children)
    (hn : rt₂.now = rt₁.now) (hl : rt₂.nextLineage = rt₁.nextLineage) : Spends rt rt₂ key e where
  now := hn.trans h.now
  nextLineage := hl.trans h.nextLineage
  others k hk := hc ▸ h.others k hk
  entry := hc ▸ h.entry

theorem sendSupervisorEvent_clock (kind : SupervisorEventKind) :
    (rt.sendSupervisorEvent kind).now = rt.now ∧ (rt.sendSupervisorEvent kind).nextLineage = rt.nextLineage := by
  unfold sendSupervisorEvent
  simp only
  split <;> exact ⟨rfl, rfl⟩

theorem sendLifecycle_frame (key : ChildKey) (kind : ChildEventKind) : (rt.sendLifecycle key kind).children = rt.children ∧
    (rt.sendLifecycle key kind).now = rt.now ∧ (rt.sendLifecycle key kind).nextLineage = rt.nextLineage := by
  have hdraft : ∀ d, (rt.sendLifecycleDraft d).now = rt.now ∧ (rt.sendLifecycleDraft d).nextLineage = rt.nextLineage := by
    intro d
    unfold sendLifecycleDraft
    simp only
    split <;> exact ⟨rfl, rfl⟩
  unfold sendLifecycle
  split
  · exact ⟨sendLifecycleDraft_children _, hdraft _⟩
  · exact ⟨rfl, rfl, rfl⟩

theorem scheduleRestart_spends (he : rt.children.get key = some e) :
    ((scheduleRestart key rt).1 = .error (.failure .restartIntensityExceeded) ↔
      e.budget.maxRestarts < (slide e.budget.within e.budget.times rt.now).length) ∧
    Spends rt (scheduleRestart key rt).2 key e := by
  let tracker := e.runtime.restartTracker.recordRestart rt.now
  have hget := restartRecorded_get he
  have hspent : Spends rt (rt.restartRecorded key) key e :=
    { now := rfl
      nextLineage := rfl
      others := fun k hk => Slab.get_modify_ne _ _ hk
      entry := ⟨_, hget, rfl, rfl⟩ }
  have hexceeded : tracker.exceeded = true ↔ e.budget.maxRestarts < (slide e.budget.within e.budget.times rt.now).length :=
    decide_eq_true_iff
  rw [scheduleRestart_eq tracker he rfl, ← hexceeded]
  cases hx : tracker.exceeded with
  | true =>
    refine ⟨⟨fun _ => rfl, fun _ => rfl⟩, ?_⟩
    exact hspent.frame (sendSupervisorEvent_frame _).1 (sendSupervisorEvent_clock _).1 (sendSupervisorEvent_clock _).2
  | false =>
    obtain ⟨hmax, hwithin, htimes⟩ := backoff_budget tracker
    refine ⟨⟨nofun, nofun⟩, hspent.now, hspent.nextLineage, fun k hk => ?_, ?_⟩
    · exact (Slab.get_modify_ne _ _ hk).trans (hspent.others k hk)
    · refine ⟨{ e with runtime := { e.runtime with
        restartTracker := tracker.backoff.2, nextRestartDeadline := some (rt.now + tracker.backoff.1) } }, ?_, rfl, ?_⟩
      · show ((rt.restartRecorded key).children.modify key _).get key = _
        rw [Slab.get_modify_self, hget]
        rfl
      · unfold ChildEntry.budget
        simp only
        rw [hmax, hwithin, htimes]
        rfl

theorem applyExitPolicy_eligible (h : Application.eligible ⟨exit, rt⟩ = true) : ∃ e, rt.children.get exit.key = some e ∧
    applyExitPolicy exit rt = (scheduleRestart exit.key >>= fun delay =>
      Act.modify (·.sendLifecycle exit.key (.restartScheduled e.runtime.generation delay))) rt := by
  unfold Application.eligible at h
  simp only [Bool.and_eq_true, decide_eq_true_eq] at h
  obtain ⟨hrun, h⟩ := h
  cases he : rt.children.get exit.key with
  | none =>
    rw [he] at h
    cases h
  | some e =>
    rw [he, Option.any_some] at h
    simp only [Bool.and_eq_true, decide_eq_true_eq] at h
    obtain ⟨hm, hs⟩ := h
    refine ⟨e, rfl, ?_⟩
    unfold applyExitPolicy applyExitPolicyInner
    rw [Act.run_get_bind, if_neg (by rw [hrun]; exact fun h => h rfl), he]
    simp only
    rw [if_neg hm, hs]
    rfl

theorem applyExitPolicy_spends (h : Application.eligible ⟨exit, rt⟩ = true) (he : rt.children.get exit.key = some e) :
    Spends rt (applyExitPolicy exit rt).2 exit.key e := by
  obtain ⟨e₀, he₀, hrun⟩ := applyExitPolicy_eligible h
  rw [he] at he₀
  cases he₀
  obtain ⟨-, hspend⟩ := scheduleRestart_spends he
  rw [hrun, Act.run_bind]
  generalize scheduleRestart exit.key rt = q at hspend
  obtain ⟨r, rt₁⟩ := q
  cases r with
  | error _ => exact hspend
  | ok delay =>
    obtain ⟨hc, hn, hl⟩ := @sendLifecycle_frame rt₁ exit.key (.restartScheduled e.runtime.generation delay)
    exact hspend.frame hc hn hl

theorem applyExitPolicy_idle {A : WriteTag → Prop} (h : Application.eligible ⟨exit, rt⟩ = false) :
    Writes A rt (applyExitPolicy exit rt).2 := by
  suffices hruns : Act.Runs (Writes A) (applyExitPolicy exit) rt fun _ _ => True from hruns.1
  unfold applyExitPolicy applyExitPolicyInner
  refine Act.runs_get ?_
  split
  · exact Act.runs_pure trivial
  · rename_i hrun
    split
    · exact Act.runs_pure trivial
    · rename_i e he
      split
      · exact Act.runs_modify (writes_finalizeRemovedChild _ _) trivial
      · rename_i hm
        have hs : e.runtime.definition.restart.shouldRestart exit.status.isFailure = false := by
          unfold Application.eligible at h
          simpa [Decidable.not_not.mp hrun, he, hm] using h
        rw [hs]
        exact terminalExit_writes _ _

theorem Budgeted.sorted_snoc {x : Application} (h : Budgeted history x.rt) :
    ((history ++ [x]).map fun y => y.rt.now).Pairwise (· ≤ ·) := by
  rw [List.map_append]
  refine List.pairwise_append.mpr ⟨h.sorted, List.pairwise_singleton _ _, fun t ht u hu => ?_⟩
  obtain ⟨y, hy, rfl⟩ := List.mem_map.mp ht
  rw [List.mem_singleton.mp hu]
  exact h.past y hy

theorem Budgeted.snoc {x : Application} (h : Budgeted history x.rt) (hx : x.exit.lineage < x.rt.nextLineage) (hn : rt'.now = x.rt.now)
    (hl : x.rt.nextLineage ≤ rt'.nextLineage) (he : ∀ k e, rt'.children.get k = some e →
      e.budget = .after e.runtime.definition.restart (restartTimes (history ++ [x]) e.lineage)) :
    Budgeted (history ++ [x]) rt' where
  sorted := h.sorted_snoc
  past y hy := by
    rw [hn]
    rcases List.mem_append.mp hy with hy | hy
    · exact h.past y hy
    · rw [List.mem_singleton.mp hy]
  known y hy := by
    refine Nat.lt_of_lt_of_le ?_ hl
    rcases List.mem_append.mp hy with hy | hy
    · exact h.known y hy
    · rw [List.mem_singleton.mp hy]
      exact hx
  entries := he

/-- A policy spends a stamp of its own child when it asks for a restart, and nothing else. -/
theorem applyExitPolicy_budgeted (exit : ClassifiedExit) (hb : rt.ledger.Books) (h : Budgeted history rt)
    (hm : rt.currentChildMatches exit.key exit.lineage exit.generation = true) :
    Budgeted (history ++ [⟨exit, rt⟩]) (applyExitPolicy exit rt).2 := by
  obtain ⟨e, he, hl, -⟩ := currentChildMatches_iff (t := exit.record).mp hm
  have he : rt.children.get exit.key = some e := he
  have hl : e.lineage = exit.lineage := hl
  have hlt : exit.lineage < rt.nextLineage := hl ▸ hb.lineage_lt exit.key e.member (ledger_get he)
  cases hx : Application.eligible ⟨exit, rt⟩ with
  | false =>
    have hw : Writes (· ≠ .restart) rt (applyExitPolicy exit rt).2 := applyExitPolicy_idle hx
    refine Budgeted.snoc (x := ⟨exit, rt⟩) h hlt hw.now hw.lineage_le fun k e' he' => ?_
    rw [restartTimes_snoc, hx, Bool.false_and, if_neg nofun, List.append_nil]
    exact (h.writes hw).entries k e' he'
  | true =>
    have hspend := applyExitPolicy_spends hx he
    refine Budgeted.snoc (x := ⟨exit, rt⟩) h hlt hspend.now (Nat.le_of_eq hspend.nextLineage.symm) fun k e' he' => ?_
    by_cases hk : k = exit.key
    · obtain ⟨e₁, he₁, hl₁, hb₁⟩ := hspend.entry
      subst hk
      rw [he₁] at he'
      have heq := Option.some.inj he'
      subst heq
      have hp : e₁.runtime.definition.restart = e.runtime.definition.restart := congrArg ChildBudget.policy hb₁
      rw [hb₁, hp, hl₁, restartTimes_snoc, hx, hl, decide_eq_true rfl, Bool.and_self, if_pos rfl, h.entries exit.key e he, hl]
      unfold ChildBudget.after
      rw [List.foldl_append]
      rfl
    · rw [hspend.others k hk] at he'
      have hne : exit.lineage ≠ e'.lineage := by
        rw [← hl]
        intro heq
        exact hk (hb.lineage_inj k e'.member exit.key e.member (ledger_get he') (ledger_get he) heq.symm)
      rw [restartTimes_snoc, decide_eq_false hne, Bool.and_false, if_neg nofun, List.append_nil]
      exact h.entries k e' he'

end Policy

/-! ## Wakes -/

/-- Every application finds the budgets that those before it left. -/
def Follows : List Application → List Application → Prop
  | _, [] => True
  | history, x :: xs => (Budgeted history x.rt ∧ x.rt.currentChildMatches x.exit.key x.exit.lineage x.exit.generation = true) ∧
      Follows (history ++ [x]) xs

section Wakes

variable {history : List Application} {rt : SupervisorRuntime} {m : Machine}

theorem Follows.append {xs ys : List Application} (h : Follows history xs) (h' : Follows (history ++ xs) ys) :
    Follows history (xs ++ ys) := by
  induction xs generalizing history with
  | nil =>
    rw [List.append_nil] at h'
    exact h'
  | cons x xs ih =>
    refine ⟨h.1, ih h.2 ?_⟩
    rw [List.append_assoc]
    exact h'

theorem Follows.split {pre post : List Application} {x : Application} (h : Follows history (pre ++ x :: post)) :
    Budgeted (history ++ pre) x.rt ∧ x.rt.currentChildMatches x.exit.key x.exit.lineage x.exit.generation = true := by
  induction pre generalizing history with
  | nil =>
    rw [List.append_nil]
    exact h.1
  | cons y pre ih =>
    have h := ih h.2
    rw [List.append_assoc] at h
    exact h

/-- What every application keeps, the deferred exits keep. -/
theorem applyDeferred_applies {I : List Application → SupervisorRuntime → Prop}
    (hI : ∀ {apps rt exit}, rt.ledger.Books → rt.currentChildMatches exit.key exit.lineage exit.generation = true →
      I apps rt → I (apps ++ [⟨exit, rt⟩]) (applyExitPolicy exit rt).2) {exits : List ClassifiedExit} {apps : List Application}
    (h : I apps rt) (ho : rt.ledger.Open) (hb : rt.ledger.Books) (hd : Deferred rt.ledger exits) :
    I (apps ++ deferredApplications exits rt) (applyDeferred exits rt).2 := by
  induction exits generalizing apps rt with
  | nil =>
    rw [deferredApplications, List.append_nil]
    exact h
  | cons exit rest ih =>
    have hrun := (deferredExit_runs ho hb hd).2
    have hcons : applyDeferred (exit :: rest) rt = ((do
        let rt ← Act.get
        if rt.currentChildMatches exit.key exit.lineage exit.generation then applyExitPolicy exit else pure () : RuntimeM Unit) >>=
          fun _ => applyDeferred rest) rt := rfl
    rw [hcons, Act.run_bind, deferredApplications]
    rw [Act.run_get_bind] at hrun ⊢
    by_cases hm : rt.currentChildMatches exit.key exit.lineage exit.generation = true
    · rw [if_pos hm] at hrun ⊢
      rw [if_pos hm]
      have hpolicy := hI hb hm h
      generalize applyExitPolicy exit rt = q at hrun hpolicy
      obtain ⟨r, rt₁⟩ := q
      cases r with
      | error _ => exact hpolicy
      | ok u =>
        obtain ⟨ho₁, hb₁, hd₁⟩ := hrun u rt₁ rfl
        have hrest := ih hpolicy ho₁ hb₁ hd₁
        rw [List.append_assoc] at hrest
        exact hrest
    · rw [if_neg hm] at hrun ⊢
      rw [if_neg hm]
      obtain ⟨ho₁, hb₁, hd₁⟩ := hrun () rt rfl
      exact ih h ho₁ hb₁ hd₁

theorem applyDeferred_spends {exits : List ClassifiedExit} (h : Budgeted history rt) (ho : rt.ledger.Open) (hb : rt.ledger.Books)
    (hd : Deferred rt.ledger exits) : Follows history (deferredApplications exits rt) ∧
      Budgeted (history ++ deferredApplications exits rt) (applyDeferred exits rt).2 := by
  let I : List Application → SupervisorRuntime → Prop := fun apps rt => Follows history apps ∧ Budgeted (history ++ apps) rt
  have h₀ : I [] rt := by
    refine ⟨trivial, ?_⟩
    rw [List.append_nil]
    exact h
  refine applyDeferred_applies (I := I) ?_ h₀ ho hb hd
  intro apps rt exit hb hm ⟨hf, h⟩
  refine ⟨hf.append ⟨⟨h, hm⟩, trivial⟩, ?_⟩
  rw [← List.append_assoc]
  exact applyExitPolicy_budgeted _ hb h hm

/-- What a wake does to the budgets, unless the run is left. -/
def Charges (history apps : List Application) (m : Machine) : Prop :=
  Follows history apps ∧ (m.phase.leaving = false → Budgeted (history ++ apps) m.rt)

theorem charges_nil (h : m.phase.leaving = false → Budgeted history m.rt) : Charges history [] m := by
  refine ⟨trivial, fun hl => ?_⟩
  rw [List.append_nil]
  exact h hl

theorem charges_exit {apps : List Application} (reason : ExitReason) (hf : Follows history apps) :
    Charges history apps (exitWith reason rt) := by
  refine ⟨hf, fun hl => ?_⟩
  rw [exitWith_leaving] at hl
  cases hl

theorem resumeRestart_charges {keys : List ChildKey} {scope : DrainScope} (freshGroupToken : Bool) {out : DrainOut}
    (h : Budgeted history rt) (hb : rt.ledger.Books) (ho : rt.ledger.Open) (hout : out.Inv scope rt.ledger) (hn : keys.Nodup)
    (hk : ∀ k ∈ keys, scope.contains k = true) :
    Charges history (restartApplications keys freshGroupToken (out, rt)) (resumeRestart keys freshGroupToken (out, rt)) := by
  cases out with
  | await p => exact charges_nil fun _ => h
  | done result =>
    cases result with
    | error e => exact charges_exit _ trivial
    | ok completed =>
      obtain ⟨exits, ⟨rfl, hi⟩, hdef, -⟩ := hout
      have hdefers := (respawnGroup_defers freshGroupToken hb ho hn (fun k hkey => hi k (hk k hkey)) hdef).2
      have hwrites := (@respawnGroup_writes (· ≠ .restart) rt keys freshGroupToken completed).1
      cases hq : respawnGroup keys freshGroupToken completed rt with | mk r rt₁ =>
      rw [hq] at hdefers hwrites
      have h₁ : Budgeted history rt₁ := h.writes hwrites
      cases r with
      | error reason =>
        rw [restartApplications_failed hq, resumeRestart_failed hq]
        exact charges_exit _ trivial
      | ok deferred =>
        obtain ⟨ho₁, hb₁, hd₁⟩ := hdefers deferred rt₁ rfl
        rw [restartApplications_respawned hq, resumeRestart_respawned hq]
        cases freshGroupToken with
        | true => exact charges_nil fun _ => h₁
        | false =>
          obtain ⟨hf, hB⟩ := applyDeferred_spends h₁ ho₁ hb₁ hd₁
          show Charges history (deferredApplications deferred rt₁) (continueMain (applyDeferred deferred) rt₁)
          unfold continueMain
          generalize applyDeferred deferred rt₁ = q at hB
          obtain ⟨r, rt₂⟩ := q
          cases r with
          | ok _ => exact ⟨hf, fun _ => hB⟩
          | error reason => exact charges_exit reason hf

/-- A join in the main loop. -/
theorem joined_charges {task : TaskId} {c : Conclusion} (h : Budgeted history rt) (hb : rt.ledger.Books) :
    Charges history (joinApplications task c rt) (continueMain (handleJoinedChild task c) rt) := by
  have hc := @consumeJoinedChild_cases rt task c
  have hw := (@consumeJoinedChild_writes (· ≠ .restart) rt task c).1
  unfold joinApplications continueMain handleJoinedChild
  rw [Act.run_bind]
  generalize consumeJoinedChild task c rt = q at hc hw
  obtain ⟨r, rt₁⟩ := q
  cases hc with
  | lost _ => exact charges_exit _ trivial
  | stale _ _ => exact charges_nil fun _ => h.writes hw
  | @current t e status ht hget hl hg =>
    obtain ⟨rt₂, hrt₂, ⟨L, hstep, hpath⟩, hget₂, -⟩ := exit_leads status ht hget hl hg
    have hb₂ : rt₂.ledger.Books := path_books hpath (step_books hstep hb)
    have h₂ : Budgeted history rt₂ := by
      rw [hrt₂]
      exact (h.writes hw).writes (writes_recordExit _ _ _)
    have hm : rt₂.currentChildMatches t.key t.lineage t.generation = true :=
      currentChildMatches_iff.mpr ⟨_, hget₂, hl, hg⟩
    have hB := applyExitPolicy_budgeted ⟨t.key, t.lineage, t.generation, status⟩ hb₂ h₂ hm
    simp only [dispatchExit, Act.run_modify_bind]
    rw [← hrt₂]
    generalize applyExitPolicy ⟨t.key, t.lineage, t.generation, status⟩ rt₂ = q at hB
    obtain ⟨r, rt₃⟩ := q
    have hf : Follows history [⟨⟨t.key, t.lineage, t.generation, status⟩, rt₂⟩] := ⟨⟨h₂, hm⟩, trivial⟩
    cases r with
    | ok _ => exact ⟨hf, fun _ => hB⟩
    | error reason => exact charges_exit reason hf

theorem deadlineBatch_charges (h : Budgeted history rt) (hb : rt.ledger.Books) (ho : rt.ledger.Open) (hs : rt.ledger.Settled) :
    Charges history (applications ⟨rt, .deadlineYield⟩ .resumed) (deadlineBatch rt) := by
  obtain ⟨hlead, hkeys⟩ := deadlineBatch_runs ho
  have hworks : Works (· ≠ .restart) rt ((drainDeadlineCommandBatch rt.commandRx >>= fun _ => handleDeadlines) rt).2 := by
    have hcommands := drainDeadlineCommandBatch_works (A := (· ≠ .restart)) nofun rt.commandRx rfl fun _ => nofun
    rw [Act.run_bind]
    generalize drainDeadlineCommandBatch rt.commandRx rt = q at hcommands
    obtain ⟨r, rt₁⟩ := q
    cases r with
    | error _ => exact hcommands
    | ok _ => exact hcommands.trans (handleDeadlines_writes nofun).1.toWorks
  unfold applications deadlineBatch
  simp only
  generalize (drainDeadlineCommandBatch rt.commandRx >>= fun _ => handleDeadlines) rt = q at hlead hkeys hworks
  obtain ⟨r, rt₁⟩ := q
  obtain ⟨hb₁, ho₁, hs₁⟩ := path_main (fun _ k hl => Commands.quiet hl k) hlead hb ho hs
  have h₁ : Budgeted history rt₁ := h.works hworks
  have hgroup : ∀ keys reason scope fresh, keys.Nodup → (∀ k ∈ keys, scope.contains k = true) → reason ≠ .shutdown →
      Charges history (restartApplications keys fresh (rt₁.startDrain reason scope))
        (resumeRestart keys fresh (rt₁.startDrain reason scope)) := by
    intro keys reason scope fresh hn hk hr
    obtain ⟨hbd, hod, hout⟩ := startDrain_restart scope hb₁ ho₁ hs₁ hr
    exact resumeRestart_charges fresh (h₁.writes (startDrain_wends reason scope).1.writes) hbd hod hout hn hk
  cases r with
  | error reason => exact charges_exit reason trivial
  | ok keys =>
    cases keys with
    | none => exact charges_nil fun _ => h₁
    | some keys =>
      have hn : keys.Nodup := (hkeys _ _ rfl keys rfl).nodup hb₁.order_nodup
      simp only
      split
      · exact hgroup keys .groupRestart .all true hn (fun _ _ => rfl) (by decide)
      · exact hgroup keys .restForOneRestart (.subset keys) false hn (fun _ => subset_contains) (by decide)

theorem wake_charges (w : Wake) (hinv : m.Inv) (hl : m.phase.leaving = false) (h : Budgeted history m.rt) :
    Charges history (applications m w) (wake m w) := by
  obtain ⟨rt, phase⟩ := m
  have hidle : Turns (· ≠ .restart) rt (wake ⟨rt, phase⟩ w) → Charges history [] (wake ⟨rt, phase⟩ w) :=
    fun ht => charges_nil fun hl => h.works (ht.stays hl)
  cases phase with
  | main =>
    have hturn : ∀ w, (∀ task, w ≠ .joined task) → Turns (· ≠ .restart) rt (wake ⟨rt, .main⟩ w) := fun w hw =>
      wakeMain_turns (A := (· ≠ .restart)) nofun w (fun _ => nofun) fun task h => absurd h (hw task)
    cases w with
    | joined task =>
      show Charges history (match joinable rt task with
        | some c => joinApplications task c rt
        | none => []) (match joinable rt task with
        | some c => continueMain (handleJoinedChild task c) rt
        | none => ⟨rt, .main⟩)
      split
      · exact joined_charges h hinv.books
      · exact charges_nil fun _ => h
    | _ => exact hidle (hturn _ nofun)
  | deadlineYield =>
    cases w with
    | resumed => exact deadlineBatch_charges h hinv.books hinv.phase.1 hinv.phase.2
    | _ => exact charges_nil fun _ => h
  | drain p k =>
    cases k with
    | restart keys freshGroupToken =>
      obtain ⟨hw, hb₁, ho₁, hout⟩ := @drainWake_restart (· ≠ .restart) rt p keys freshGroupToken w hinv.books hinv.phase
      have hc := resumeRestart_charges freshGroupToken (h.writes hw) hb₁ ho₁ hout hinv.phase.2.2.1 hinv.phase.2.2.2
      show Charges history (applications ⟨rt, .drain p (.restart keys freshGroupToken)⟩ w)
        (wakeDrain rt p (.restart keys freshGroupToken) w)
      rw [wakeDrain_eq]
      exact hc
    | shutdown after => cases hl
  | exited r => cases hl

theorem wake_leaves (w : Wake) (hl : m.phase.leaving = true) : applications m w = [] ∧ (wake m w).phase.leaving = true := by
  obtain ⟨rt, phase⟩ := m
  cases phase with
  | main => cases hl
  | deadlineYield => cases hl
  | exited r => exact ⟨by cases w <;> rfl, rfl⟩
  | drain p k =>
    cases k with
    | restart keys freshGroupToken => cases hl
    | shutdown after =>
      refine ⟨by cases w <;> rfl, ?_⟩
      show (wakeDrain rt p (.shutdown after) w).phase.leaving = true
      rw [wakeDrain_eq]
      exact resumeShutdown_leaving after _

end Wakes

/-! ## Runs -/

theorem leaving_applications (inputs : List Input) : ∀ {m : Machine}, m.phase.leaving = true → runApplications m inputs = [] := by
  induction inputs with
  | nil => exact fun _ => rfl
  | cons i is ih =>
    intro m hl
    cases i with
    | env e => exact ih hl
    | wake w =>
      obtain ⟨hnone, hleave⟩ := wake_leaves w hl
      rw [runApplications, hnone, List.nil_append]
      exact ih hleave

theorem run_follows (inputs : List Input) : ∀ {m : Machine} {history : List Application}, m.Inv →
    (m.phase.leaving = false → Budgeted history m.rt) → Follows history (runApplications m inputs) := by
  induction inputs with
  | nil => exact fun _ _ => trivial
  | cons i is ih =>
    intro m history hinv h
    cases hl : m.phase.leaving with
    | true =>
      rw [leaving_applications _ hl]
      trivial
    | false =>
      have hinv' := (step_inv i hinv).1
      cases i with
      | env e => exact ih hinv' fun _ => (h hl).env e
      | wake w =>
        obtain ⟨hf, hB⟩ := wake_charges w hinv hl (h hl)
        exact hf.append (ih hinv' hB)

theorem start_budgeted (c : SupervisorConfig) (b : Binding) (hl : (start c b).phase.leaving = false) :
    Budgeted [] (start c b).rt := by
  have hnew : Budgeted [] (.new c b) :=
    { sorted := .nil
      past := fun x hx => absurd hx List.not_mem_nil
      known := fun x hx => absurd hx List.not_mem_nil
      entries := fun k e he => by
        obtain ⟨d, nested, lineage, seed, heq⟩ := new_entries c b he
        rw [heq]
        rfl }
  exact hnew.works ((start_turns c b).stays hl)

/-- How many restarts of the membership lie within the window of the last application. -/
def restartsWithin (history : List Application) (x : Application) (within : Duration) : Nat :=
  (history ++ [x]).countP fun y =>
    y.eligible && decide (y.exit.lineage = x.exit.lineage) && decide (x.rt.now ≤ y.rt.now + within)

theorem restartTimes_sorted {history : List Application} (h : (history.map fun y => y.rt.now).Pairwise (· ≤ ·)) (lineage : Nat) :
    (restartTimes history lineage).Pairwise (· ≤ ·) :=
  h.sublist (List.filter_sublist.map _)

theorem restartTimes_within (history : List Application) (lineage now within : Nat) :
    ((restartTimes history lineage).filter fun t => decide (now ≤ t + within)).length = history.countP fun y =>
      y.eligible && decide (y.exit.lineage = lineage) && decide (now ≤ y.rt.now + within) := by
  rw [restartTimes, List.filter_map, List.length_map, List.filter_filter, ← List.countP_eq_length_filter]
  refine List.countP_congr fun y _ => ?_
  simp only [Function.comp, Bool.and_comm]

/-- At every eligible application `schedule_restart` fails exactly when the restarts asked
    for by the policies of this membership within the window, this one included, exceed its
    limit. -/
theorem restart_budget (c : SupervisorConfig) (b : Binding) (inputs : List Input) (pre post : List Application) (x : Application)
    (h : runApplications (start c b) inputs = pre ++ x :: post) (hx : x.eligible = true) :
    ∃ e, x.rt.children.get x.exit.key = some e ∧ e.lineage = x.exit.lineage ∧
      ((scheduleRestart x.exit.key x.rt).1 = .error (.failure .restartIntensityExceeded) ↔
        e.runtime.definition.restart.maxRestarts.getD 0 <
          restartsWithin pre x (e.runtime.definition.restart.within.getD (secs 30))) := by
  have hinv : (start c b).Inv := run_inv c b []
  have hf := run_follows inputs hinv (start_budgeted c b)
  rw [h] at hf
  obtain ⟨hB, hm⟩ := hf.split
  rw [List.nil_append] at hB
  obtain ⟨e, he, hl, -⟩ := currentChildMatches_iff (t := x.exit.record).mp hm
  have he : x.rt.children.get x.exit.key = some e := he
  have hl : e.lineage = x.exit.lineage := hl
  refine ⟨e, he, hl, ?_⟩
  rw [(scheduleRestart_spends he).1, hB.entries x.exit.key e he, hl]
  have htimes : restartTimes (pre ++ [x]) x.exit.lineage = restartTimes pre x.exit.lineage ++ [x.rt.now] := by
    rw [restartTimes_snoc, hx, decide_eq_true rfl, Bool.and_self, if_pos rfl]
  have hslide : ∀ within, slide within ((restartTimes pre x.exit.lineage).foldl (slide within) []) x.rt.now =
      (restartTimes (pre ++ [x]) x.exit.lineage).filter fun t => decide (x.rt.now ≤ t + within) := by
    intro within
    rw [htimes, ← foldl_slide (htimes ▸ restartTimes_sorted hB.sorted_snoc x.exit.lineage), List.foldl_append]
    rfl
  unfold ChildBudget.after
  simp only
  rw [hslide, restartTimes_within]
  rfl

/-- A child that may be restarted once in thirty seconds. -/
def onceOnly : SupervisorConfig where
  host := pair.host
  strategy := .oneForOne
  kind := .ordered
  defaultChildRestart := .default
  defaultChildShutdown := .default
  children := [{ id := "a", restart := .always 1 (secs 30) .none }]
  ids_nodup := by decide
  ids_nonempty := by decide

/-- It fails, and fails again exactly thirty seconds later. -/
def failsTwice : List Input :=
  [.env (.conclude 1 .panicked), .env (.settle 1), .wake (.joined 1), .wake .deadline, .wake .resumed,
    .env (.tick (secs 30)), .env (.conclude 1 .panicked), .env (.settle 1), .wake (.joined 1)]

theorem restart_budget_second : ∃ x₁ x₂, runApplications (start onceOnly rootBinding) failsTwice = [x₁] ++ x₂ :: [] ∧
    x₂.eligible = true ∧ (scheduleRestart x₂.exit.key x₂.rt).1 = .error (.failure .restartIntensityExceeded) := by
  have hlen : (runApplications (start onceOnly rootBinding) failsTwice).length = 2 := by decide +kernel
  have hdata : (runApplications (start onceOnly rootBinding) failsTwice).map (fun x => (x.eligible, x.exit.lineage, x.rt.now,
      (x.rt.children.get x.exit.key).map (·.runtime.definition.restart))) =
      [(true, 0, 0, some (.always 1 (secs 30) .none)), (true, 0, secs 30, some (.always 1 (secs 30) .none))] := by decide +kernel
  obtain ⟨x₁, x₂, hl⟩ := List.length_eq_two.mp hlen
  rw [hl] at hdata
  simp only [List.map_cons, List.map_nil, List.cons.injEq, Prod.mk.injEq, and_true] at hdata
  obtain ⟨⟨h₁, hl₁, -, -⟩, h₂, hl₂, hn₂, hp₂⟩ := hdata
  refine ⟨x₁, x₂, hl, h₂, ?_⟩
  obtain ⟨e, he, -, hiff⟩ := restart_budget onceOnly rootBinding failsTwice [x₁] [] x₂ hl h₂
  rw [he] at hp₂
  have hp : e.runtime.definition.restart = .always 1 (secs 30) .none := Option.some.inj hp₂
  have hcount : restartsWithin [x₁] x₂ (secs 30) = 2 := by
    simp [restartsWithin, h₁, h₂, hl₁, hl₂, hn₂]
  rw [hiff, hp]
  show 1 < restartsWithin [x₁] x₂ (secs 30)
  rw [hcount]
  decide

end Kokage.Supervisor
