/-
  Kokage.Supervisor.Answers — every handler attends to the removals on its desk.

  Nothing but `removeChild` takes a removal from the queue; every other handler is calm
  (`Tends`): a parked reply stays where it is until its child is joined, and leaves with
  the child. Which handlers need the books: whoever finalizes a child that is being
  removed must know that it has no task left.
-/

import Kokage.Supervisor.Desk

namespace Kokage.Supervisor

open Kokage.Lib Desk Ledger SupervisorRuntime

namespace SupervisorRuntime

variable {rt rt' : SupervisorRuntime} {key : ChildKey} {e : ChildEntry}

/-- No task of this membership is left to join. -/
def NoTask (rt : SupervisorRuntime) (lineage : Nat) : Prop := ∀ task t, rt.taskMap task = some t → t.lineage ≠ lineage

structure Fit (rt : SupervisorRuntime) : Prop where
  sound : rt.desk.Sound
  tidy : rt.desk.Tidy

theorem Fit.attends (h : rt.Fit) (ht : Attends rt.desk rt'.desk) : rt'.Fit := ⟨ht.sound h.sound, ht.tidy h.tidy⟩

theorem Fit.tends (h : rt.Fit) (ht : Tends rt rt') : rt'.Fit := h.attends ht.toAttends

theorem Fit.runs {α : Type} {m : RuntimeM α} (h : rt.Fit) (hm : Act.Runs Tends m rt fun _ _ => True) :
    Act.Runs Tends m rt fun _ rt' => rt'.Fit := by
  refine ⟨hm.1, fun a rt' hrun => ?_⟩
  have ht := hm.1
  rw [hrun] at ht
  exact h.tends ht

theorem Fit.removing_iff (h : rt.Fit) (he : rt.children.get key = some e) :
    e.membership = .removing ↔ e.pendingRemoval.isSome = true :=
  h.tidy key e.slot (desk_get he)

theorem Fit.not_pending (h : rt.Fit) (he : rt.children.get key = some e) (hm : e.membership ≠ .removing) :
    e.pendingRemoval = none := by
  cases hp : e.pendingRemoval with
  | none => rfl
  | some p =>
    refine absurd ((h.tidy key e.slot (desk_get he)).mpr ?_) hm
    show e.pendingRemoval.isSome = true
    rw [hp]
    rfl

/-- A child that has no reply parked has none later. -/
theorem Tends.not_pending (h : Tends rt rt') {e' : ChildEntry} (hn : ∀ e, rt.children.get key = some e → e.pendingRemoval = none)
    (he : rt'.children.get key = some e') : e'.pendingRemoval.isSome = false := by
  cases hp : e'.pendingRemoval.isSome with
  | false => rfl
  | true =>
    obtain ⟨s, hs, -, hsp⟩ := h.pending key e'.slot (desk_get he) hp
    obtain ⟨e, he₀, rfl⟩ := get_of_desk hs
    have : e.slot.pending = none := hn e he₀
    rw [this] at hsp
    cases hsp

/-- Whoever is being removed now was being removed before. -/
def Recalls (rt rt' : SupervisorRuntime) : Prop :=
  ∀ key e', rt'.children.get key = some e' → e'.membership = .removing →
    ∃ e, rt.children.get key = some e ∧ e.lineage = e'.lineage ∧ e.membership = .removing

theorem Recalls.trans {rt'' : SupervisorRuntime} (h : Recalls rt rt') (h' : Recalls rt' rt'') : Recalls rt rt'' := by
  intro key e'' he'' hm''
  obtain ⟨e', he', hl', hm'⟩ := h' key e'' he'' hm''
  obtain ⟨e, he, hl, hm⟩ := h key e' he' hm'
  exact ⟨e, he, hl.trans hl', hm⟩

theorem Tends.recalls (ht : Tends rt rt') (hf : rt.Fit) : Recalls rt rt' := by
  intro key e' he' hm
  have hp := ((hf.tends ht).removing_iff he').mp hm
  obtain ⟨s, hs, hl, hsp⟩ := ht.pending key e'.slot (desk_get he') hp
  obtain ⟨e, he, rfl⟩ := get_of_desk hs
  exact ⟨e, he, hl, (hf.removing_iff he).mpr hsp⟩

/-! ## Starting -/

theorem finalizeSkippedGroupRespawn_tends (startupAborted : Bool) (hf : rt.Fit)
    (hn : ∀ e, rt.children.get key = some e → e.pendingRemoval = none) :
    Act.Runs Tends (finalizeSkippedGroupRespawn key startupAborted) rt fun _ _ => True := by
  -- wherever the child is dropped it has no reply parked
  have hend : ∀ rt' : SupervisorRuntime, Tends rt rt' → Act.Runs Tends (do
      let rt ← Act.get
      if (rt.children.get key).any (·.runtime.definition.removeOnTerminalExit) then
        Act.modify (·.finalizeRemovedChild key false)
      else
        Act.modify (·.markChildTerminal key) : RuntimeM Unit) rt' fun _ _ => True := by
    intro rt' ht
    refine Act.runs_get ?_
    split
    · refine Act.runs_modify (tends_finalizeRemovedChild false (hf.tends ht).sound fun e' he' hp => ?_) trivial
      rw [ht.not_pending hn he'] at hp
      cases hp
    · exact Act.runs_modify (tends_markChildTerminal key) trivial
  unfold finalizeSkippedGroupRespawn
  refine Act.runs_get ?_
  simp only
  cases startupAborted with
  | false => exact hend rt .rfl
  | true =>
    have h₁ : Tends rt (rt.editRuntime key fun r => { r with startupAborted := true }).publishSnapshot := by
      refine Tends.trans ?_ tends_publish
      exact tends_edit fun _ _ => rfl
    refine Act.runs_modify_bind h₁ ?_
    exact Act.runs_bind (startupMemberAborted_tends _ _) fun _ rt' ht _ => hend rt' (h₁.trans ht)

theorem scheduleStart_tends (key : ChildKey) (emitRestartEvents : Bool) :
    Act.Runs Tends (scheduleStart key emitRestartEvents) rt fun _ _ => True := by
  unfold scheduleStart
  refine Act.runs_get ?_
  split
  · exact Act.runs_pure trivial
  · split
    · exact Act.runs_pure trivial
    · simp only
      split
      · exact spawnStartItem_tends _
      · have h₁ : Tends rt (rt.editRuntime key fun r =>
            { r with state := .startQueued, hasReportedReady := false, nextRestartDeadline := none }) := tends_edit fun _ _ => rfl
        exact Act.runs_modify (h₁.trans (Calm.of_eq rfl)) trivial

theorem scheduleStartSequence_tends (keys : List ChildKey) (emitRestartEvents : Bool) (hf : rt.Fit) :
    Act.Runs Tends (scheduleStartSequence keys emitRestartEvents) rt fun _ _ => True := by
  unfold scheduleStartSequence
  refine Act.runs_bind (Q := fun _ _ => True) ?_ fun _ rt' _ _ => ?_
  · refine (Act.runs_forEach (R := Tends) (I := fun _ rt => rt.Fit) ?_ keys rt hf).weaken fun _ _ _ => trivial
    intro key rest rt hf
    refine hf.runs (Act.runs_get ?_)
    split
    · exact scheduleStart_tends key emitRestartEvents
    · exact Act.runs_pure trivial
    · rename_i startupAborted hd
      refine finalizeSkippedGroupRespawn_tends startupAborted hf fun e he => hf.not_pending he ?_
      intro hm
      split at hd
      · simp [groupRespawnDisposition, he, hm] at hd
      · cases hd
  · refine Act.runs_get ?_
    split
    · exact Act.runs_modify_bind tends_publish advanceStartSequence_tends
    · exact Act.runs_pure trivial

/-! ## Exits -/

theorem scheduleRestart_tends (key : ChildKey) : Act.Runs Tends (scheduleRestart key) rt fun _ _ => True := by
  unfold scheduleRestart
  refine Act.runs_modify_bind (Calm.of_eq rfl) (Act.runs_modify_bind (tends_edit fun _ _ => rfl) (Act.runs_get ?_))
  split
  · exact Act.runs_pure trivial
  · split
    · exact Act.runs_modify_bind (tends_sendSupervisorEvent _) Act.runs_fail
    · simp only
      exact Act.runs_modify_bind (tends_edit fun _ _ => rfl) (Act.runs_pure trivial)

theorem removeTerminal_tends (lineage : Nat) (startupAborted : Bool) (hf : rt.Fit)
    (hn : ∀ e, rt.children.get key = some e → e.pendingRemoval = none) :
    Act.Runs Tends (removeTerminal key lineage startupAborted) rt fun _ _ => True := by
  refine ⟨?_, fun _ _ _ => trivial⟩
  have hend : ∀ rt' : SupervisorRuntime, Tends rt rt' → Tends rt (rt'.finalizeRemovedChild key false) := by
    intro rt' ht
    refine ht.trans (tends_finalizeRemovedChild false (hf.tends ht).sound fun e' he' hp => ?_)
    rw [ht.not_pending hn he'] at hp
    cases hp
  unfold removeTerminal
  cases startupAborted with
  | false => exact hend rt .rfl
  | true => exact hend _ (terminalStartMember_tends key lineage).1

theorem keepTerminal_tends (key : ChildKey) (entry : ChildEntry) (startupAborted : Bool) :
    Act.Runs Tends (keepTerminal key entry startupAborted) rt fun _ _ => True := by
  have hend : ∀ rt' : SupervisorRuntime, Act.Runs Tends
      (if startupAborted then terminalStartMember key entry.lineage else pure () : RuntimeM Unit) rt' fun _ _ => True := by
    intro rt'
    split
    · exact terminalStartMember_tends _ _
    · exact Act.runs_pure trivial
  unfold keepTerminal
  refine Act.runs_get ?_
  simp only
  split
  · exact Act.runs_modify_bind (tends_markChildTerminal key) (hend _)
  · exact hend rt

theorem terminalExit_tends (hf : rt.Fit) (he : rt.children.get key = some e) (hm : e.membership ≠ .removing) :
    Act.Runs Tends (terminalExit key e) rt fun _ _ => True := by
  have hn : ∀ e, rt.children.get key = some e → e.pendingRemoval = none := by
    intro e' he'
    rw [he] at he'
    cases he'
    exact hf.not_pending he hm
  have hend : ∀ (rt' : SupervisorRuntime) (startupAborted : Bool), Tends rt rt' → Act.Runs Tends
      (if e.runtime.definition.removeOnTerminalExit then removeTerminal key e.lineage startupAborted
        else keepTerminal key e startupAborted) rt' fun _ _ => True := by
    intro rt' startupAborted ht
    split
    · refine removeTerminal_tends _ _ (hf.tends ht) fun e' he' => ?_
      have := ht.not_pending hn he'
      simpa using this
    · exact keepTerminal_tends _ _ _
  unfold terminalExit
  simp only
  split
  · have h₁ : Tends rt (rt.editRuntime key fun r => { r with startupAborted := true }).publishSnapshot := by
      refine Tends.trans ?_ tends_publish
      exact tends_edit fun _ _ => rfl
    exact Act.runs_modify_bind h₁ (hend _ _ h₁)
  · exact hend rt _ .rfl

/-- A child that is being removed is finalized only when its task is joined. -/
theorem applyExitPolicyInner_tends (c : ClassifiedExit) (allowRestart : Bool) (hf : rt.Fit)
    (hc : ∀ e, rt.children.get c.key = some e → e.membership = .removing → rt.NoTask e.lineage) :
    Act.Runs Tends (applyExitPolicyInner c allowRestart) rt fun _ _ => True := by
  unfold applyExitPolicyInner
  refine Act.runs_get ?_
  split
  · exact Act.runs_pure trivial
  · split
    · exact Act.runs_pure trivial
    · rename_i e he
      split
      · rename_i hm
        refine Act.runs_modify (tends_finalizeRemovedChild false hf.sound fun e' he' _ => ?_) trivial
        rw [he] at he'
        cases he'
        exact hc e he hm
      · rename_i hm
        split
        · exact Act.runs_bind (scheduleRestart_tends c.key) fun _ _ _ _ =>
            Act.runs_modify (tends_sendLifecycle _ _) trivial
        · split
          · exact terminalExit_tends hf he hm
          · exact Act.runs_pure trivial

/-- The task just joined was the membership's only one. -/
theorem noTask_unlinked {task : TaskId} {t : TaskMeta} (hb : rt.ledger.Books) (ht : rt.taskMap task = some t) :
    (rt.unlinked task).NoTask t.lineage := by
  intro task' t' ht' he
  have ht' : Function.update rt.taskMap task none task' = some t' := ht'
  by_cases hsame : task' = task
  · rw [hsame, Function.update_self] at ht'
    cases ht'
  · rw [Function.update_of_ne hsame] at ht'
    exact hsame (hb.record_inj task' t' task t ht' ht he)

theorem taskMap_recordExit (key : ChildKey) (generation : Nat) (status : RuntimeExitStatus) :
    (rt.recordExit key generation status).taskMap = rt.taskMap := by
  unfold recordExit sendChildEvent publishSnapshot sendLifecycle
  simp only
  split
  · unfold sendLifecycleDraft
    simp only
    split <;> rfl
  · rfl

theorem handleJoinedChild_tends (task : TaskId) (c : Conclusion) (hb : rt.ledger.Books) (hf : rt.Fit) :
    Act.Runs Tends (handleJoinedChild task c) rt fun _ _ => True := by
  have hc := @consumeJoinedChild_cases rt task c
  refine ⟨?_, fun _ _ _ => trivial⟩
  unfold handleJoinedChild
  rw [Act.run_bind]
  generalize consumeJoinedChild task c rt = q at hc
  obtain ⟨r, rt₁⟩ := q
  cases hc with
  | lost ht => exact Calm.of_eq rfl
  | stale ht hm => exact tends_unlinked task
  | @current t e status ht he hl hg =>
    let rt₁ : SupervisorRuntime := { rt.unlinked task with liveTasks := rt.liveTasks - 1 }
    have h₁ : Tends rt rt₁ := (tends_unlinked task).trans (Calm.of_eq rfl)
    have hx : Tends rt (rt₁.recordExit t.key t.generation status) := h₁.trans (tends_recordExit _ _ _)
    refine hx.trans (applyExitPolicyInner_tends ⟨t.key, t.lineage, t.generation, status⟩ true (hf.tends hx) ?_).1
    intro e' he' _
    have he₁ : rt₁.children.get t.key = some e := he
    obtain ⟨-, -, hget, -⟩ := recordExit_spec t.generation status he₁
    have he' : (rt₁.recordExit t.key t.generation status).children.get t.key = some e' := he'
    rw [hget] at he'
    cases he'
    have hl' : (recordExitEntry rt₁.now status e).lineage = t.lineage := hl
    rw [hl']
    intro task' t' ht'
    have hmap : (rt₁.recordExit t.key t.generation status).taskMap = rt₁.taskMap := taskMap_recordExit _ _ _
    rw [hmap] at ht'
    exact noTask_unlinked hb ht task' t' ht'

/-! ## Deadlines -/

theorem restartOne_tends (key : ChildKey) : Act.Runs Tends (restartOne key) rt fun _ _ => True := by
  unfold restartOne
  refine Act.runs_get ?_
  split
  · exact Act.runs_pure trivial
  · rename_i e he
    split
    · exact Act.runs_pure trivial
    · rename_i hcond
      have hm : e.membership = .active := by
        simp only [Bool.or_eq_true, decide_eq_true_eq, not_or, not_not] at hcond
        exact hcond.1.1
      refine Act.runs_modify_bind (tends_edit fun _ _ => rfl) ?_
      have he₁ : (rt.editRuntime key fun r => { r with nextRestartDeadline := none }).children.get key =
          some { e with runtime := { e.runtime with nextRestartDeadline := none } } := by
        show (rt.children.modify key _).get key = _
        rw [Slab.get_modify_self, he]
        rfl
      refine Act.runs_bind (spawnChild_tends he₁ hm) fun _ _ _ _ => ?_
      refine Act.runs_modify_bind (Calm.of_eq rfl) (Act.runs_get ?_)
      split
      · exact advanceStartSequence_tends
      · exact Act.runs_pure trivial

/-- An edit of the parked removal that keeps its reply. -/
theorem tends_flag (key : ChildKey) (f : PendingRemoval → PendingRemoval) (hf : ∀ p, (f p).reply = p.reply) :
    Tends rt (rt.edit key fun e => { e with pendingRemoval := e.pendingRemoval.map f }) := by
  cases he : rt.children.get key with
  | none =>
    refine tends_edit fun e he' => ?_
    rw [he] at he'
    cases he'
  | some e =>
    have hd := Calm.flag (desk_get he) f hf
    refine Calm.trans hd (Calm.still (fun k => ?_) rfl rfl rfl (fun _ _ h => .inl h) (fun _ h => .inl h) (fun _ h => h)
      fun _ h => h)
    show ((rt.children.modify key _).map _).get k = (rt.desk.slots.insertAt key _).get k
    rw [Slab.get_map, Slab.get_modify, Slab.get_insertAt]
    by_cases hk : k = key
    · rw [if_pos hk, if_pos hk, hk, he]
      rfl
    · rw [if_neg hk, if_neg hk]
      rfl

theorem tends_expireRemoval (key : ChildKey) (grace : Duration) : Tends rt (rt.expireRemoval key grace) := by
  refine Tends.trans ?_ (tends_escalateChild key)
  exact tends_flag key _ fun _ => rfl

theorem tends_hardAbortRemoval (key : ChildKey) : Tends rt (rt.hardAbortRemoval key) := by
  refine Tends.trans ?_ (tends_abortChild key)
  exact tends_flag key _ fun _ => rfl

theorem handleDeadlines_tends : Act.Runs Tends handleDeadlines rt fun _ _ => True := by
  unfold handleDeadlines
  refine Act.runs_get ?_
  split
  · exact Act.runs_fail
  · refine Act.runs_modify_bind (tends_foldl (fun rt (x : ChildKey × Duration) => tends_expireRemoval x.1 x.2) _) ?_
    refine Act.runs_modify_bind (tends_foldl (fun rt key => tends_hardAbortRemoval key) _) ?_
    refine Act.runs_get ?_
    split
    · refine Act.runs_bind (Q := fun _ _ => True) ?_ fun _ _ _ _ => Act.runs_pure trivial
      exact Act.runs_forEach (I := fun _ _ => True) (fun key _ _ _ => restartOne_tends key) _ _ trivial
    · exact Act.runs_pure trivial
    · exact Act.runs_modify_bind (tends_edit fun _ _ => rfl) (Act.runs_get (Act.runs_pure trivial))

/-! ## Group restarts -/

/-- A child that is not active has no task left. -/
theorem noTask_of_inactive (hb : rt.ledger.Books) (he : rt.children.get key = some e)
    (ha : e.runtime.state.isActive = false) : rt.NoTask e.lineage := by
  intro task t ht hl
  obtain ⟨-, -, htask⟩ := hb.record_task task t key e.member ht (ledger_get he) hl.symm
  have hact := hb.active_iff key e.member (ledger_get he)
  rw [htask] at hact
  have : e.member.isActive = false := ha
  rw [this] at hact
  cases hact

theorem respawnGroup_tends {keys : List ChildKey} (freshGroupToken : Bool) (completed : List ClassifiedExit)
    (hb : rt.ledger.Books) (hf : rt.Fit) (hi : ∀ k ∈ keys, Inactive rt.ledger k) :
    Act.Runs Tends (respawnGroup keys freshGroupToken completed) rt fun _ _ => True := by
  let I : List ClassifiedExit → SupervisorRuntime → Prop := fun rest rt =>
    (rt.ledger.Books ∧ ∀ k ∈ keys, Inactive rt.ledger k) ∧ rt.Fit ∧ ∀ c ∈ rest, c.key ∈ keys
  have hstart : I (completed.filter fun c => keys.contains c.key) rt := by
    refine ⟨⟨hb, hi⟩, hf, fun c hc => ?_⟩
    simpa using (List.mem_filter.mp hc).2
  have hrest : ∀ rt : SupervisorRuntime, rt.Fit → Act.Runs Tends (do
      Act.modify fun rt => { rt with startSequence := rt.startSequence.map fun s =>
        { queue := s.queue.filter fun item => !keys.contains item.key
          gate := s.gate.filter fun g => !keys.contains g.key } }
      scheduleStartSequence keys true
      pure (completed.filter fun c => !keys.contains c.key) : RuntimeM (List ClassifiedExit)) rt fun _ _ => True := by
    intro rt hf
    have h₁ : Tends rt { rt with startSequence := rt.startSequence.map fun s =>
        { queue := s.queue.filter fun item => !keys.contains item.key
          gate := s.gate.filter fun g => !keys.contains g.key } } := Calm.of_eq rfl
    refine Act.runs_modify_bind h₁ ?_
    exact Act.runs_bind (scheduleStartSequence_tends keys true (hf.tends h₁)) fun _ _ _ _ => Act.runs_pure trivial
  unfold respawnGroup
  simp only [List.partition_eq_filter_filter]
  refine Act.runs_bind (Act.runs_forEach (I := I) ?_ _ rt hstart) ?_
  · intro c rest rt ⟨⟨hb, hi⟩, hf, hin⟩
    have hkey : c.key ∈ keys := hin c (List.mem_cons_self ..)
    have hrun : Act.Runs (Leads (· = .other)) (do
        let rt ← Act.get
        if rt.currentChildMatches c.key c.lineage c.generation then applyDrainedCompletionPolicy c else pure () : RuntimeM Unit)
          rt fun _ _ => True := by
      refine Act.runs_get ?_
      split
      · exact applyDrainedCompletionPolicy_runs rfl
      · exact Act.runs_pure trivial
    have htends : Act.Runs Tends (do
        let rt ← Act.get
        if rt.currentChildMatches c.key c.lineage c.generation then applyDrainedCompletionPolicy c else pure () : RuntimeM Unit)
          rt fun _ _ => True := by
      refine Act.runs_get ?_
      split
      · exact applyExitPolicyInner_tends c false hf fun e he _ => noTask_of_inactive hb he (hi c.key hkey e.member (ledger_get he))
      · exact Act.runs_pure trivial
    refine ⟨htends.1, fun a rt' hok => ⟨?_, (hf.runs htends).2 a rt' hok, fun c hc => hin c (List.mem_cons_of_mem _ hc)⟩⟩
    have hlead : Leads (· = .other) rt rt' := by
      have := hrun.1
      rw [hok] at this
      exact this
    refine ⟨path_books hlead hb, fun k hk => ?_⟩
    exact Ledger.Path.keeps (I := fun L => Inactive L k) (by rintro _ _ _ rfl; exact step_inactive nofun) hlead (hi k hk)
  · intro _ rt ht ⟨_, hf, _⟩
    cases freshGroupToken with
    | true =>
      have h₁ : Tends rt { rt with groupToken := false } := Calm.of_eq rfl
      exact Act.runs_modify_bind h₁ (hrest _ (hf.tends h₁))
    | false => exact hrest rt hf

theorem applyDeferred_tends {exits : List ClassifiedExit} (ho : rt.ledger.Open) (hb : rt.ledger.Books) (hf : rt.Fit)
    (hd : Deferred rt.ledger exits) : Act.Runs Tends (applyDeferred exits) rt fun _ _ => True := by
  let I : List ClassifiedExit → SupervisorRuntime → Prop := fun rest rt =>
    (rt.ledger.Open ∧ rt.ledger.Books ∧ Deferred rt.ledger rest) ∧ rt.Fit
  refine (Act.runs_forEach (I := I) ?_ exits rt ⟨⟨ho, hb, hd⟩, hf⟩).weaken fun _ _ _ => trivial
  intro c rest rt ⟨⟨ho, hb, hd⟩, hf⟩
  have htends : Act.Runs Tends (do
      let rt ← Act.get
      if rt.currentChildMatches c.key c.lineage c.generation then applyExitPolicy c else pure () : RuntimeM Unit) rt
        fun _ _ => True := by
    refine Act.runs_get ?_
    split
    · rename_i hm
      refine applyExitPolicyInner_tends c true hf fun e he _ => noTask_of_inactive hb he ?_
      have := (exited_of_pending (hd.1 c (List.mem_cons_self ..)) hm e he).2.2.1
      rw [this]
      rfl
    · exact Act.runs_pure trivial
  exact ⟨htends.1, fun a rt' hok => ⟨(deferredExit_runs ho hb hd).2 a rt' hok, (hf.runs htends).2 a rt' hok⟩⟩

theorem finishRestart_tends {keys : List ChildKey} (freshGroupToken : Bool) {completed : List ClassifiedExit}
    (hb : rt.ledger.Books) (ho : rt.ledger.Open) (hf : rt.Fit) (hn : keys.Nodup) (hi : ∀ k ∈ keys, Inactive rt.ledger k)
    (hd : Deferred rt.ledger completed) : Act.Runs Tends (finishRestart keys freshGroupToken completed) rt fun _ _ => True := by
  unfold finishRestart
  have hrespawn := respawnGroup_tends freshGroupToken completed hb hf hi
  have hdefers := respawnGroup_defers freshGroupToken hb ho hn hi hd
  refine Act.runs_bind ⟨hrespawn.1, fun a rt₁ h₁ => And.intro (hdefers.2 a rt₁ h₁) ((hf.runs hrespawn).2 a rt₁ h₁)⟩ ?_
  intro deferred rt₁ _ ⟨⟨ho₁, hb₁, hd₁⟩, hf₁⟩
  cases freshGroupToken with
  | true => exact Act.runs_pure trivial
  | false => exact applyDeferred_tends ho₁ hb₁ hf₁ hd₁

/-! ## Commands -/

/-- While its membership is not active, no task of it appears. -/
theorem Tends.noTask {e' : ChildEntry} (h : Tends rt rt') (hs : rt.desk.Sound) (he : rt.children.get key = some e)
    (hm : e.membership ≠ .active) (hn : rt.NoTask e.lineage) (he' : rt'.children.get key = some e')
    (hp : e'.pendingRemoval.isSome = true) : rt'.NoTask e'.lineage := by
  obtain ⟨s, hs₀, hl, -⟩ := h.pending key e'.slot (desk_get he') hp
  have heq : some s = some e.slot := hs₀.symm.trans (desk_get he)
  cases heq
  have hl : e.lineage = e'.lineage := hl
  intro task t ht heq
  rcases h.records task t ht with ht | hsp | ⟨k, x, hx, hxl, hxm⟩
  · exact hn task t ht (heq.trans hl.symm)
  · have := hs.lineage_lt key e.slot (desk_get he)
    have : e.lineage < rt.desk.nextLineage := this
    omega
  · have hk : k = key := hs.lineage_inj k x key e.slot hx (desk_get he) (hxl.trans (heq.trans hl.symm))
    rw [hk, desk_get he] at hx
    cases hx
    exact hm hxm

/-- The command is refused at once. -/
theorem attends_refuse {id : String} {expectedLineage : Option Nat} {reply : Nat} {rest : List SupervisorCommand}
    {x : Except ControlError Unit} (hc : rt.commandRx = .removeChild id expectedLineage reply :: rest) (hok : x ≠ .ok ())
    (hu : x ≠ .error .unavailable) :
    Attends rt.desk ({ rt with commandRx := rest }.notify (.removeReply reply x none)).desk := by
  have h := Attends.take (D := rt.desk) [(reply, x, none)] hc (.inr ⟨id, expectedLineage, reply, x, rfl, rfl, hok, hu⟩)
  refine h.trans (Attends.of_eq ?_)
  simp [desk, notify, List.filterMap_append, Notice.reply, Notice.retires]

/-- The child becomes `Removing`, with the reply parked in its entry. -/
theorem attends_beginRemoval {id : String} {expectedLineage : Option Nat} {reply : Nat} {rest : List SupervisorCommand}
    (hf : rt.Fit) (hc : rt.commandRx = .removeChild id expectedLineage reply :: rest) (he : rt.children.get key = some e)
    (hm : e.membership ≠ .removing) (hid : e.id = id) (hl : ∀ l, expectedLineage = some l → l = e.lineage) :
    Attends rt.desk ({ rt with commandRx := rest }.beginRemoval key reply).desk := by
  have hnone : e.pendingRemoval = none := hf.not_pending he hm
  let p : PendingRemoval :=
    { reply := reply, policy := e.runtime.definition.shutdownPolicy,
      graceDeadline := rt.now + (e.runtime.definition.shutdownPolicy.grace.getD 0),
      graceExpired := false, hardAbortDeadline := none }
  let s' : Slot := { e.slot with membership := .removing, pending := some p }
  have hput : Attends rt.desk { rt.desk with slots := rt.desk.slots.insertAt key s', commands := rest } := by
    refine Attends.put [.removeChild id expectedLineage reply] (desk_get he) rfl rfl rfl nofun
      (fun _ => ⟨fun _ => rfl, fun _ => rfl⟩) hc ?_ ?_
    · intro r
      have : e.slot.pending = none := hnone
      by_cases hr : reply = r
      · simp [Slot.holds, this, SupervisorCommand.asks, s', p, hr]
      · simp [Slot.holds, this, SupervisorCommand.asks, s', p, hr]
    · intro q hq
      cases hq
      refine .inr ⟨expectedLineage, ?_, hl⟩
      show .removeChild e.id expectedLineage reply ∈ rt.commandRx
      rw [hc, hid]
      exact List.mem_cons_self ..
  refine hput.trans (Attends.still (fun k => ?_) rfl rfl rfl (fun _ _ h => .inl h) (fun _ h => .inl h) (fun _ h => h)
    fun _ h => h)
  show ((rt.children.modify key _).map _).get k = (rt.desk.slots.insertAt key s').get k
  rw [Slab.get_map, Slab.get_modify, Slab.get_insertAt]
  by_cases hk : k = key
  · rw [if_pos hk, if_pos hk, hk, he]
    rfl
  · rw [if_neg hk, if_neg hk]
    rfl

theorem get_beginRemoval (reply : Nat) (he : rt.children.get key = some e) :
    ∃ e', (rt.beginRemoval key reply).children.get key = some e' ∧ e'.lineage = e.lineage ∧ e'.membership = .removing ∧
      (e.runtime.state.isActive = true → e'.runtime.state.isActive = true) := by
  refine ⟨_, get_edit he, rfl, rfl, fun ha => ?_⟩
  simp only [ha, if_true]
  rfl

/-- The rest of a removal, once the reply is parked. -/
def stopRemoved (key : ChildKey) (lineage : Nat) (active abort : Bool) : RuntimeM Unit := do
  if active then
    if abort then Act.modify (·.abortChild key)
    else Act.modify (·.cancelChild key)
  detachStartMember key lineage
  if active then pure () else Act.modify (·.finalizeRemovedChild key false)

theorem stopRemoved_tends (active : Bool) (abort : Bool) (hs : rt.desk.Sound) (he : rt.children.get key = some e)
    (hm : e.membership ≠ .active) (hn : active = false → rt.NoTask e.lineage) :
    Act.Runs Tends (stopRemoved key e.lineage active abort) rt fun _ _ => True := by
  cases active with
  | true =>
    have hend : ∀ rt' : SupervisorRuntime, Act.Runs Tends (do
        detachStartMember key e.lineage
        if true then pure () else Act.modify (·.finalizeRemovedChild key false) : RuntimeM Unit) rt' fun _ _ => True :=
      fun rt' => Act.runs_bind (detachStartMember_tends _ _) fun _ _ _ _ => Act.runs_pure trivial
    cases abort with
    | true => exact Act.runs_modify_bind (tends_abortChild key) (hend _)
    | false => exact Act.runs_modify_bind (tends_cancelChild key) (hend _)
  | false =>
    refine Act.runs_bind (detachStartMember_tends _ _) fun _ rt' ht _ => ?_
    refine Act.runs_modify (tends_finalizeRemovedChild false (ht.sound hs) fun e' he' hp => ?_) trivial
    exact ht.noTask hs he hm (hn rfl) he' hp

/-- What handling a command taken from the queue comes to. -/
def Takes (rest : List SupervisorCommand) (rt rt' : SupervisorRuntime) : Prop := Attends rt.desk rt'.desk ∧ rt'.commandRx = rest

theorem Takes.tends {rt₁ : SupervisorRuntime} {rest : List SupervisorCommand} (h : Takes rest rt rt₁) (ht : Tends rt₁ rt') :
    Takes rest rt rt' :=
  ⟨h.1.trans ht.toAttends, ht.commands_eq.trans h.2⟩

/-- What `remove_child` does with a command: refuse it, or park its reply and stop the child. -/
inductive Removal (rt rt₀ : SupervisorRuntime) (id : String) (expectedLineage : Option Nat) (reply : Nat) :
    Except ExitReason Unit × SupervisorRuntime → Prop
  | refused {x : Except ControlError Unit} : x ≠ .ok () → x ≠ .error .unavailable →
      Removal rt rt₀ id expectedLineage reply (.ok (), rt₀.notify (.removeReply reply x none))
  | begun {key : ChildKey} {e : ChildEntry} : rt.children.get key = some e → rt.childrenById id = some key →
      (∀ l, expectedLineage = some l → l = e.lineage) → e.membership ≠ .removing →
      Removal rt rt₀ id expectedLineage reply
        (stopRemoved key e.lineage e.runtime.state.isActive e.runtime.definition.shutdownPolicy.isAbort
          (rt₀.beginRemoval key reply).publishSnapshot)

theorem removeChild_removal {rt₀ : SupervisorRuntime} (id : String) (expectedLineage : Option Nat) (reply : Nat)
    (hc : rt₀.children = rt.children) (hi : rt₀.childrenById = rt.childrenById) :
    Removal rt rt₀ id expectedLineage reply (removeChild id expectedLineage reply rt₀) := by
  unfold removeChild
  rw [Act.run_get_bind, hc, hi]
  cases hfind : (rt.childrenById id).bind fun key => (rt.children.get key).map fun e => (key, e) with
  | none => exact .refused nofun nofun
  | some x =>
    obtain ⟨key, e⟩ := x
    obtain ⟨key', hid, hmap⟩ := Option.bind_eq_some_iff.mp hfind
    obtain ⟨e', he, hpair⟩ := Option.map_eq_some_iff.mp hmap
    cases hpair
    simp only
    split
    · exact .refused nofun nofun
    · rename_i hlin
      split
      · exact .refused nofun nofun
      · rename_i hm
        refine .begun he hid (fun l hl => ?_) hm
        subst hl
        by_contra hne
        exact hlin (by simpa using fun h => hne h.symm)

/-- The reply is parked; what follows is calm. -/
theorem begunRemoval_tends {id : String} {expectedLineage : Option Nat} {reply : Nat} {rest : List SupervisorCommand}
    (hb : rt.ledger.Books) (hf : rt.Fit) (hc : rt.commandRx = .removeChild id expectedLineage reply :: rest)
    (he : rt.children.get key = some e) (hid : rt.childrenById id = some key)
    (hl : ∀ l, expectedLineage = some l → l = e.lineage) (hm : e.membership ≠ .removing) :
    let rt₁ := ({ rt with commandRx := rest }.beginRemoval key reply).publishSnapshot
    Takes rest rt rt₁ ∧ Tends rt₁
      (stopRemoved key e.lineage e.runtime.state.isActive e.runtime.definition.shutdownPolicy.isAbort rt₁).2 := by
  intro rt₁
  have heid : e.id = id := by
    obtain ⟨m, hget, hmid⟩ := (hb.byId_iff id key).mp hid
    have : some m = some e.member := hget.symm.trans (ledger_get he)
    cases this
    exact hmid
  have h₁ : Takes rest rt rt₁ := ⟨(attends_beginRemoval hf hc he hm heid hl).trans tends_publish.toAttends, rfl⟩
  obtain ⟨e₁, he₁, hl₁, hm₁, -⟩ := @get_beginRemoval { rt with commandRx := rest } key e reply he
  have hrun := stopRemoved_tends e.runtime.state.isActive e.runtime.definition.shutdownPolicy.isAbort
    (h₁.1.sound hf.sound) he₁ (by rw [hm₁]; nofun) fun ha => by
      rw [hl₁]
      intro task t ht
      exact noTask_of_inactive hb he ha task t ht
  rw [hl₁] at hrun
  exact ⟨h₁, hrun.1⟩

theorem removeChild_takes {id : String} {expectedLineage : Option Nat} {reply : Nat} {rest : List SupervisorCommand}
    (hb : rt.ledger.Books) (hf : rt.Fit) (hc : rt.commandRx = .removeChild id expectedLineage reply :: rest) :
    Takes rest rt (removeChild id expectedLineage reply { rt with commandRx := rest }).2 := by
  have hr := @removeChild_removal rt { rt with commandRx := rest } id expectedLineage reply rfl rfl
  generalize removeChild id expectedLineage reply { rt with commandRx := rest } = out at hr
  cases hr with
  | refused hok hu => exact ⟨attends_refuse hc hok hu, rfl⟩
  | begun he hid hl hm =>
    obtain ⟨htake, ht⟩ := begunRemoval_tends hb hf hc he hid hl hm
    exact htake.tends ht

/-- The same for a command that asks for no removal. -/
def Admits (rest : List SupervisorCommand) (rt rt' : SupervisorRuntime) : Prop := Takes rest rt rt' ∧ Recalls rt rt'

theorem Admits.tends {rt₁ : SupervisorRuntime} {rest : List SupervisorCommand} (h : Admits rest rt rt₁) (hf : rt.Fit)
    (ht : Tends rt₁ rt') : Admits rest rt rt' :=
  ⟨h.1.tends ht, h.2.trans (ht.recalls (hf.attends h.1.1))⟩

theorem admits_command {command : SupervisorCommand} {rest : List SupervisorCommand} (hc : rt.commandRx = command :: rest)
    (hno : ∀ r, command.asks r = false) : Admits rest rt { rt with commandRx := rest } := by
  refine ⟨⟨(Attends.take (D := rt.desk) [] hc (.inl ⟨hno, rfl⟩)).trans (Attends.of_eq ?_), rfl⟩, fun _ e he hm => ⟨e, he, rfl, hm⟩⟩
  simp [desk]

theorem admits_insertEntry {command : SupervisorCommand} {rest : List SupervisorCommand} {d : ChildDefinition}
    {nested : Option StableChannels} (hc : rt.commandRx = command :: rest)
    (hseat : command.seats d.id (if d.kind.isSupervisor then nested.map (·.identity) else none)) :
    Admits rest rt ({ rt with commandRx := rest }.insertEntry d nested) := by
  have hget : rt.desk.slots.get (rt.cfg.host.slabKey rt.children.keys) = none := by
    simp [desk, slabKey_fresh rt]
  let entry := ChildEntry.new d.id d nested rt.nextLineage (rt.cfg.host.seed rt.nextLineage)
  have hentered := Attends.admit (s := entry.slot) (D := rt.desk) hc hseat hget rfl rfl rfl
  refine ⟨⟨hentered.trans (Attends.still (fun k => ?_) rfl rfl rfl (fun _ _ h => .inl h) (fun _ h => .inl h) (fun _ h => h)
    fun _ h => h), rfl⟩, fun k e' he' hm => ?_⟩
  · show ((rt.children.insertAt _ entry).map _).get k = (rt.desk.slots.insertAt _ entry.slot).get k
    rw [Slab.get_map, Slab.get_insertAt, Slab.get_insertAt]
    by_cases hk : k = rt.cfg.host.slabKey rt.children.keys
    · rw [if_pos hk, if_pos hk]
      rfl
    · rw [if_neg hk, if_neg hk]
      rfl
  · have he' : (rt.children.insertAt _ entry).get k = some e' := he'
    rw [Slab.get_insertAt] at he'
    split at he'
    · cases he'
      cases hm
    · exact ⟨e', he', rfl, hm⟩

theorem installChild_admits {command : SupervisorCommand} {rest : List SupervisorCommand} {d : ChildDefinition}
    {nested : Option StableChannels} (hf : rt.Fit) (hc : rt.commandRx = command :: rest)
    (hseat : command.seats d.id (if d.kind.isSupervisor then nested.map (·.identity) else none)) :
    Admits rest rt (installChild d nested { rt with commandRx := rest }).2 := by
  let rt₁ := { rt with commandRx := rest }.insertEntry d nested
  let rt₂ := rt₁.notifyNested d.id nested
  have h₂ : Admits rest rt (rt₂.sendLifecycle (rt.cfg.host.slabKey rt.children.keys) .added) := by
    refine Admits.tends (admits_insertEntry hc hseat) hf ?_
    refine Tends.trans ?_ (tends_sendLifecycle _ _)
    cases nested with
    | none => exact .rfl
    | some channels => exact tends_notify rfl
  refine h₂.tends hf ?_
  exact (Act.runs_bind (k := fun _ => pure rt.nextLineage) (S := fun _ _ => True)
    (Act.runs_mapError (scheduleStartSequence_tends _ _ (hf.attends h₂.1.1))) fun _ _ _ _ => Act.runs_pure trivial).1

theorem admits_completeCommand {m : CommandM Nat} {rest : List SupervisorCommand} (reply : Nat)
    (hf : rt.Fit) (h : Admits rest rt (m { rt with commandRx := rest }).2) :
    Admits rest rt (completeCommand reply m { rt with commandRx := rest }).2 := by
  unfold completeCommand
  generalize m { rt with commandRx := rest } = q at h
  obtain ⟨r, rt₁⟩ := q
  cases r with
  | ok lineage => exact h.tends hf (tends_notify rfl)
  | error failure =>
    obtain ⟨error, exit⟩ := failure
    cases exit with
    | none => exact h.tends hf (tends_notify rfl)
    | some _ => exact h.tends hf (tends_notify rfl)

theorem addChild_admits {child : ChildDefinition} {isTask : child.kind.isSupervisor = false} {reply : Nat}
    {rest : List SupervisorCommand} (hf : rt.Fit) (hc : rt.commandRx = .addChild child isTask reply :: rest) :
    Admits rest rt (addChild child { rt with commandRx := rest }).2 := by
  suffices h : Act.Runs (fun _ rt' => Admits rest rt rt') (addChild child) { rt with commandRx := rest } fun _ _ => True from h.1
  unfold addChild
  refine Act.runs_get ?_
  simp only
  split
  · exact ⟨admits_command hc fun _ => rfl, fun _ _ _ => trivial⟩
  · refine ⟨installChild_admits hf hc ⟨rfl, ?_⟩, fun _ _ _ => trivial⟩
    have hkind : (child.applyDefaults rt.cfg.defaultChildRestart rt.cfg.defaultChildShutdown).kind.isSupervisor = false := isTask
    simp only [hkind]
    rfl

theorem addNested_admits {child : ChildDefinition} {isNested : child.kind.isSupervisor = true} {reply : Nat}
    {rest : List SupervisorCommand} (hf : rt.Fit) (hc : rt.commandRx = .addNested child isNested reply :: rest) :
    Admits rest rt (addNested child { rt with commandRx := rest }).2 := by
  have htake : Admits rest rt { rt with commandRx := rest } := admits_command hc fun _ => rfl
  suffices h : Act.Runs (fun _ rt' => Admits rest rt rt') (addNested child) { rt with commandRx := rest } fun _ _ => True from h.1
  unfold addNested
  refine Act.runs_get ?_
  simp only
  split
  · exact ⟨htake.tends hf (tends_notify rfl), fun _ _ _ => trivial⟩
  · exact ⟨htake, fun _ _ _ => trivial⟩
  · rename_i channels _ hkind
    refine ⟨installChild_admits hf hc ⟨rfl, channels, hkind, ?_⟩, fun _ _ _ => trivial⟩
    rw [hkind]
    rfl
  · exact ⟨htake, fun _ _ _ => trivial⟩

theorem handleCommand_takes (command : SupervisorCommand) {rest : List SupervisorCommand} (hb : rt.ledger.Books)
    (hf : rt.Fit) (hc : rt.commandRx = command :: rest) :
    Takes rest rt (handleCommand command { rt with commandRx := rest }).2 := by
  cases command with
  | addChild child isTask reply => exact (admits_completeCommand reply hf (addChild_admits hf hc)).1
  | removeChild id expectedLineage reply => exact removeChild_takes hb hf hc
  | addNested child isNested reply => exact (admits_completeCommand reply hf (addNested_admits hf hc)).1

end SupervisorRuntime

end Kokage.Supervisor
