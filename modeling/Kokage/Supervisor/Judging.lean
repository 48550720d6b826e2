/-
  Kokage.Supervisor.Judging — each handler keeps what its publications give away.

  A handler publishes in the middle of its work, so that the lane it leaves is not enough:
  every snapshot on the way must be of a sound lane. The proofs follow the handlers step
  by step, as `Kokage.Supervisor.Handlers` does for the lane at the end, and use those
  equations for it.
-/

import Kokage.Supervisor.Verdict
import Kokage.Supervisor.Startup

namespace Kokage.Supervisor

open Kokage.Lib SupervisorRuntime Lane

variable {S₀ : Nat → Turn → Prop} {D : List ClassifiedExit} {rt rt' : SupervisorRuntime} {key : ChildKey} {e : ChildEntry}

/-! ## Starting children -/

theorem Judged.afterSpawn (h : Judged S₀ D rt) (he : rt.children.get key = some e) (hno : ∀ item ∈ rt.lane.queue, item.key ≠ key)
    (hmay : MaySpawn (rt.Given S₀) e.post) : Judged S₀ D (rt.afterSpawn key e) := by
  let rt₁ : SupervisorRuntime :=
    { rt with spawnedFrom := rt.spawnedFrom ++ [e.runtime.state] }.installTask key (rt.prepareSpawn key e)
  have h₁ : Judged S₀ D rt₁ := by
    refine h.move rfl ?_
    rw [show rt₁.lane = rt.lane.put key e.post.spawn from lane_installTask key e]
    exact h.put_spawn (lane_get he) hno hmay
  unfold SupervisorRuntime.afterSpawn
  simp only
  split
  · exact (h₁.sendLifecycle key _).publish
  · exact h₁.publish

theorem Judged.completeEmptyStartupGate (h : Judged S₀ D rt) : Judged S₀ D rt.completeEmptyStartupGate := by
  refine h.move (congrArg Ledger.published ledger_completeEmptyStartupGate) ?_
  rw [lane_completeEmptyStartupGate]
  split
  · exact h.frame rfl rfl rfl rfl rfl (List.Sublist.refl _) id
  · exact h.toSound

theorem Judged.startupMemberReady (h : Judged S₀ D rt) (key : ChildKey) (lineage : Nat) :
    Judged S₀ D (rt.startupMemberReady key lineage) := by
  refine h.move (congrArg Ledger.published (ledger_startupMemberReady key lineage)) ?_
  rw [lane_startupMemberReady]
  exact h.toSound.memberReady key lineage

theorem startupMemberAborted_judged (lineage : Nat) (h : Judged S₀ D rt) :
    Act.Keeps (startupMemberAborted key lineage) rt (Judged S₀ D) := by
  unfold startupMemberAborted
  refine Act.keeps_get ?_
  split
  · exact Act.keeps_modify_bind (Act.keeps_fail (h.notify rfl))
  · exact Act.keeps_pure h

theorem Judged.openGate (h : Judged S₀ D rt) : Judged S₀ D (rt.setGate none) := by
  refine h.move rfl ?_
  rw [lane_setGate]
  exact h.toSound.openGate

theorem spawnStartItem_judged {item : StartItem} (h : Judged S₀ D rt) (hno : ∀ i ∈ rt.lane.queue, i.key ≠ item.key)
    (hmay : ∀ p, rt.lane.posts item.key = some p → p.lineage = item.lineage → p.membership = .active →
      MaySpawn (rt.Given S₀) p) : Act.Keeps (spawnStartItem item) rt (Judged S₀ D) := by
  unfold spawnStartItem
  refine Act.keeps_get ?_
  cases he : rt.children.get item.key with
  | none => exact Act.keeps_pure h
  | some e =>
    simp only
    split
    · exact Act.keeps_pure h
    · rename_i hc
      simp only [Bool.or_eq_true, decide_eq_true_eq, not_or, ne_eq, Decidable.not_not] at hc
      have hget := lane_get he
      obtain ⟨old, hs⟩ := spawnChild_lane he (h.willing _ _ hget)
      have h₁ := h.afterSpawn he hno (hmay e.post hget hc.1.1 hc.1.2)
      refine Act.keeps_bind (Act.keeps_ok hs h₁) ?_
      intro r rt₁ hr
      rw [hs] at hr
      cases hr
      simp only
      split
      · exact Act.keeps_modify (h₁.move rfl
          (h₁.frame rfl rfl rfl rfl rfl (List.Sublist.refl _) id))
      · split
        · exact Act.keeps_modify (h₁.startupMemberReady _ _)
        · exact Act.keeps_pure h₁

theorem popQueue_judged (queue : List StartItem) (hq : rt.startQueue = queue) (h : Judged S₀ D rt) :
    Act.Keeps (popQueue queue) rt (Judged S₀ D) := by
  induction queue generalizing rt with
  | nil =>
    refine Act.keeps_modify (h.move rfl ?_)
    exact h.frame rfl rfl rfl rfl rfl (List.nil_sublist _) id
  | cons item rest ih =>
    let rt₁ : SupervisorRuntime := { rt with startSequence := rt.startSequence.map fun s => { s with queue := rest } }
    have hl : rt₁.lane = { rt.lane with queue := rest } := by
      unfold lane rt₁ startQueue startGate
      cases hs : rt.startSequence with
      | none => simp [startQueue, hs] at hq
      | some s => rfl
    have hqueue : rt.lane.queue = item :: rest := hq
    have h₁ : Judged S₀ D rt₁ := by
      refine h.move rfl ?_
      rw [hl]
      refine h.frame rfl rfl rfl rfl rfl ?_ id
      rw [hqueue]
      exact List.sublist_cons_self ..
    have hno : ∀ i ∈ rt₁.lane.queue, i.key ≠ item.key := by
      have hn := h.nodup
      rw [hqueue, List.map_cons, List.nodup_cons] at hn
      rw [hl]
      exact fun i hi he => hn.1 (he ▸ List.mem_map.mpr ⟨i, hi, rfl⟩)
    have hmay : ∀ p, rt₁.lane.posts item.key = some p → p.lineage = item.lineage → p.membership = .active →
        MaySpawn (rt₁.Given S₀) p := by
      intro p hp _ hm
      rw [hl] at hp
      exact h.mayPop hp ((h.queued item (hqueue ▸ List.mem_cons_self ..) p hp).2 hm)
    unfold popQueue
    refine Act.keeps_modify_bind (Act.keeps_bind (spawnStartItem_judged h₁ hno hmay) fun _ rt₂ hrun => Act.keeps_get ?_)
    have h₂ : Judged S₀ D rt₂ := (spawnStartItem_judged h₁ hno hmay).ok hrun
    split
    · exact Act.keeps_pure h₂
    · refine ih ?_ h₂
      obtain ⟨rt₃, hrun', hl₃⟩ := spawnStartItem_lane item h₁.willing
      cases hrun'.symm.trans hrun
      have hrest : rt₂.lane.queue = rest := by rw [hl₃, startItem_queue, hl]
      exact hrest

theorem passGate_judged (g : StartGate) (h : Judged S₀ D rt) : Act.Keeps (passGate g) rt (Judged S₀ D) := by
  unfold passGate
  refine Act.keeps_get ?_
  split
  · exact Act.keeps_pure h
  · exact Act.keeps_pure h
  · exact Act.keeps_pure h
  · exact Act.keeps_modify_bind (Act.keeps_modify_bind (Act.keeps_pure (h.openGate.startupMemberReady _ _)))
  · refine Act.keeps_modify_bind (Act.keeps_bind (startupMemberAborted_judged g.lineage h.openGate) fun _ rt' hrun => ?_)
    exact Act.keeps_pure ((startupMemberAborted_judged g.lineage h.openGate).ok hrun)
  · exact Act.keeps_modify_bind (Act.keeps_pure h.openGate)
  · exact Act.keeps_modify_bind (Act.keeps_pure h.openGate)

theorem advanceStartSequence_judged (h : Judged S₀ D rt) : Act.Keeps advanceStartSequence rt (Judged S₀ D) := by
  unfold advanceStartSequence
  refine Act.keeps_get ?_
  cases rt.startGate with
  | none => exact popQueue_judged rt.startQueue rfl h
  | some g =>
    refine Act.keeps_bind (passGate_judged g h) fun go rt' hrun => ?_
    have h' := (passGate_judged g h).ok hrun
    rcases (passGate_lane g).of_ok hrun with ⟨rfl, rfl, -⟩ | ⟨rfl, -, hl⟩
    · exact Act.keeps_pure h
    · refine popQueue_judged rt.startQueue ?_ h'
      have hqueue : rt'.lane.queue = rt.lane.queue := by
        rw [hl]
        split
        · rw [memberReady_queue]
          rfl
        · rfl
      exact hqueue

theorem Judged.removeStartSequenceMember (h : Judged S₀ D rt) (key : ChildKey) (lineage : Nat) :
    Judged S₀ D (rt.removeStartSequenceMember key lineage).2 := by
  refine h.move ?_ ?_
  · unfold SupervisorRuntime.removeStartSequenceMember
    split <;> rfl
  · rw [(@lane_removeStartSequenceMember rt key lineage).1]
    exact h.detach key lineage

theorem detachStartMember_judged (lineage : Nat) (h : Judged S₀ D rt) :
    Act.Keeps (detachStartMember key lineage) rt (Judged S₀ D) := by
  have h₁ := (h.removeStartSequenceMember key lineage).startupMemberReady key lineage
  unfold detachStartMember
  refine Act.keeps_get ?_
  generalize rt.removeStartSequenceMember key lineage = r at h₁
  obtain ⟨cleared, rt₁⟩ := r
  refine Act.keeps_modify_bind ?_
  cases cleared with
  | false => exact Act.keeps_pure h₁
  | true => exact advanceStartSequence_judged h₁

theorem terminalStartMember_judged (lineage : Nat) (h : Judged S₀ D rt) :
    Act.Keeps (terminalStartMember key lineage) rt (Judged S₀ D) := by
  have h₁ : Act.Keeps (startupMemberAborted key lineage) (rt.removeStartSequenceMember key lineage).2 (Judged S₀ D) :=
    startupMemberAborted_judged lineage (h.removeStartSequenceMember key lineage)
  unfold terminalStartMember
  refine Act.keeps_get ?_
  generalize rt.removeStartSequenceMember key lineage = r at h₁
  obtain ⟨cleared, rt₁⟩ := r
  refine Act.keeps_modify_bind (Act.keeps_bind h₁ fun _ rt₂ hrun => ?_)
  cases cleared with
  | false => exact Act.keeps_pure (h₁.ok hrun)
  | true => exact advanceStartSequence_judged (h₁.ok hrun)

theorem handleChildReady_judged (r : ChildReady) (h : Judged S₀ D rt) : Act.Keeps (handleChildReady r) rt (Judged S₀ D) := by
  unfold handleChildReady
  refine Act.keeps_get ?_
  cases he : rt.children.get r.key with
  | none => exact Act.keeps_pure h
  | some e =>
    simp only
    split
    · exact Act.keeps_pure h
    · rename_i hc
      simp only [Bool.or_eq_true, decide_eq_true_eq, not_or, ne_eq, Decidable.not_not] at hc
      have hst : e.post.state = .starting := hc.2
      have hact : e.post.state.isActive = true := by
        rw [hst]
        rfl
      have h₁ : Judged S₀ D (rt.editRuntime r.key fun r => { r with state := .running, hasReportedReady := true }) :=
        h.edit he (h.put_active (lane_get he) hact rfl rfl rfl rfl rfl rfl (fun hd => ⟨hd, rfl⟩) fun hs => by cases hs)
      have h₂ := ((h₁.sendLifecycle r.key (.started r.generation)).publish).startupMemberReady r.key r.lineage
      refine Act.keeps_modify_bind (Act.keeps_modify_bind (Act.keeps_modify_bind (Act.keeps_get ?_)))
      split
      · exact Act.keeps_modify_bind (advanceStartSequence_judged h₂.openGate)
      · exact Act.keeps_pure h₂

/-! ## Exits -/

theorem Judged.markChildTerminal (h : Judged S₀ D rt) (key : ChildKey) : Judged S₀ D (rt.markChildTerminal key) :=
  h.quiet (ledger_markChildTerminal key) (lane_markChildTerminal key)

theorem Judged.finalizeRemovedChild (h : Judged S₀ D rt) (key : ChildKey) (checkElapsedGrace : Bool) :
    Judged S₀ D (rt.finalizeRemovedChild key checkElapsedGrace) := by
  unfold SupervisorRuntime.finalizeRemovedChild
  split
  · exact h
  · rename_i entry he
    have hdrop : Judged S₀ D (rt.dropEntry key entry) := by
      refine h.move rfl ?_
      rw [lane_dropEntry]
      have hd := h.toSound.drop key
      unfold Lane.drop at hd
      rw [lane_get he] at hd
      exact hd.frame rfl rfl rfl rfl rfl (List.Sublist.refl _) id
    have h₁ : Judged S₀ D (((rt.dropEntry key entry).clearCell entry).retireNested entry) :=
      hdrop.quiet (ledger_retireNested.trans ledger_clearCell) (lane_retireNested.trans lane_clearCell)
    obtain ⟨d, hd⟩ : ∃ d, rt.lifecycleDraft key .removed = some d := by simp [lifecycleDraft, he]
    have h₂ := (h₁.sendLifecycleDraft d).publish
    simp only [hd]
    split
    · exact h₂.notify rfl
    · exact h₂

theorem Judged.flagged (h : Judged S₀ D rt) (key : ChildKey) :
    Judged S₀ D (rt.editRuntime key fun r => { r with startupAborted := true }).publishSnapshot :=
  Judged.publish (h.still rfl (lane_edit_quiet fun _ _ => rfl))

theorem removeTerminal_judged (lineage : Nat) (startupAborted : Bool) (h : Judged S₀ D rt) :
    Act.Keeps (removeTerminal key lineage startupAborted) rt (Judged S₀ D) := by
  unfold removeTerminal Act.Keeps
  cases startupAborted with
  | false => exact h.finalizeRemovedChild key false
  | true => exact Judged.finalizeRemovedChild (terminalStartMember_judged lineage h) key false

theorem keepTerminal_judged (startupAborted : Bool) (h : Judged S₀ D rt) :
    Act.Keeps (keepTerminal key e startupAborted) rt (Judged S₀ D) := by
  have hstart : ∀ rt₁, Judged S₀ D rt₁ →
      Act.Keeps (if startupAborted then terminalStartMember key e.lineage else pure ()) rt₁ (Judged S₀ D) := by
    intro rt₁ h₁
    split
    · exact terminalStartMember_judged e.lineage h₁
    · exact Act.keeps_pure h₁
  unfold keepTerminal
  refine Act.keeps_get ?_
  simp only
  by_cases hf : rt.stopIsFinal key e.runtime.definition.restart = true
  · rw [if_pos hf]
    exact Act.keeps_modify_bind (k := fun _ => if startupAborted then terminalStartMember key e.lineage else pure ())
      (hstart _ (h.markChildTerminal key))
  · rw [if_neg hf]
    exact hstart rt h

theorem terminalExit_judged (h : Judged S₀ D rt) : Act.Keeps (terminalExit key e) rt (Judged S₀ D) := by
  have hgo : ∀ rt₁, Judged S₀ D rt₁ →
      Act.Keeps (if e.runtime.definition.removeOnTerminalExit then removeTerminal key e.lineage !e.runtime.hasReportedReady
        else keepTerminal key e !e.runtime.hasReportedReady) rt₁ (Judged S₀ D) := by
    intro rt₁ h₁
    split
    · exact removeTerminal_judged e.lineage _ h₁
    · exact keepTerminal_judged _ h₁
  unfold terminalExit
  simp only
  split
  · exact Act.keeps_modify_bind (hgo _ (h.flagged key))
  · exact hgo rt h

theorem scheduleRestart_judged (h : Judged S₀ D rt) (he : rt.children.get key = some e)
    (hm : e.membership ≠ .removing) (hrun : rt.state = .running) (hwants : e.post.wantsRestart = true) :
    Act.Keeps (scheduleRestart key) rt (Judged S₀ D) := by
  have hl : (rt.restartRecorded key).lane = ({ rt with totalRestarts := rt.totalRestarts + 1 } : SupervisorRuntime).lane :=
    lane_edit_quiet fun _ _ => rfl
  have h₁ : Judged S₀ D (rt.restartRecorded key) := h.still rfl hl
  unfold Act.Keeps
  rw [scheduleRestart_eq _ he rfl]
  split
  · exact h₁.sendSupervisorEvent _
  · refine h₁.edit (restartRecorded_get he) ?_
    exact h₁.reschedule (lane_get (restartRecorded_get he)) (decide_eq_true hrun) hm hwants

theorem applyExitPolicy_judged (c : ClassifiedExit) (h : Judged S₀ D rt)
    (hx : ∀ p, rt.lane.posts c.key = some p → p.lastExit = some c.status.view) :
    Act.Keeps (applyExitPolicy c) rt (Judged S₀ D) := by
  unfold applyExitPolicy applyExitPolicyInner
  refine Act.keeps_get ?_
  split
  · exact Act.keeps_pure h
  · rename_i hrun
    cases he : rt.children.get c.key with
    | none => exact Act.keeps_pure h
    | some e =>
      simp only
      split
      · exact Act.keeps_modify (h.finalizeRemovedChild c.key false)
      · rename_i hm
        split
        · rename_i hr
          have hwants : e.post.wantsRestart = true := by
            unfold Post.wantsRestart
            rw [hx e.post (lane_get he), Option.any_some, RuntimeExitStatus.isFailure_view]
            rw [Bool.true_and] at hr
            exact hr
          have h₁ := scheduleRestart_judged h he hm (by simpa using hrun) hwants
          exact Act.keeps_bind h₁ fun delay rt' hs => Act.keeps_modify ((h₁.ok hs).sendLifecycle _ _)
        · split
          · exact terminalExit_judged h
          · exact Act.keeps_pure h

theorem Judged.recordExit (h : Judged S₀ D rt) (he : rt.children.get key = some e) (hact : e.runtime.state.isActive = true)
    (generation : Nat) (status : RuntimeExitStatus) : Judged S₀ D (rt.recordExit key generation status) := by
  have h₁ : Judged S₀ D (rt.edit key (recordExitEntry rt.now status)) :=
    h.edit he (h.put_exit (lane_get he) hact status.view)
  exact (h₁.sendLifecycle key _).publish

/-- Whoever the books have a task for is active. -/
theorem active_of_books {task : TaskId} {t : TaskMeta} (hb : rt.ledger.Books) (ht : rt.taskMap task = some t)
    (he : rt.children.get t.key = some e) (hl : e.lineage = t.lineage) : e.runtime.state.isActive = true := by
  have hrec := (hb.record_task task t t.key e.member ht (ledger_get he) hl).2.2
  have ha := hb.active_iff t.key e.member (ledger_get he)
  rw [hrec] at ha
  exact ha

theorem handleJoinedChild_judged (task : TaskId) (c : Conclusion) (hb : rt.ledger.Books) (h : Judged S₀ D rt) :
    Act.Keeps (handleJoinedChild task c) rt (Judged S₀ D) := by
  have hc := @consumeJoinedChild_cases rt task c
  unfold handleJoinedChild Act.Keeps
  rw [Act.run_bind]
  generalize consumeJoinedChild task c rt = r at hc
  obtain ⟨r, rt₁⟩ := r
  cases hc with
  | lost _ => exact h.still rfl rfl
  | stale _ _ => exact h.still rfl rfl
  | @current t e status ht he hl hg =>
    let rt₁ : SupervisorRuntime := { rt.unlinked task with liveTasks := rt.liveTasks - 1 }
    have he₁ : rt₁.children.get t.key = some e := he
    have h₁ : Judged S₀ D rt₁ := h.still rfl rfl
    have h₂ := h₁.recordExit he₁ (active_of_books hb ht he hl) t.generation status
    refine applyExitPolicy_judged ⟨t.key, t.lineage, t.generation, status⟩ h₂ fun p hp => ?_
    rw [lane_recordExit t.generation status he₁, exit_get (lane_get he₁), if_pos rfl] at hp
    cases hp
    rfl

/-! ## Restarts -/

theorem restartOne_judged (h : Judged S₀ D rt) : Act.Keeps (SupervisorRuntime.restartOne key) rt (Judged S₀ D) := by
  unfold SupervisorRuntime.restartOne
  refine Act.keeps_get ?_
  cases he : rt.children.get key with
  | none => exact Act.keeps_pure h
  | some e =>
    simp only
    split
    · exact Act.keeps_pure h
    · rename_i hc
      simp only [Bool.or_eq_true, decide_eq_true_eq, not_or, ne_eq, Decidable.not_not] at hc
      obtain ⟨⟨hm, hst⟩, hdue⟩ := hc
      have hget := lane_get he
      have hdue : e.post.due = true := by
        show e.runtime.nextRestartDeadline.isSome = true
        exact Option.isSome_iff_ne_none.mpr (by simpa using hdue)
      have hno : ∀ item ∈ rt.lane.queue, item.key ≠ key := h.notQueued hget hm (by
        show e.runtime.state ≠ .startQueued
        rw [hst]
        decide)
      have hmay : MaySpawn (rt.Given S₀) e.post := h.mayRestart hget hdue
      let rt₁ := rt.editRuntime key fun r => { r with nextRestartDeadline := none }
      let e₁ : ChildEntry := { e with runtime := { e.runtime with nextRestartDeadline := none } }
      have he₁ : rt₁.children.get key = some e₁ := get_edit he
      have h₁ : Judged S₀ D rt₁ := h.edit he (h.unschedule hget)
      have h₂ := h₁.afterSpawn he₁ hno ⟨hmay.unsealed, hmay.fresh⟩
      obtain ⟨old, hs⟩ := spawnChild_lane he₁ (h.willing key e.post hget)
      refine Act.keeps_modify_bind (Act.keeps_bind (Act.keeps_ok hs h₂) ?_)
      intro r rt₂ hr
      cases hs.symm.trans hr
      refine Act.keeps_modify_bind (Act.keeps_get ?_)
      have h₃ : Judged S₀ D { rt₁.afterSpawn key e₁ with startSequence := (rt₁.afterSpawn key e₁).startSequence.map fun s =>
          { s with gate := s.gate.map fun g =>
              if g.key = key && g.lineage = e.lineage then { g with generation := e₁.post.spawn.generation } else g } } := by
        refine h₂.move rfl ?_
        rw [lane_mapGate]
        exact h₂.frame rfl rfl rfl rfl rfl (List.Sublist.refl _) id
      split
      · exact advanceStartSequence_judged h₃
      · exact Act.keeps_pure h₃

theorem finalizeSkippedGroupRespawn_judged (startupAborted : Bool) (h : Judged S₀ D rt) :
    Act.Keeps (finalizeSkippedGroupRespawn key startupAborted) rt (Judged S₀ D) := by
  have hend : ∀ rt₁, Judged S₀ D rt₁ → Act.Keeps (do
      let rt ← Act.get
      if (rt.children.get key).any (·.runtime.definition.removeOnTerminalExit) then
        Act.modify (·.finalizeRemovedChild key false)
      else Act.modify (·.markChildTerminal key) : RuntimeM Unit) rt₁ (Judged S₀ D) := by
    intro rt₁ h₁
    refine Act.keeps_get ?_
    split
    · exact Act.keeps_modify (h₁.finalizeRemovedChild key false)
    · exact Act.keeps_modify (h₁.markChildTerminal key)
  unfold finalizeSkippedGroupRespawn
  refine Act.keeps_get ?_
  cases startupAborted with
  | false => exact hend rt h
  | true =>
    have h₁ := @startupMemberAborted_judged S₀ D _ key (((rt.children.get key).map (·.lineage)).getD 0) (h.flagged key)
    exact Act.keeps_modify_bind (Act.keeps_bind h₁ fun _ rt' hrun => hend rt' (h₁.ok hrun))

/-! ## Scheduling -/

theorem scheduleStart_judged {emitRestartEvents : Bool} (h : Judged S₀ D rt) (hno : ∀ item ∈ rt.lane.queue, item.key ≠ key)
    (hmay : ∀ p, rt.lane.posts key = some p → p.membership = .active → MaySpawn (rt.Given S₀) p) (hD : ∀ c ∈ D, c.key ≠ key) :
    Act.Keeps (SupervisorRuntime.scheduleStart key emitRestartEvents) rt (Judged S₀ D) := by
  obtain ⟨rt', hrun, hl⟩ := scheduleStart_lane key emitRestartEvents h.willing
  by_cases hk : rt.cfg.kind = .dynamic
  · unfold SupervisorRuntime.scheduleStart
    refine Act.keeps_get ?_
    cases he : rt.children.get key with
    | none => exact Act.keeps_pure h
    | some e =>
      simp only [hk, if_true]
      split
      · exact Act.keeps_pure h
      · rename_i hc
        simp only [Bool.or_eq_true, decide_eq_true_eq, not_or, ne_eq, Decidable.not_not] at hc
        refine spawnStartItem_judged h hno fun p hp _ _ => ?_
        cases (lane_get he).symm.trans hp
        exact hmay e.post hp hc.1
  · -- an ordered scope only queues
    have hp : rt'.published = rt.published := by
      unfold SupervisorRuntime.scheduleStart at hrun
      rw [Act.run_get_bind] at hrun
      cases he : rt.children.get key with
      | none =>
        rw [he] at hrun
        cases hrun
        rfl
      | some e =>
        simp only [he, hk, if_false] at hrun
        split at hrun
        · cases hrun
          rfl
        · cases hrun
          rfl
    exact Act.keeps_ok hrun (h.move hp (hl ▸ h.toSound.scheduleStart hno hmay hD))

/-- One round of the loop. -/
theorem scheduleOne_judged {emitRestartEvents : Bool} (h : Judged S₀ D rt) (hno : ∀ item ∈ rt.lane.queue, item.key ≠ key)
    (hmay : ∀ p, rt.lane.posts key = some p → MaySchedule rt.lane emitRestartEvents key p) (hD : ∀ c ∈ D, c.key ≠ key) :
    Act.Keeps (match (if emitRestartEvents then rt.groupRespawnDisposition key else .respawn) with
        | .respawn => SupervisorRuntime.scheduleStart key emitRestartEvents
        | .skip => pure ()
        | .finalize startupAborted => finalizeSkippedGroupRespawn key startupAborted) rt (Judged S₀ D) := by
  cases emitRestartEvents with
  | false =>
    refine scheduleStart_judged h hno (fun p hp _ => ⟨fun t ht => ?_, fun _ => (hmay p hp).first rfl⟩) hD
    have hs := (h.fixed key p hp t ht).2.hasStarted
    rw [(hmay p hp).first rfl] at hs
    cases hs
  | true =>
    simp only [if_true]
    unfold groupRespawnDisposition
    cases he : rt.children.get key with
    | none => exact Act.keeps_pure h
    | some e =>
      simp only
      by_cases hact : e.membership ≠ .active
      · simp only [if_pos hact]
        exact Act.keeps_pure h
      · simp only [if_neg hact]
        by_cases hnever : (e.runtime.hasStarted && e.runtime.definition.restart.isNever) = true
        · simp only [if_pos hnever]
          exact finalizeSkippedGroupRespawn_judged _ h
        · simp only [if_neg hnever]
          refine scheduleStart_judged h hno (fun p hp hm => ?_) hD
          cases (lane_get he).symm.trans hp
          have hfresh : e.post.isNever = true → e.post.hasStarted = false := by
            intro hn
            have hn : e.runtime.definition.restart.isNever = true := hn
            show e.runtime.hasStarted = false
            simpa [hn] using hnever
          refine ⟨fun t ht => ?_, hfresh⟩
          obtain ⟨-, hfin⟩ := h.fixed key e.post hp t ht
          have hs := hfin.hasStarted
          rw [hfresh ((hmay e.post hp).never rfl hm hfin)] at hs
          cases hs

/-- What is scheduled is not queued, and is new or covered by a group restart. -/
structure Schedulable (D : List ClassifiedExit) (emitRestartEvents : Bool) (keys : List ChildKey) (L : Lane) : Prop where
  nodup : keys.Nodup
  unqueued : ∀ k ∈ keys, ∀ item ∈ L.queue, item.key ≠ k
  settled : ∀ k ∈ keys, ∀ c ∈ D, c.key ≠ k
  first : emitRestartEvents = false → ∀ k ∈ keys, ∀ p, L.posts k = some p → p.hasStarted = false
  covered : emitRestartEvents = true → L.running = true ∧ L.Covered keys

namespace Schedulable

variable {emitRestartEvents : Bool} {keys : List ChildKey} {L : Lane}

theorem may (h : Schedulable D emitRestartEvents keys L) (hk : key ∈ keys) {p : Post} (hp : L.posts key = some p) :
    L.MaySchedule emitRestartEvents key p where
  first he := h.first he key hk p hp
  never he hm hfin := (h.covered he).2.never hk (h.covered he).1 hp hm hfin

theorem schedule (h : Schedulable D emitRestartEvents (key :: keys) L) : Schedulable D emitRestartEvents keys (L.schedule key emitRestartEvents) := by
  obtain ⟨hother, hqueue, -, hrunning, -⟩ := schedule_frame L key emitRestartEvents
  obtain ⟨hn, hkeys⟩ := List.nodup_cons.mp h.nodup
  have hne : ∀ k ∈ keys, k ≠ key := fun k hk he => hn (he ▸ hk)
  refine ⟨hkeys, fun k hk item hi => ?_, fun k hk => h.settled k (List.mem_cons_of_mem _ hk), fun he k hk p hp => ?_, fun he => ?_⟩
  · rcases hqueue item hi with hi | hi
    · exact h.unqueued k (List.mem_cons_of_mem _ hk) item hi
    · exact fun hk' => hne k hk (hk'.symm.trans hi)
  · rw [hother k (hne k hk)] at hp
    exact h.first he k (List.mem_cons_of_mem _ hk) p hp
  · obtain ⟨hrun, hcov⟩ := h.covered he
    exact ⟨hrunning.trans hrun, hcov.schedule hn⟩

end Schedulable

theorem scheduleStartSequence_judged {emitRestartEvents : Bool} {keys : List ChildKey} (h : Judged S₀ D rt)
    (hs : Schedulable D emitRestartEvents keys rt.lane) :
    Act.Keeps (scheduleStartSequence keys emitRestartEvents) rt (Judged S₀ D) := by
  unfold scheduleStartSequence
  refine (Act.ends_bind (Q := fun _ => Judged S₀ D) ((Act.ends_forEach (E := Judged S₀ D)
    (I := fun rest rt' => Judged S₀ D rt' ∧ Schedulable D emitRestartEvents rest rt'.lane) ?_ keys rt ⟨h, hs⟩).weaken
      (fun _ _ h' => h'.1) fun _ h' => h') ?_).keeps (fun _ _ h' => h') fun _ h' => h'
  · rintro key rest rt₁ ⟨h₁, hs₁⟩
    have hk : key ∈ key :: rest := List.mem_cons_self ..
    refine Act.ends_get ((scheduleOne_judged h₁ (hs₁.unqueued key hk) (fun p hp => hs₁.may hk hp) (hs₁.settled key hk)).ends ?_)
    intro _ rt₂ hrun h₂
    rw [(scheduleOne_lane key emitRestartEvents h₁.willing).of_ok hrun]
    exact ⟨h₂, hs₁.schedule⟩
  · intro _ rt₁ h₁
    have hend : Act.Keeps (do
        let rt ← Act.get
        if rt.cfg.kind = .ordered then do
          Act.modify publishSnapshot
          advanceStartSequence
        else pure () : RuntimeM Unit) rt₁ (Judged S₀ D) := by
      refine Act.keeps_get ?_
      split
      · exact Act.keeps_modify_bind (advanceStartSequence_judged h₁.publish)
      · exact Act.keeps_pure h₁
    exact hend.ends fun _ _ _ h' => h'

/-! ## A drain publishes nothing but its joins -/

namespace SupervisorRuntime

theorem published_foldl {α : Type} {f : SupervisorRuntime → α → SupervisorRuntime} (hf : ∀ rt a, (f rt a).published = rt.published)
    (as : List α) : (as.foldl f rt).published = rt.published := by
  induction as generalizing rt with
  | nil => rfl
  | cons a as ih => exact ih.trans (hf rt a)

theorem published_abortChild (key : ChildKey) : (rt.abortChild key).published = rt.published :=
  congrArg Ledger.published (ledger_abortChild key)

theorem published_abortMatching (p : ChildKey → ChildEntry → Bool) : (rt.abortMatching p).published = rt.published :=
  congrArg Ledger.published (ledger_abortMatching p)

theorem published_orderedWalk (d : OrderedDrain) (keys : List ChildKey) : (orderedWalk d keys rt).2.published = rt.published := by
  induction keys generalizing rt with
  | nil => rfl
  | cons key rest ih =>
    unfold orderedWalk
    split
    · exact ih
    · split
      · exact ih
      · simp only
        split
        · exact @published_abortChild (rt.editRuntime key fun r => { r with state := .stopping }) key
        · rfl

theorem published_orderedExpired (d : OrderedDrain) (w : OrderedWait) : (orderedExpired d w rt).2.published = rt.published := by
  cases w with
  | tidy key deadline => exact published_abortChild key
  | window key deadline => exact published_orderedWalk _ _
  | _ => rfl

theorem published_orderedStopped (d : OrderedDrain) (w : OrderedWait) : (orderedStopped d w rt).2.published = rt.published := by
  cases w with
  | grace key deadline grace => exact published_orderedWalk _ _
  | window key deadline => exact published_orderedWalk _ _
  | _ => rfl

theorem published_orderedRecheck (d : OrderedDrain) (w : OrderedWait) : (orderedRecheck d w rt).2.published = rt.published := by
  have hone : ∀ key : ChildKey,
      (if rt.isChildActive key then (.await (.ordered d w), rt) else orderedStopped d w rt : DrainOut × _).2.published = rt.published := by
    intro key
    split
    · rfl
    · exact published_orderedStopped d w
  cases w with
  | grace key deadline grace => exact hone key
  | tidy key deadline => exact hone key
  | window key deadline => exact hone key
  | _ => rfl

theorem published_concurrentLeave (d : ConcurrentDrain) : (rt.concurrentLeave d).2.published = rt.published := by
  unfold concurrentLeave
  split
  · exact published_abortMatching _
  · rfl

theorem published_concurrentLoop (d : ConcurrentDrain) : (rt.concurrentLoop d).2.published = rt.published := by
  unfold concurrentLoop
  split
  · exact published_concurrentLeave d
  · simp only
    split
    · exact published_concurrentLeave _
    · rfl

theorem published_concurrentTimer (d : ConcurrentDrain) : (concurrentTimer d rt).2.published = rt.published := by
  have hfold : ∀ (expired : List (ChildKey × Duration)) (x : ConcurrentDrain × SupervisorRuntime),
      (expired.foldl (fun x p => expireGrace x p.1 p.2) x).2.published = x.2.published := by
    intro expired
    induction expired with
    | nil => intro x; rfl
    | cons p rest ih => intro x; exact ih _
  unfold concurrentTimer
  simp only
  rw [published_concurrentLoop, published_foldl fun rt k => published_abortChild k]
  exact hfold _ (d, rt)

theorem published_startDrain (reason : DrainReason) (scope : DrainScope) : (rt.startDrain reason scope).2.published = rt.published := by
  have hclose : ∀ rt : SupervisorRuntime, (rt.closeCommandsFor reason).published = rt.published := fun rt =>
    congrArg Ledger.published (ledger_closeCommandsFor reason)
  unfold startDrain
  split
  · exact (published_orderedWalk _ _).trans (hclose rt)
  · refine (published_abortMatching _).trans ((hclose _).trans ?_)
    unfold cancelRunningChildren
    simp only
    have hstop : (rt.childOrder.reverse.foldl (fun rt key =>
        if scope.contains key && (rt.children.get key).any (fun e =>
            e.runtime.state = .running || e.runtime.state = .starting) then
          rt.editRuntime key (stopForDrain scope)
        else rt) rt).published = rt.published := by
      refine published_foldl (fun rt key => ?_) _
      split <;> rfl
    split
    · exact hstop
    · exact hstop

theorem published_drainTimer (p : DrainPhase) : (drainTimer p rt).2.published = rt.published := by
  unfold drainTimer
  split
  · split
    · exact published_orderedExpired _ _
    · rfl
  · split
    · exact published_concurrentTimer _
    · rfl

theorem published_drainResumed (p : DrainPhase) : (drainResumed p rt).2.published = rt.published := by
  unfold drainResumed
  split
  · unfold orderedYielded
    split
    · rfl
    · exact published_orderedWalk _ _
  · rfl
  · rfl
  · rfl

theorem published_drainNoJoin (p : DrainPhase) : (drainNoJoin p rt).2.published = rt.published := by
  unfold drainNoJoin
  split
  · split
    · exact published_orderedStopped _ _
    · rfl
  · split
    · exact published_concurrentLeave _
    · rfl
  · rename_i d w _
    unfold concurrentSwept
    cases w with
    | sweep =>
      simp only
      split
      · rfl
      · exact published_concurrentLoop d
    | _ => rfl

theorem published_rejoined (p : DrainPhase) : (rejoined p rt).2.published = rt.published := by
  unfold rejoined
  split
  · exact published_orderedRecheck _ _
  · split
    · exact published_concurrentLoop _
    · rfl

end SupervisorRuntime

theorem Judged.handleNestedSnapshot (h : Judged S₀ D rt) (n : NestedSnapshotNotification) : Judged S₀ D (rt.handleNestedSnapshot n) := by
  unfold SupervisorRuntime.handleNestedSnapshot
  split
  · exact h
  · split
    · exact h
    · simp only
      split
      · exact h
      · rename_i cell _
        let rt₁ : SupervisorRuntime :=
          { rt with snapshotCells := Function.update rt.snapshotCells cell ⟨(rt.snapshotCells cell).latest, false⟩ }
        have hl : (rt₁.edit n.key fun e => { e with nestedSnapshot := (rt.snapshotCells cell).latest }).lane = rt₁.lane :=
          lane_edit_quiet fun _ _ => rfl
        have h₁ : Judged S₀ D (rt₁.edit n.key fun e => { e with nestedSnapshot := (rt.snapshotCells cell).latest }) := h.still rfl hl
        exact h₁.publish

theorem Lane.Halts.order {scope : DrainScope} {L L' : Lane} (hh : Halts scope L L') : L'.order = L.order := by
  obtain ⟨posts, rfl, -⟩ := hh
  rfl

theorem Lane.Halts.running {scope : DrainScope} {L L' : Lane} (hh : Halts scope L L') : L'.running = L.running := by
  obtain ⟨posts, rfl, -⟩ := hh
  rfl

theorem Judged.halts {scope : DrainScope} (h : Judged S₀ D rt) (hp : rt'.published = rt.published)
    (hh : Halts scope rt.lane rt'.lane) : Judged S₀ D rt' :=
  h.move hp (h.toSound.halts hh)

end Kokage.Supervisor
