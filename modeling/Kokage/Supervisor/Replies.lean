/-
  Kokage.Supervisor.Replies — every removal gets one reply, and when it is `Ok` the child
  is gone.

  The handlers attend to the desk (`Kokage.Supervisor.Answers`), drains included; a child
  that is being removed has a task until it is joined, and leaves with it (`Busy`). What is
  left is the epilogue: a failing incarnation answers `Unavailable` to every removal still
  parked, one that was shut down answers by the grace alone. The latter is where `Ok` can
  be untrue: the last sweep of a shutdown may leave behind a child that is being removed
  and has not been joined.
-/

import Kokage.Supervisor.Answers
import Kokage.Supervisor.Winding

namespace Kokage.Supervisor

open Kokage.Lib Desk Ledger SupervisorRuntime

/-! ## A child keeps its task -/

/-- The membership is gone or active. -/
def Ledger.ActiveAt (L : Ledger) (key : ChildKey) (lineage : Nat) : Prop :=
  lineage < L.nextLineage ∧ ∀ m, L.members.get key = some m → m.lineage = lineage → m.isActive = true

theorem step_activeAt {l : Label} {L L' : Ledger} {key : ChildKey} {lineage : Nat}
    (hl : ∀ t failed, l = .exited t failed → t.lineage ≠ lineage) (hs : Step l L L') (h : L.ActiveAt key lineage) : L'.ActiveAt key lineage := by
  obtain ⟨hlt, h⟩ := h
  -- one member changes and is active if it was
  have hput : ∀ {L'' : Ledger} {k m} (m' : Member), L.members.get k = some m → m'.lineage = m.lineage →
      (m.isActive = true → m'.isActive = true) → L''.nextLineage = L.nextLineage →
      L''.members = L.members.insertAt k m' → L''.ActiveAt key lineage := by
    intro L'' k m m' hm hlin hact hn hmem
    refine ⟨hn ▸ hlt, fun x hx hxl => ?_⟩
    rw [hmem, Slab.get_insertAt] at hx
    split at hx
    · rename_i hk
      subst hk
      cases hx
      exact hact (h m hm (hlin ▸ hxl))
    · exact h x hx hxl
  cases hs with
  | publish => exact ⟨hlt, h⟩
  | shutdown => exact ⟨hlt, h⟩
  | sent => exact ⟨hlt, h⟩
  | announced => exact ⟨hlt, h⟩
  | @added _ k m _ _ _ hf =>
    refine ⟨Nat.lt_succ_of_lt hlt, fun x hx hxl => ?_⟩
    have hx : (L.members.insertAt k m).get key = some x := hx
    rw [Slab.get_insertAt] at hx
    split at hx
    · cases hx
      have := hf.lineage_eq
      omega
    · exact h x hx hxl
  | @spawned _ k m task hm =>
    refine hput (m.spawn task) hm rfl (fun _ => ?_) rfl rfl
    unfold Member.isActive Member.spawn
    simp only
    split <;> rfl
  | @spawnedReady _ k m task _ hm =>
    refine hput (m.spawn task) hm rfl (fun _ => ?_) rfl rfl
    unfold Member.isActive Member.spawn
    simp only
    split <;> rfl
  | @refused _ k m hm => exact hput m.prepare hm rfl (fun _ => rfl) rfl rfl
  | @received _ r _ m _ _ hc => exact hput m.ready hc.1 rfl (fun _ => rfl) rfl rfl
  | dropped => exact ⟨hlt, h⟩
  | @exited _ task t m x d _ hc =>
    refine ⟨hlt, fun y hy hyl => ?_⟩
    have hy : (L.members.insertAt t.key (m.exit x)).get key = some y := hy
    rw [Slab.get_insertAt] at hy
    split at hy
    · cases hy
      exact absurd (hc.2.1.symm.trans hyl) (hl t _ rfl)
    · exact h y hy hyl
  | staleJoin => exact ⟨hlt, h⟩
  | lostJoin => exact ⟨hlt, h⟩
  | scheduled => exact ⟨hlt, h⟩
  | @removed _ k =>
    refine ⟨hlt, fun x hx hxl => ?_⟩
    have hx : (L.members.remove k).get key = some x := hx
    rw [Slab.get_remove] at hx
    split at hx
    · cases hx
    · exact h x hx hxl
  | @stopped _ k m hm => exact hput { m with state := .stopping } hm rfl (fun _ => rfl) rfl rfl
  | @removing _ k m hm =>
    refine hput m.remove hm rfl (fun ha => ?_) rfl rfl
    unfold Member.isActive Member.remove at *
    simp only [ha, if_true]
    rfl
  | @queued _ k m hm _ hidle =>
    refine hput m.queue hm rfl (fun ha => ?_) rfl rfl
    rw [isActive_of_isIdle hidle] at ha
    cases ha
  | gated => exact ⟨hlt, h⟩
  | @flagged _ k m _ hm => exact hput { m with startupAborted := true } hm rfl id rfl rfl
  | verdict => exact ⟨hlt, h⟩
  | verdictAtGate => exact ⟨hlt, h⟩

namespace SupervisorRuntime

variable {rt rt' : SupervisorRuntime} {key : ChildKey} {e : ChildEntry}

/-- A child that is being removed is still active. -/
def Busy (rt : SupervisorRuntime) : Prop :=
  ∀ key e, rt.children.get key = some e → e.membership = .removing → e.runtime.state.isActive = true

theorem activeAt_of_get (hf : rt.Fit) (he : rt.children.get key = some e) (ha : e.runtime.state.isActive = true) :
    rt.ledger.ActiveAt key e.lineage := by
  refine ⟨hf.sound.lineage_lt key e.slot (desk_get he), fun m hm _ => ?_⟩
  rw [ledger_get he] at hm
  cases hm
  exact ha

/-- Only an exit takes the task of a child that is being removed. -/
theorem Recalls.active {A : Label → Prop} (hr : Recalls rt rt') (hf : rt.Fit) (hl : Leads A rt rt') (hA : ∀ l, A l → Serves l)
    {e' : ChildEntry} (he' : rt'.children.get key = some e') (hm : e'.membership = .removing) :
    ∃ e, rt.children.get key = some e ∧ e.membership = .removing ∧
      (e.runtime.state.isActive = true → e'.runtime.state.isActive = true) := by
  obtain ⟨e, he, hlin, hrem⟩ := hr key e' he' hm
  refine ⟨e, he, hrem, fun ha => ?_⟩
  have hat : rt'.ledger.ActiveAt key e.lineage := by
    refine Ledger.Path.keeps (I := fun L => L.ActiveAt key e.lineage) (fun {l _ _} hl hs => step_activeAt ?_ hs) hl
      (activeAt_of_get hf he ha)
    intro t _ heq
    have := hA l hl
    rw [heq] at this
    exact this.elim
  exact hat.2 e'.member (ledger_get he') hlin.symm

theorem Busy.keep {A : Label → Prop} (h : rt.Busy) (hf : rt.Fit) (hr : Recalls rt rt') (hl : Leads A rt rt')
    (hA : ∀ l, A l → Serves l) : rt'.Busy := by
  intro key e' he' hm
  obtain ⟨e, he, hrem, ha⟩ := hr.active hf hl hA he' hm
  exact ha (h key e he hrem)

/-- A handler attends to the desk and keeps the children being removed busy. -/
def Keeps (rt rt' : SupervisorRuntime) : Prop := Attends rt.desk rt'.desk ∧ (rt.Busy → rt'.Busy)

theorem Keeps.refl : Keeps rt rt := ⟨.refl _, id⟩

theorem Keeps.trans {rt'' : SupervisorRuntime} (h : Keeps rt rt') (h' : Keeps rt' rt'') : Keeps rt rt'' :=
  ⟨h.1.trans h'.1, fun hb => h'.2 (h.2 hb)⟩

theorem keeps_of_leads {A : Label → Prop} (hf : rt.Fit) (ht : Tends rt rt') (hl : Leads A rt rt')
    (hA : ∀ l, A l → Serves l) : Keeps rt rt' :=
  ⟨ht.toAttends, fun h => h.keep hf (ht.recalls hf) hl hA⟩

/-- The children stand. -/
theorem keeps_of_children (ht : Tends rt rt') (hc : rt'.children = rt.children) : Keeps rt rt' :=
  ⟨ht.toAttends, fun h key e he => h key e (hc ▸ he)⟩

/-! ## Joins -/

theorem sendLifecycleDraft_children (d : LifecycleEventDraft) : (rt.sendLifecycleDraft d).children = rt.children := by
  unfold sendLifecycleDraft
  simp only
  split <;> rfl

theorem retireNested_children (e : ChildEntry) : (rt.retireNested e).children = rt.children := by
  unfold retireNested
  split <;> rfl

theorem clearCell_children (e : ChildEntry) : (rt.clearCell e).children = rt.children := by
  unfold clearCell
  split <;> rfl

theorem finalizeRemovedChild_gone (key : ChildKey) (checkElapsedGrace : Bool) :
    (rt.finalizeRemovedChild key checkElapsedGrace).children.get key = none := by
  cases he : rt.children.get key with
  | none =>
    unfold finalizeRemovedChild
    rw [he]
    exact he
  | some e =>
    have hdraft : rt.lifecycleDraft key .removed = some ⟨e.id, e.lineage, rt.totalRestarts,
        e.runtime.restartTracker.totalRestarts, .removed⟩ := by
      simp [lifecycleDraft, he]
    have hchildren : (((((rt.dropEntry key e).clearCell e).retireNested e).sendLifecycleDraft ⟨e.id, e.lineage, rt.totalRestarts,
        e.runtime.restartTracker.totalRestarts, .removed⟩).sendChildEvent).children.get key = none := by
      show (((((rt.dropEntry key e).clearCell e).retireNested e).sendLifecycleDraft _).children).get key = none
      rw [sendLifecycleDraft_children, retireNested_children, clearCell_children]
      exact Slab.get_remove_self _ _
    unfold finalizeRemovedChild
    simp only [he, hdraft]
    split
    · exact hchildren
    · exact hchildren

/-- A joined child that was being removed is gone; the others stay busy. -/
theorem keeps_of_join {A : Label → Prop} {t : TaskMeta} {failed : Bool} {L : Ledger} (hf : rt.Fit) (ht : Tends rt rt')
    (hs : Step (.exited t failed) rt.ledger L) (hp : Ledger.Path A L rt'.ledger) (hA : ∀ l, A l → Serves l)
    (hgone : ∀ e, rt.children.get t.key = some e → e.membership = .removing → rt'.children.get t.key = none)
    (hkey : ∀ key e, rt.children.get key = some e → e.lineage = t.lineage → key = t.key) : Keeps rt rt' := by
  refine ⟨ht.toAttends, fun h key e' he' hm => ?_⟩
  obtain ⟨e, he, hlin, hrem⟩ := ht.recalls hf key e' he' hm
  by_cases hl : t.lineage = e.lineage
  · have hk := hkey key e he hl.symm
    subst hk
    rw [hgone e he hrem] at he'
    cases he'
  · have hat : L.ActiveAt key e.lineage := by
      refine step_activeAt (fun t' _ ht' => ?_) hs (activeAt_of_get hf he (h key e he hrem))
      cases ht'
      exact hl
    have hat' : rt'.ledger.ActiveAt key e.lineage := by
      refine Ledger.Path.keeps (I := fun L => L.ActiveAt key e.lineage) (fun {l _ _} hl hs => step_activeAt ?_ hs) hp hat
      intro t' _ heq
      have := hA l hl
      rw [heq] at this
      exact this.elim
    exact hat'.2 e'.member (ledger_get he') hlin.symm

theorem key_of_lineage {task : TaskId} {t : TaskMeta} (hb : rt.ledger.Books) (ht : rt.taskMap task = some t)
    (he : rt.children.get key = some e) (hl : e.lineage = t.lineage) : key = t.key :=
  (hb.record_task task t key e.member ht (ledger_get he) hl).1

theorem current_of_exited {t : TaskMeta} {failed : Bool} {L : Ledger} (hs : Step (.exited t failed) rt.ledger L) :
    rt.currentChildMatches t.key t.lineage t.generation = true := by
  cases hs with
  | exited _ hc =>
    obtain ⟨hget, hl, hg⟩ := hc
    obtain ⟨e, he, rfl⟩ := get_of_ledger hget
    exact currentChildMatches_iff.mpr ⟨e, he, hl, hg⟩

theorem recordExit_removing {status : RuntimeExitStatus} {generation : Nat} (he : rt.children.get key = some e)
    (hm : e.membership = .removing) :
    ∃ e', (rt.recordExit key generation status).children.get key = some e' ∧ e'.membership = .removing := by
  obtain ⟨-, -, hget, -⟩ := recordExit_spec generation status he
  exact ⟨_, hget, hm⟩

theorem handleJoinedChild_gone {task : TaskId} {t : TaskMeta} (c : Conclusion) (hrun : rt.state = .running)
    (ht : rt.taskMap task = some t) (hmatch : rt.currentChildMatches t.key t.lineage t.generation = true)
    (he : rt.children.get t.key = some e) (hm : e.membership = .removing) :
    (handleJoinedChild task c rt).2.children.get t.key = none := by
  have hc := @consumeJoinedChild_cases rt task c
  unfold handleJoinedChild
  rw [Act.run_bind]
  generalize consumeJoinedChild task c rt = q at hc
  obtain ⟨r, rt₁⟩ := q
  cases hc with
  | lost hno =>
    rw [ht] at hno
    cases hno
  | stale ht' hno =>
    rw [ht] at ht'
    cases ht'
    rw [hmatch] at hno
    cases hno
  | @current t' e' status ht' he' hl hg =>
    rw [ht] at ht'
    cases ht'
    let rt₁ : SupervisorRuntime := { rt.unlinked task with liveTasks := rt.liveTasks - 1 }
    obtain ⟨e₂, he₂, hm₂⟩ := @recordExit_removing rt₁ t.key e status t.generation he hm
    have hst : (rt₁.recordExit t.key t.generation status).state = .running := (recordExit_state _ _ _).trans hrun
    show ((dispatchExit ⟨t.key, t.lineage, t.generation, status⟩) rt₁).2.children.get t.key = none
    unfold dispatchExit applyExitPolicy applyExitPolicyInner
    simp only [Act.run_modify_bind, Act.run_get_bind]
    rw [if_neg (not_not.mpr hst), he₂]
    simp only
    rw [if_pos hm₂]
    exact finalizeRemovedChild_gone t.key false

theorem handleJoinedChild_keeps {task : TaskId} (c : Conclusion) (hb : rt.ledger.Books) (ho : rt.ledger.Open) (hf : rt.Fit)
    (hj : task ∈ rt.joinSet.map (·.id)) : Keeps rt (handleJoinedChild task c rt).2 := by
  have ht := (handleJoinedChild_tends task c hb hf).1
  rcases handleJoinedChild_leads (c := c) hb ho hj with hl | ⟨t, hrec, L, hs, hp⟩
  · exact keeps_of_leads hf ht hl fun _ => other_serves
  · refine keeps_of_join hf ht hs hp (fun _ => Applies.serves) (fun e he hrem => ?_)
      fun key e he hl => key_of_lineage hb hrec he hl
    exact handleJoinedChild_gone c (by simpa [ledger] using ho.running) hrec (current_of_exited hs) he hrem

theorem handleJoinForScope_cases (task : TaskId) (c : Conclusion) (scope : DrainScope) (cursor : Option ChildKey) (hb : rt.ledger.Books)
    (hf : rt.Fit) : Tends rt (handleJoinForScope task c scope cursor rt).2 ∧
      ∀ t e, rt.taskMap task = some t → rt.currentChildMatches t.key t.lineage t.generation = true →
        rt.children.get t.key = some e → e.membership = .removing →
          (handleJoinForScope task c scope cursor rt).2.children.get t.key = none := by
  have hc := @consumeJoinedChild_cases rt task c
  unfold handleJoinForScope
  rw [Act.run_bind]
  generalize consumeJoinedChild task c rt = q at hc
  obtain ⟨r, rt₁⟩ := q
  cases hc with
  | lost hno =>
    refine ⟨Calm.of_eq rfl, fun t e ht => ?_⟩
    rw [hno] at ht
    cases ht
  | stale ht hno =>
    refine ⟨tends_unlinked task, fun t' e ht' hmatch => ?_⟩
    rw [ht] at ht'
    cases ht'
    rw [hno] at hmatch
    cases hmatch
  | @current t e status ht he hl hg =>
    let rt₁ : SupervisorRuntime := { rt.unlinked task with liveTasks := rt.liveTasks - 1 }
    have h₁ : Tends rt rt₁ := (tends_unlinked task).trans (Calm.of_eq rfl)
    have hx : Tends rt (rt₁.recordExit t.key t.generation status) := h₁.trans (tends_recordExit _ _ _)
    obtain ⟨-, -, hget, -⟩ := @recordExit_spec rt₁ t.key e t.generation status he
    simp only [Act.run_modify_bind, Act.run_get_bind]
    rw [hget]
    simp only
    split
    · -- being removed: its task was the one just joined
      refine ⟨hx.trans (tends_finalizeRemovedChild true (hf.tends hx).sound fun e' he' _ => ?_), fun t' e' ht' _ _ _ => ?_⟩
      · rw [hget] at he'
        cases he'
        have hl' : (recordExitEntry rt₁.now status e).lineage = t.lineage := hl
        rw [hl', taskMap_recordExit]
        exact noTask_unlinked hb ht
      · rw [ht] at ht'
        cases ht'
        exact finalizeRemovedChild_gone t.key true
    · rename_i hm
      have hno : ∀ t' e', rt.taskMap task = some t' → rt.currentChildMatches t'.key t'.lineage t'.generation = true →
          rt.children.get t'.key = some e' → e'.membership = .removing → False := by
        intro t' e' ht' _ he' hm'
        rw [ht] at ht'
        cases ht'
        rw [he] at he'
        cases he'
        exact hm hm'
      split
      · exact ⟨hx, fun t' e' ht' h he' hm' => (hno t' e' ht' h he' hm').elim⟩
      · exact ⟨hx, fun t' e' ht' h he' hm' => (hno t' e' ht' h he' hm').elim⟩

/-- A task that is joined has its record. -/
theorem handleJoinForScope_ok {task : TaskId} (c : Conclusion) (scope : DrainScope) (cursor : Option ChildKey)
    (hb : rt.ledger.Books) (hj : task ∈ rt.joinSet.map (·.id)) :
    ∃ exits, (handleJoinForScope task c scope cursor rt).1 = .ok exits := by
  have hc := @consumeJoinedChild_cases rt task c
  unfold handleJoinForScope
  rw [Act.run_bind]
  generalize consumeJoinedChild task c rt = q at hc
  obtain ⟨r, rt₁⟩ := q
  cases hc with
  | lost ht =>
    obtain ⟨t, hrec⟩ := (hb.record_iff task).mp hj
    have hrec : rt.taskMap task = some t := hrec
    rw [ht] at hrec
    cases hrec
  | stale => exact ⟨[], rfl⟩
  | @current t e status ht he hl hg =>
    obtain ⟨-, -, hget, -⟩ := @recordExit_spec { rt.unlinked task with liveTasks := rt.liveTasks - 1 } t.key e t.generation
      status he
    simp only [Act.run_modify_bind, Act.run_get_bind]
    rw [hget]
    simp only
    split
    · exact ⟨[], rfl⟩
    · split
      · exact ⟨_, rfl⟩
      · exact ⟨[], rfl⟩

theorem handleJoinForScope_keeps {task : TaskId} (c : Conclusion) (scope : DrainScope) (cursor : Option ChildKey)
    (hj : task ∈ rt.joinSet.map (·.id)) (hb : rt.ledger.Books) (hf : rt.Fit) :
    Keeps rt (handleJoinForScope task c scope cursor rt).2 := by
  obtain ⟨ht, hgone⟩ := handleJoinForScope_cases task c scope cursor hb hf
  rcases handleJoinForScope_leads c scope cursor hj hb with ⟨hl, -⟩ | ⟨t, hrec, ⟨L, hs, hp⟩, -⟩
  · exact keeps_of_leads hf ht hl fun _ => other_serves
  · exact keeps_of_join hf ht hs hp (fun _ => other_serves) (fun e he hrem => hgone t e hrec (current_of_exited hs) he hrem)
      fun key e he hl => key_of_lineage hb hrec he hl

/-! ## Commands -/

theorem stopRemoved_leads (key : ChildKey) (lineage : Nat) (active abort : Bool) (ho : rt.ledger.Open) :
    Leads Commands rt (stopRemoved key lineage active abort rt).2 := by
  have hdetach : ∀ rt' : SupervisorRuntime, rt'.ledger.Open → Act.Runs (Leads Commands) (detachStartMember key lineage) rt'
      fun _ _ => True := fun rt' ho' => (detachStartMember_runs ho').mono fun _ => leads_mono fun _ => Starts.commands
  suffices h : Act.Runs (Leads Commands) (stopRemoved key lineage active abort) rt fun _ _ => True from h.1
  unfold stopRemoved
  cases active with
  | true =>
    have hend : ∀ rt' : SupervisorRuntime, rt'.ledger.Open → Act.Runs (Leads Commands) (do
        detachStartMember key lineage
        if true then pure () else Act.modify (·.finalizeRemovedChild key false) : RuntimeM Unit) rt' fun _ _ => True :=
      fun rt' ho' => Act.runs_bind (hdetach rt' ho') fun _ _ _ _ => Act.runs_pure trivial
    cases abort with
    | true =>
      have hl : (rt.abortChild key).ledger = rt.ledger := ledger_abortChild key
      exact Act.runs_modify_bind (leads_of_ledger_eq hl) (hend _ (hl ▸ ho))
    | false =>
      have hl : (rt.cancelChild key).ledger = rt.ledger := ledger_cancelChild key
      exact Act.runs_modify_bind (leads_of_ledger_eq hl) (hend _ (hl ▸ ho))
  | false =>
    refine Act.runs_bind (hdetach rt ho) fun _ _ _ _ => ?_
    exact Act.runs_modify (finalizeRemovedChild_leads trivial key false) trivial

/-- In a dynamic scope nobody waits behind the child that leaves. -/
theorem detachStartMember_ok (key : ChildKey) (lineage : Nat) (hg : rt.startGate = none) :
    (detachStartMember key lineage rt).1 = .ok () := by
  have hclear : (rt.removeStartSequenceMember key lineage).1 = false := by
    unfold removeStartSequenceMember
    unfold startGate at hg
    cases hs : rt.startSequence with
    | none => rfl
    | some s =>
      have hgate : s.gate = none := by
        rw [hs] at hg
        exact hg
      simp [hgate]
  unfold detachStartMember
  rw [Act.run_get_bind]
  generalize rt.removeStartSequenceMember key lineage = q at hclear
  obtain ⟨cleared, rt'⟩ := q
  cases hclear
  rfl

/-- A child without a task is gone at once. -/
theorem stopRemoved_gone (key : ChildKey) (lineage : Nat) (abort : Bool) (hg : rt.startGate = none) :
    (stopRemoved key lineage false abort rt).2.children.get key = none := by
  have hok := @detachStartMember_ok rt key lineage hg
  show ((detachStartMember key lineage >>= fun _ => Act.modify (·.finalizeRemovedChild key false)) rt).2.children.get key = none
  rw [Act.run_bind]
  generalize detachStartMember key lineage rt = q at hok
  obtain ⟨r, rt'⟩ := q
  cases hok
  exact finalizeRemovedChild_gone key false

theorem removeChild_keeps {id : String} {expectedLineage : Option Nat} {reply : Nat} {rest : List SupervisorCommand}
    (hb : rt.ledger.Books) (ho : rt.ledger.Open) (hd : rt.cfg.kind = .dynamic) (hf : rt.Fit)
    (hc : rt.commandRx = .removeChild id expectedLineage reply :: rest) :
    Keeps rt (removeChild id expectedLineage reply { rt with commandRx := rest }).2 := by
  refine ⟨(removeChild_takes hb hf hc).1, fun hbusy => ?_⟩
  have hr := @removeChild_removal rt { rt with commandRx := rest } id expectedLineage reply rfl rfl
  generalize removeChild id expectedLineage reply { rt with commandRx := rest } = out at hr
  cases hr with
  | refused => exact hbusy
  | @begun key e he hid hl hm =>
    obtain ⟨htake, ht⟩ := begunRemoval_tends hb hf hc he hid hl hm
    have hf₁ := hf.attends htake.1
    have hlead := @stopRemoved_leads ({ rt with commandRx := rest }.beginRemoval key reply).publishSnapshot key e.lineage
      e.runtime.state.isActive e.runtime.definition.shutdownPolicy.isAbort ⟨ho.running, ho.gate⟩
    intro k e' he' hm'
    obtain ⟨e₁, he₁, hm₁, hact⟩ := (ht.recalls hf₁).active hf₁ hlead (fun _ => Commands.serves) he' hm'
    apply hact
    by_cases hk : k = key
    · subst hk
      cases ha : e.runtime.state.isActive with
      | true =>
        obtain ⟨e₂, he₂, -, -, hact₂⟩ := @get_beginRemoval { rt with commandRx := rest } k e reply he
        have heq : some e₁ = some e₂ := he₁.symm.trans he₂
        cases heq
        exact hact₂ ha
      | false =>
        have hgone := @stopRemoved_gone ({ rt with commandRx := rest }.beginRemoval k reply).publishSnapshot k e.lineage
          e.runtime.definition.shutdownPolicy.isAbort (by exact ho.gate hd)
        rw [ha, hgone] at he'
        cases he'
    · have he₁ : (rt.children.modify key _).get k = some e₁ := he₁
      rw [Slab.get_modify_ne _ _ hk] at he₁
      exact hbusy k e₁ he₁ hm₁

theorem handleCommand_keeps (command : SupervisorCommand) {rest : List SupervisorCommand} (hb : rt.ledger.Books)
    (ho : rt.ledger.Open) (hd : rt.cfg.kind = .dynamic) (hf : rt.Fit) (hc : rt.commandRx = command :: rest) :
    Keeps rt (handleCommand command { rt with commandRx := rest }).2 := by
  have hlead : Leads Commands rt (handleCommand command { rt with commandRx := rest }).2 :=
    @handleCommand_leads { rt with commandRx := rest } command ho
  have hadd : ∀ {rt' : SupervisorRuntime}, Admits rest rt rt' → Leads Commands rt rt' → Keeps rt rt' :=
    fun h hl => ⟨h.1.1, fun hbusy => hbusy.keep hf h.2 hl fun _ => Commands.serves⟩
  cases command with
  | addChild child isTask reply => exact hadd (admits_completeCommand reply hf (addChild_admits hf hc)) hlead
  | removeChild id expectedLineage reply => exact removeChild_keeps hb ho hd hf hc
  | addNested child isNested reply => exact hadd (admits_completeCommand reply hf (addNested_admits hf hc)) hlead

theorem drainDeadlineCommandBatch_keeps : ∀ (commands : List SupervisorCommand) {rt : SupervisorRuntime}, rt.ledger.Books →
    rt.ledger.Open → (commands ≠ [] → rt.cfg.kind = .dynamic) → rt.Fit → rt.commandRx = commands →
    Keeps rt (drainDeadlineCommandBatch commands rt).2
  | [], rt, _, _, _, _, _ => by
    unfold drainDeadlineCommandBatch
    rw [Act.run_get_bind]
    split
    · exact .refl
    · show Keeps rt (if rt.commandsClosed = true then { rt with commandsOpen := false } else rt)
      split
      · exact keeps_of_children (Calm.of_eq rfl) rfl
      · exact .refl
  | command :: rest, rt, hb, ho, hd, hf, hc => by
    unfold drainDeadlineCommandBatch
    rw [Act.run_get_bind]
    split
    · exact .refl
    · let rt₁ : SupervisorRuntime := { rt with commandRx := rest }
      have hdyn : rt.cfg.kind = .dynamic := hd (List.cons_ne_nil _ _)
      have hlead : Leads Commands rt₁ (handleCommand command rt₁).2 := handleCommand_leads command ho
      have hkeep : Keeps rt (handleCommand command rt₁).2 := handleCommand_keeps command hb ho hdyn hf hc
      have htake : (handleCommand command rt₁).2.commandRx = rest := (handleCommand_takes command hb hf hc).2
      simp only [Act.run_modify_bind]
      change Keeps rt ((handleCommand command >>= fun _ => drainDeadlineCommandBatch rest) rt₁).2
      rw [Act.run_bind]
      generalize handleCommand command rt₁ = q at hlead hkeep htake
      obtain ⟨r, rt₂⟩ := q
      cases r with
      | ok _ =>
        have ho₂ : rt₂.ledger.Open := leads_open (fun _ => Commands.not_shutdown) hlead ho
        have hdyn₂ : rt₂.cfg.kind = .dynamic := (Ledger.Path.kind hlead).trans hdyn
        exact hkeep.trans (drainDeadlineCommandBatch_keeps rest (path_books hlead hb) ho₂ (fun _ => hdyn₂)
          (hf.attends hkeep.1) htake)
      | error err => exact hkeep

end SupervisorRuntime

/-! ## Drains -/

section Drains

variable {rt rt' : SupervisorRuntime}

theorem Winds.tends {scope : DrainScope} (h : Winds scope rt rt') : Tends rt rt' := by
  refine Calm.still (fun k => ?_) ?_ ?_ ?_ (fun task t ht => .inl ?_) (fun l hl => .inl ?_) (fun x hx => ?_) fun x hx => ?_
  · show (rt'.children.map _).get k = (rt.children.map _).get k
    rw [Slab.get_map, Slab.get_map]
    cases he : rt.children.get k with
    | none => rw [h.vacant k he]
    | some e =>
      obtain ⟨r, he', hr⟩ := h.entries k e he
      rw [he', hr.rest]
      rfl
  · show rt'.still.nextLineage = rt.still.nextLineage
    rw [h.rest]
  · show rt'.still.commandRx = rt.still.commandRx
    rw [h.rest]
  · show rt'.still.notices.filterMap _ = rt.still.notices.filterMap _
    rw [h.rest]
  · have ht : rt'.still.taskMap task = some t := ht
    rw [h.rest] at ht
    exact ht
  · have hl : l ∈ rt'.still.desk.shown := hl
    rw [h.rest] at hl
    exact hl
  · show x ∈ rt'.still.desk.removed
    rw [h.rest]
    exact hx
  · show x ∈ rt'.still.desk.retired
    rw [h.rest]
    exact hx

theorem Winds.kind {scope : DrainScope} (h : Winds scope rt rt') : rt'.cfg.kind = rt.cfg.kind := by
  show rt'.still.cfg.kind = rt.still.cfg.kind
  rw [h.rest]

theorem DrainPhase.Within.tag_eq {p : DrainPhase} {tag : DrainTag} {scope : DrainScope} (h : p.Within tag scope) : p.tag = tag := by
  cases p with
  | ordered d w => exact h.1
  | concurrent d w => exact h.1

theorem Winds.keeps {scope : DrainScope} (h : Winds scope rt rt') : Keeps rt rt' := by
  refine ⟨h.tends.toAttends, fun hbusy key e' he' hm => ?_⟩
  cases he : rt.children.get key with
  | none =>
    rw [h.vacant key he] at he'
    cases he'
  | some e =>
    obtain ⟨r, hr, hw⟩ := h.entries key e he
    rw [hr] at he'
    cases he'
    exact hw.isActive.trans (hbusy key e he hm)

theorem drainJoined_keeps {p : DrainPhase} {task : TaskId} (c : Conclusion) (hj : task ∈ rt.joinSet.map (·.id))
    (hb : rt.ledger.Books) (hf : rt.Fit) : Keeps rt (drainJoined p task c rt).2 := by
  obtain ⟨cursor, hok, herr⟩ := @drainJoined_cases rt p task c
  have hkeeps := handleJoinForScope_keeps c p.scope cursor hj hb hf
  cases hr : (handleJoinForScope task c p.scope cursor rt).1 with
  | ok exits =>
    rw [hok exits hr]
    exact hkeeps.trans (rejoined_wends _ (deferring p exits).within_all).1.keeps
  | error err =>
    rw [(herr err hr).1]
    exact hkeeps

end Drains

/-! ## The epilogue -/

namespace SupervisorRuntime

variable {rt rt' : SupervisorRuntime} {key : ChildKey} {e : ChildEntry}

/-- The removals still parked, in key order. -/
def parkedRemovals (rt : SupervisorRuntime) : List (String × PendingRemoval) :=
  rt.children.iter.filterMap fun (_, e) => e.pendingRemoval.map fun p => (e.id, p)

theorem mem_parkedRemovals {id : String} {p : PendingRemoval} :
    (id, p) ∈ rt.parkedRemovals ↔ ∃ key e, rt.children.get key = some e ∧ e.pendingRemoval = some p ∧ e.id = id := by
  unfold parkedRemovals
  rw [List.mem_filterMap]
  constructor
  · rintro ⟨⟨key, e⟩, hmem, hp⟩
    obtain ⟨q, hq, heq⟩ := Option.map_eq_some_iff.mp hp
    cases heq
    exact ⟨key, e, Slab.mem_iter.mp hmem, hq, rfl⟩
  · rintro ⟨key, e, he, hp, rfl⟩
    exact ⟨(key, e), Slab.mem_iter.mpr he, by simp [hp]⟩

/-- How the epilogue answers a removal. -/
def epilogueReply (rt : SupervisorRuntime) (failure : Option SupervisorError) (x : String × PendingRemoval) : Reply :=
  (x.2.reply, rt.pendingRemovalResult x.1 x.2 true failure, some rt.seen)

theorem resolvePendingRemovals_eq (failure : Option SupervisorError) : rt.resolvePendingRemovals failure =
    { rt with
      children := rt.children.map fun _ e => { e with pendingRemoval := none }
      notices := rt.notices ++ rt.parkedRemovals.map fun x =>
        .removeReply x.2.reply (rt.pendingRemovalResult x.1 x.2 true failure) (some rt.seen) } := by
  have hfold : ∀ (parked : List (String × PendingRemoval)) (rt₁ : SupervisorRuntime), rt₁.now = rt.now → rt₁.seen = rt.seen →
      parked.foldl (fun rt (x : String × PendingRemoval) =>
        rt.notify (.removeReply x.2.reply (rt.pendingRemovalResult x.1 x.2 true failure) (some rt.seen))) rt₁ =
      { rt₁ with notices := rt₁.notices ++ parked.map fun x =>
        .removeReply x.2.reply (rt.pendingRemovalResult x.1 x.2 true failure) (some rt.seen) } := by
    intro parked
    induction parked with
    | nil => intro rt₁ _ _; simp
    | cons x parked ih =>
      intro rt₁ hnow hseen
      have hres : rt₁.pendingRemovalResult x.1 x.2 true failure = rt.pendingRemovalResult x.1 x.2 true failure := by
        unfold pendingRemovalResult
        rw [hnow]
      let rt₂ := rt₁.notify (.removeReply x.2.reply (rt.pendingRemovalResult x.1 x.2 true failure) (some rt.seen))
      have hquiet : rt₂.seen = rt.seen := by
        rw [← hseen]
        simp [rt₂, seen, notify, Notice.retires]
      rw [List.foldl_cons, hres, hseen]
      refine (ih rt₂ hnow hquiet).trans ?_
      simp [rt₂, notify]
  exact hfold rt.parkedRemovals _ rfl rfl

theorem desk_markChildTerminal (key : ChildKey) : (rt.markChildTerminal key).desk = rt.desk := by
  unfold markChildTerminal
  split
  · rfl
  · split
    · rfl
    · simp [desk, notify, List.filterMap_append, Notice.reply, Notice.retires]

theorem desk_finalizeStableChannels : rt.finalizeStableChannels.desk = rt.desk := by
  have hfold : ∀ (keys : List ChildKey) (rt : SupervisorRuntime), (keys.foldl markChildTerminal rt).desk = rt.desk := by
    intro keys
    induction keys with
    | nil => exact fun _ => rfl
    | cons key keys ih =>
      intro rt
      rw [List.foldl_cons, ih, desk_markChildTerminal]
  exact hfold _ rt

/-- What the epilogue of `run` makes of the runtime. -/
def closed (rt : SupervisorRuntime) (failure : Option SupervisorError) : SupervisorRuntime :=
  (rt.resolvePendingRemovals failure).finalizeStableChannels

/-- The parked replies are sent; nothing else on the desk moves. -/
theorem closed_desk (failure : Option SupervisorError) : (rt.closed failure).desk = { rt.desk with
    slots := rt.desk.slots.map fun _ s => { s with pending := none }
    replies := rt.desk.replies ++ rt.parkedRemovals.map (rt.epilogueReply failure) } := by
  have hslots : (rt.children.map fun _ e => { e with pendingRemoval := none }).map (fun _ e => e.slot) =
      rt.desk.slots.map fun _ s => { s with pending := none } := by
    refine Slab.ext (fun k => ?_) rfl
    simp only [desk, Slab.get_map, Option.map_map]
    rfl
  have hreplies : (rt.parkedRemovals.map fun x =>
      Notice.removeReply x.2.reply (rt.pendingRemovalResult x.1 x.2 true failure) (some rt.seen)).filterMap Notice.reply =
      rt.parkedRemovals.map (rt.epilogueReply failure) := by
    rw [List.filterMap_map, ← List.filterMap_eq_map]
    rfl
  have hretired : (rt.parkedRemovals.map fun x =>
      Notice.removeReply x.2.reply (rt.pendingRemovalResult x.1 x.2 true failure) (some rt.seen)).filterMap Notice.retires = [] := by
    rw [List.filterMap_map]
    exact List.filterMap_eq_nil_iff.mpr fun _ _ => rfl
  unfold closed
  rw [desk_finalizeStableChannels, resolvePendingRemovals_eq]
  unfold desk
  simp only [List.filterMap_append, hreplies, hretired, List.append_nil]
  rw [hslots]
  rfl

theorem closed_replies (failure : Option SupervisorError) :
    (rt.closed failure).desk.replies = rt.desk.replies ++ rt.parkedRemovals.map (rt.epilogueReply failure) := by
  rw [closed_desk]

theorem closed_slots (failure : Option SupervisorError) (k : ChildKey) :
    (rt.closed failure).desk.slots.get k = (rt.desk.slots.get k).map fun s => { s with pending := none } := by
  rw [closed_desk]
  exact Slab.get_map ..

/-- Every parked token turns into a reply. -/
theorem closed_tokens (failure : Option SupervisorError) (r : Nat) : (rt.closed failure).desk.tokens r = rt.desk.tokens r := by
  have hcommands : (rt.closed failure).desk.commands = rt.desk.commands := by
    rw [closed_desk]
  have hnone : (rt.closed failure).desk.slots.count (Slot.holds r) = 0 := by
    unfold Slab.count
    rw [List.countP_eq_zero]
    intro k _
    rw [closed_slots]
    cases rt.desk.slots.get k with
    | none => simp
    | some s => simp [Slot.holds]
  have hcount : rt.desk.slots.count (Slot.holds r) = (rt.parkedRemovals.map (rt.epilogueReply failure)).countP
      fun x => decide (x.1 = r) := by
    unfold parkedRemovals Slab.iter Slab.count
    rw [List.countP_map, List.countP_filterMap, List.countP_filterMap]
    refine List.countP_congr fun k _ => ?_
    simp only [desk, Slab.get_map]
    cases rt.children.get k with
    | none => simp
    | some e =>
      simp only [Option.map_some, Option.any_some, Slot.holds, ChildEntry.slot]
      cases e.pendingRemoval with
      | none => simp
      | some p =>
        by_cases hr : p.reply = r
        · simp [epilogueReply, hr]
        · simp [epilogueReply, hr]
  unfold Desk.tokens
  rw [hcommands, closed_replies, List.countP_append, hnone, hcount]
  omega

end SupervisorRuntime

/-! ## Steps -/

section Goes

variable {late : Prop} {rt rt₁ : SupervisorRuntime}

/-- Nobody is parked: the scope takes no commands, or no child is active. -/
def SupervisorRuntime.Vacated (rt : SupervisorRuntime) : Prop :=
  rt.cfg.kind = .ordered ∨ ∀ key e, rt.children.get key = some e → e.runtime.state.isActive = false

/-- Where the code between two awaits leads: to the next await, or out of `run`. It is
    `late` when the scope is already being shut down: then it no longer fails, though the
    shutdown may time out. -/
inductive Goes (late : Prop) (rt : SupervisorRuntime) : Machine → Prop
  | awaits {m : Machine} : Keeps rt m.rt → (∀ r, m.phase ≠ .exited r) →
      (∀ p after, m.phase = .drain p (.shutdown after) → p.tag = (.shutdown, .all, m.rt.cfg.kind)) → Goes late rt m
  | fails {rt₁ : SupervisorRuntime} {e : SupervisorError} : ¬ late → Keeps rt rt₁ →
      Goes late rt ⟨rt₁.closed (some e), .exited (.error e)⟩
  | returns {rt₁ : SupervisorRuntime} {result : Except SupervisorError Unit} : (∀ e, result = .error e → late) →
      Keeps rt rt₁ → rt₁.Vacated → Goes late rt ⟨rt₁.closed none, .exited result⟩

theorem SupervisorRuntime.Keeps.goes {m : Machine} (h : Keeps rt rt₁) (hg : Goes late rt₁ m) : Goes late rt m := by
  cases hg with
  | awaits hk hp htag => exact .awaits (h.trans hk) hp htag
  | fails hl hk => exact .fails hl (h.trans hk)
  | returns hr hk hv => exact .returns hr (h.trans hk) hv

theorem sendSupervisorEvent_frame (kind : SupervisorEventKind) :
    (rt.sendSupervisorEvent kind).children = rt.children ∧ (rt.sendSupervisorEvent kind).cfg = rt.cfg := by
  unfold sendSupervisorEvent
  simp only
  split <;> exact ⟨rfl, rfl⟩

theorem finish_frame : rt.finish.children = rt.children ∧ rt.finish.now = rt.now := by
  unfold SupervisorRuntime.finish sendSupervisorEvent
  simp only
  split <;> exact ⟨rfl, rfl⟩

theorem keeps_finish : Keeps rt rt.finish := by
  refine keeps_of_children ?_ (sendSupervisorEvent_frame _).1
  refine Tends.trans ?_ (tends_sendSupervisorEvent _)
  exact Calm.of_eq rfl

theorem SupervisorRuntime.Vacated.finish (h : rt.Vacated) : rt.finish.Vacated := by
  have hframe := @sendSupervisorEvent_frame { rt with state := .stopped } .supervisorStopped
  unfold Vacated SupervisorRuntime.finish
  rw [hframe.1, hframe.2]
  exact h

/-- The drain of a shutdown answered; a failed scope fails now. -/
theorem resumeShutdown_goes (after : ExitReason) {out : DrainOut} (hout : ∀ p, out = .await p → p.tag = (.shutdown, .all, rt.cfg.kind))
    (hfail : late → after = .shutdown) (hlate : after = .shutdown → ∀ e, out = .done (.error e) → late)
    (hv : after = .shutdown → ∀ r, out = .done r → rt.Vacated) : Goes late rt (resumeShutdown after (out, rt)) := by
  have hearly : ∀ e, after = .failure e → ¬ late := by
    intro e he hl
    rw [hfail hl] at he
    cases he
  cases out with
  | await p =>
    refine .awaits .refl nofun fun p' after' heq => ?_
    cases heq
    exact hout p rfl
  | done result =>
    cases result with
    | ok exits =>
      cases after with
      | shutdown => exact .returns nofun keeps_finish (hv rfl _ rfl).finish
      | failure e => exact .fails (hearly e rfl) keeps_finish
    | error err =>
      cases after with
      | shutdown => exact .returns (fun _ _ => hlate rfl err rfl) .refl (hv rfl _ rfl)
      | failure e => exact .fails (hearly e rfl) .refl

/-- With nobody to wait for, the walk of a shutdown is over at once. -/
theorem orderedWalk_done {d : OrderedDrain} {r : Except SupervisorError (List ClassifiedExit)} (hr : d.reason = .shutdown)
    (ht : d.timedOut = []) (hd : d.deferred = []) :
    ∀ {keys : List ChildKey} {rt : SupervisorRuntime}, (orderedWalk d keys rt).1 = .done r → r = .ok []
  | [], rt, h => by
    have h : rt.orderedEnd { d with rest := [] } = .done r := h
    unfold orderedEnd orderedResult at h
    simp only [ht, hr, hd] at h
    simp at h
    exact h.symm
  | key :: keys, rt, h => by
    unfold orderedWalk at h
    split at h
    · exact orderedWalk_done hr ht hd h
    · split at h
      · exact orderedWalk_done hr ht hd h
      · simp only at h
        split at h
        · cases h
        · cases h

theorem shutdownAll_goes (after : ExitReason) : Goes False rt (shutdownAll after rt) := by
  let rt₁ := { rt with state := .stopping, stoppingToken := true }.sendSupervisorEvent .supervisorStopping
  have h₁ : Keeps rt rt₁ := by
    refine keeps_of_children ?_ (sendSupervisorEvent_frame _).1
    refine Tends.trans ?_ (tends_sendSupervisorEvent _)
    exact Calm.of_eq rfl
  obtain ⟨hw, hin⟩ := @startDrain_wends rt₁ .shutdown .all
  have hdone : ∀ r, (rt₁.startDrain .shutdown .all).1 = .done r → rt₁.cfg.kind = .ordered ∧ r = .ok [] := by
    intro r hr
    unfold startDrain at hr
    split at hr
    · rename_i hkind
      exact ⟨hkind, orderedWalk_done rfl rfl rfl hr⟩
    · cases hr
  show Goes False rt (resumeShutdown after (rt₁.startDrain .shutdown .all))
  generalize rt₁.startDrain .shutdown .all = out at hw hin hdone
  obtain ⟨out, rt₂⟩ := out
  refine SupervisorRuntime.Keeps.goes (h₁.trans hw.keeps) (resumeShutdown_goes after (fun p hp => ?_) nofun (fun _ e he => ?_)
    fun _ r hr => .inl ?_)
  · have hp : out = .await p := hp
    rw [hp] at hin
    rw [hw.kind]
    exact hin.tag_eq
  · cases (hdone _ he).2
  · exact hw.kind.trans (hdone r hr).1

theorem keeps_detach : Keeps rt rt.detachNestedChildrenForRevivableFailure := by
  refine ⟨(tends_map fun k e => ?_).toAttends, fun hbusy key e' he' hm => ?_⟩
  · split <;> rfl
  · have he' : (rt.children.map _).get key = some e' := he'
    rw [Slab.get_map] at he'
    obtain ⟨e, he, rfl⟩ := Option.map_eq_some_iff.mp he'
    split at hm
    · rename_i hc
      rw [if_pos hc]
      exact hbusy key e he hm
    · rename_i hc
      rw [if_neg hc]
      exact hbusy key e he hm

theorem exitWith_goes (reason : ExitReason) : Goes False rt (exitWith reason rt) := by
  have hfail : ∀ e, Goes False rt ⟨(if rt.cfg.revivable then rt.detachNestedChildrenForRevivableFailure else rt).closed (some e),
      .exited (.error e)⟩ := by
    intro e
    refine .fails id ?_
    split
    · exact keeps_detach
    · exact .refl
  cases reason with
  | shutdown => exact shutdownAll_goes .shutdown
  | failure e =>
    cases e with
    | startupAborted m => exact shutdownAll_goes _
    | _ => exact hfail _

/-- Outside a shutdown the run just goes on. -/
theorem goes_main (h : Keeps rt rt₁) : Goes False rt ⟨rt₁, .main⟩ :=
  .awaits h (fun _ hr => by cases hr) fun _ _ hd => by cases hd

theorem goes_restart {p : DrainPhase} {keys : List ChildKey} {freshGroupToken : Bool} :
    Goes False rt ⟨rt, .drain p (.restart keys freshGroupToken)⟩ :=
  .awaits .refl (fun _ hr => by cases hr) fun _ _ hd => by cases hd

theorem continueMain_goes {m : RuntimeM Unit} (h : Keeps rt (m rt₁).2) : Goes False rt (continueMain m rt₁) := by
  unfold continueMain
  generalize m rt₁ = q at h
  obtain ⟨r, rt₂⟩ := q
  cases r with
  | ok _ => exact goes_main h
  | error reason => exact h.goes (exitWith_goes reason)

theorem wakeMain_goes (w : Wake) (hb : rt.ledger.Books) (ho : rt.ledger.Open) (hs : rt.ledger.Settled) (hf : rt.Fit)
    (hd : rt.commandRx ≠ [] → rt.cfg.kind = .dynamic) : Goes False rt (wakeMain rt w) := by
  cases w with
  | shutdown =>
    unfold wakeMain
    simp only
    split
    · exact exitWith_goes .shutdown
    · exact goes_main .refl
  | command =>
    unfold wakeMain
    simp only
    split
    · rename_i command rest _ hc
      exact continueMain_goes (handleCommand_keeps command hb ho (hd (hc ▸ List.cons_ne_nil _ _)) hf hc)
    · refine goes_main ?_
      split
      · exact keeps_of_children (Calm.of_eq rfl) rfl
      · exact .refl
    · exact goes_main .refl
  | ready =>
    unfold wakeMain
    simp only
    split
    · rename_i ready rest hrx
      have h₀ : Tends rt { rt with readyRx := rest } := Calm.of_eq rfl
      exact continueMain_goes (keeps_of_leads hf (h₀.trans (handleChildReady_tends ready).1)
        (handleChildReady_leads ho hs hrx) fun _ => Starts.serves)
    · exact goes_main .refl
  | nestedSnapshot =>
    unfold wakeMain
    simp only
    split
    · rename_i n rest _
      have hlead : Leads (· = .other) rt (({ rt with nestedRx := rest } : SupervisorRuntime).handleNestedSnapshot n) :=
        @handleNestedSnapshot_leads { rt with nestedRx := rest } (· = .other) rfl n
      have h₀ : Tends rt { rt with nestedRx := rest } := Calm.of_eq rfl
      exact goes_main (keeps_of_leads hf (h₀.trans (tends_handleNestedSnapshot n)) hlead fun _ => other_serves)
    · exact goes_main .refl
  | deadline =>
    unfold wakeMain
    simp only
    split
    · exact .awaits .refl (fun _ hr => by cases hr) fun _ _ hd => by cases hd
    · exact goes_main .refl
  | joined task =>
    unfold wakeMain
    simp only
    split
    · rename_i c hc
      exact continueMain_goes (handleJoinedChild_keeps c hb ho hf (mem_of_joinable hc))
    · exact goes_main .refl
  | timer => exact goes_main .refl
  | resumed => exact goes_main .refl
  | noJoin => exact goes_main .refl

theorem resumeRestart_goes {keys : List ChildKey} {scope : DrainScope} (freshGroupToken : Bool) {out : DrainOut}
    (hb : rt.ledger.Books) (ho : rt.ledger.Open) (hf : rt.Fit) (hout : out.Inv scope rt.ledger) (hn : keys.Nodup)
    (hk : ∀ k ∈ keys, scope.contains k = true) : Goes False rt (resumeRestart keys freshGroupToken (out, rt)) := by
  cases out with
  | await p => exact goes_restart
  | done result =>
    cases result with
    | error e => exact exitWith_goes _
    | ok completed =>
      obtain ⟨exits, ⟨rfl, hi⟩, hdef, -⟩ := hout
      have hi' : ∀ k ∈ keys, Inactive rt.ledger k := fun k h => hi k (hk k h)
      exact continueMain_goes (keeps_of_leads hf (finishRestart_tends freshGroupToken hb ho hf hn hi' hdef).1
        (finishRestart_leads hb ho hn hi' hdef) fun _ => Resumes.serves)

theorem deadlineBatch_goes (hb : rt.ledger.Books) (ho : rt.ledger.Open) (hs : rt.ledger.Settled) (hf : rt.Fit)
    (hd : rt.commandRx ≠ [] → rt.cfg.kind = .dynamic) : Goes False rt (deadlineBatch rt) := by
  obtain ⟨hlead, hkeys⟩ := deadlineBatch_runs ho
  have hkeep : Keeps rt ((drainDeadlineCommandBatch rt.commandRx >>= fun _ => handleDeadlines) rt).2 := by
    have hbatch := drainDeadlineCommandBatch_keeps rt.commandRx hb ho hd hf rfl
    have hpath := drainDeadlineCommandBatch_leads rt.commandRx ho
    rw [Act.run_bind]
    generalize drainDeadlineCommandBatch rt.commandRx rt = q at hbatch hpath
    obtain ⟨r, rt₂⟩ := q
    cases r with
    | error reason => exact hbatch
    | ok _ =>
      have ho₂ : rt₂.ledger.Open := leads_open (fun _ => Commands.not_shutdown) hpath ho
      exact hbatch.trans (keeps_of_leads (hf.attends hbatch.1) handleDeadlines_tends.1 (handleDeadlines_runs ho₂).1
        fun _ => Starts.serves)
  unfold deadlineBatch
  simp only
  generalize (drainDeadlineCommandBatch rt.commandRx >>= fun _ => handleDeadlines) rt = q at hlead hkeys hkeep
  obtain ⟨r, rt₁⟩ := q
  obtain ⟨hb₁, ho₁, hs₁⟩ := path_main (fun _ k hl => Commands.quiet hl k) hlead hb ho hs
  refine hkeep.goes ?_
  have hgroup : ∀ keys reason scope fresh, keys.Nodup → (∀ k ∈ keys, scope.contains k = true) → reason ≠ .shutdown →
      Goes False rt₁ (resumeRestart keys fresh (rt₁.startDrain reason scope)) := by
    intro keys reason scope fresh hn hk hr
    obtain ⟨hbd, hod, hout⟩ := startDrain_restart scope hb₁ ho₁ hs₁ hr
    have hw := (@startDrain_wends rt₁ reason scope).1.keeps
    exact hw.goes (resumeRestart_goes fresh hbd hod ((hf.attends hkeep.1).attends hw.1) hout hn hk)
  cases r with
  | error reason => exact exitWith_goes reason
  | ok keys =>
    cases keys with
    | none => exact goes_main .refl
    | some keys =>
      have hn : keys.Nodup := (hkeys _ _ rfl keys rfl).nodup hb₁.order_nodup
      simp only
      split
      · exact hgroup keys .groupRestart .all true hn (fun _ _ => rfl) (by decide)
      · exact hgroup keys .restForOneRestart (.subset keys) false hn (fun _ => subset_contains) (by decide)

theorem restartDrain_goes {p : DrainPhase} {keys : List ChildKey} {freshGroupToken : Bool} (w : Wake)
    (hb : rt.ledger.Books) (hf : rt.Fit) (hinv : (Continuation.restart keys freshGroupToken).Inv p rt.ledger) :
    Goes False rt (wakeDrain rt p (.restart keys freshGroupToken) w) := by
  have hprog := hinv.2.1.progress
  have hout : ∀ {out : DrainOut × SupervisorRuntime}, Wends p.tag .all rt out → Leads (Stops p.scope) rt out.2 →
      out.1.Good p.scope p.deferred out.2.ledger → Goes False rt (resumeRestart keys freshGroupToken out) := by
    intro out hw hlead hgood
    obtain ⟨hb₁, ho₁, hout⟩ := restartDrain_out hb hinv hlead hgood
    exact hw.1.keeps.goes (resumeRestart_goes freshGroupToken hb₁ ho₁ (hf.attends hw.1.keeps.1) hout hinv.2.2.1 hinv.2.2.2)
  cases w with
  | joined task =>
    have hjoin : ∀ c, joinable rt task = some c → Goes False rt (resumeRestart keys freshGroupToken (drainJoined p task c rt)) := by
      intro c hc
      obtain ⟨hb₁, ho₁, hout⟩ := @restartDrain_joined rt p keys freshGroupToken task c hb hinv (mem_of_joinable hc)
      have hkeep := @drainJoined_keeps rt p task c (mem_of_joinable hc) hb hf
      exact hkeep.goes (resumeRestart_goes freshGroupToken hb₁ ho₁ (hf.attends hkeep.1) hout hinv.2.2.1 hinv.2.2.2)
    unfold wakeDrain
    simp only
    split
    · exact goes_restart
    · exact goes_restart
    · exact goes_restart
    · rename_i hc
      exact hjoin _ hc
    · exact goes_restart
  | timer => exact hout (drainTimer_wends p.within_all) (drainTimer_leads hprog.stopping) (drainTimer_good hb hprog)
  | resumed => exact hout (drainResumed_wends p.within_all) (drainResumed_leads hprog.stopping) (drainResumed_good hb hprog)
  | noJoin => exact hout (drainNoJoin_wends p.within_all) (drainNoJoin_leads hprog.stopping) (drainNoJoin_good hb hprog)
  | _ => exact goes_restart

/-! ### The drain of a shutdown -/

theorem idle_of_inactive (h : ∀ k, Inactive rt.ledger k) : rt.Vacated :=
  .inr fun key e he => h key e.member (ledger_get he)

/-- The concurrent drain leaves its loop only when nobody is active. -/
theorem concurrentLeave_vacates {d : ConcurrentDrain} {r : Except SupervisorError (List ClassifiedExit)} (hb : rt.ledger.Books)
    (ha : d.scope = .all) (h : (rt.concurrentLeave d).1 = .done r) : (rt.concurrentLeave d).2.Vacated := by
  unfold concurrentLeave at h ⊢
  by_cases hn : rt.activeTaskNames d.scope = ""
  · rw [if_neg (not_not.mpr hn)]
    refine idle_of_inactive fun k => inactive_of_childNames hb hn ?_
    rw [ha]
    rfl
  · rw [if_pos hn] at h
    cases h

theorem concurrentLoop_vacates {d : ConcurrentDrain} {r : Except SupervisorError (List ClassifiedExit)} (hb : rt.ledger.Books)
    (ha : d.scope = .all) (h : (rt.concurrentLoop d).1 = .done r) : (rt.concurrentLoop d).2.Vacated := by
  unfold concurrentLoop at h ⊢
  by_cases hd : rt.isDrained d.scope = true
  · rw [if_pos hd] at h ⊢
    exact concurrentLeave_vacates hb ha h
  · rw [if_neg hd] at h ⊢
    simp only at h ⊢
    split at h
    · rename_i hnil
      rw [if_pos hnil]
      exact concurrentLeave_vacates (d := { d with deadlines := _ }) hb ha h
    · cases h

theorem concurrentTimer_vacates {d : ConcurrentDrain} {r : Except SupervisorError (List ClassifiedExit)} (hb : rt.ledger.Books)
    (ha : d.scope = .all) (h : (concurrentTimer d rt).1 = .done r) : (concurrentTimer d rt).2.Vacated := by
  obtain ⟨h₁, h₂, -⟩ := expireGrace_fold (expiredGraces d rt.now) (d, rt)
  rw [concurrentTimer_eq] at h ⊢
  generalize (expiredGraces d rt.now).foldl (fun x p => expireGrace x p.1 p.2) (d, rt) = y at h₁ h₂ h ⊢
  obtain ⟨d₁, rt₁⟩ := y
  simp only [concurrentDue] at h₁ h₂ h ⊢
  refine concurrentLoop_vacates ?_ (h₂.trans ha) h
  rw [ledger_foldl (fun rt k => ledger_abortChild k), h₁]
  exact hb

/-- The last sweep of a shutdown found no join. -/
def sweptOut (m : Machine) (i : Input) : Prop :=
  ∃ d, m.phase = .drain (.concurrent d .lastSweep) (.shutdown .shutdown) ∧ i = .wake .noJoin

/-- An await of a shutdown drain resolved and the drain ended: nobody is left, or it was
    its last sweep. -/
theorem shutdownDrain_goes {p : DrainPhase} {out : DrainOut × SupervisorRuntime} (after : ExitReason)
    (hp : p.tag = (.shutdown, .all, rt.cfg.kind)) (hk : Keeps rt out.2) (hkind : out.2.cfg.kind = rt.cfg.kind)
    (hin : out.1.Within p.tag .all)
    (hv : after = .shutdown → ∀ d w r, p = .concurrent d w → out.1 = .done r → out.2.Vacated) :
    Goes (after = .shutdown) rt (resumeShutdown after out) := by
  obtain ⟨out, rt₁⟩ := out
  refine hk.goes (resumeShutdown_goes after (fun p' hp' => ?_) id (fun ha _ _ => ha) fun ha r hr => ?_)
  · have hp' : out = .await p' := hp'
    rw [hp'] at hin
    have hkind : rt₁.cfg.kind = rt.cfg.kind := hkind
    rw [hin.tag_eq, hp, hkind]
  · cases p with
    | ordered d w =>
      have hord : ScopeKind.ordered = rt.cfg.kind := congrArg (fun t : DrainTag => t.2.2) hp
      exact .inl (hkind.trans hord.symm)
    | concurrent d w => exact hv ha d w r rfl hr

theorem concurrent_scope {d : ConcurrentDrain} {w : ConcurrentWait}
    (h : (DrainPhase.concurrent d w).tag = (.shutdown, .all, rt.cfg.kind)) : d.scope = .all :=
  congrArg (fun t : DrainTag => t.2.1) h

/-- A join never ends a shutdown drain with a child behind. -/
theorem drainJoined_vacates {d : ConcurrentDrain} {w : ConcurrentWait} {task : TaskId} {c : Conclusion}
    {r : Except SupervisorError (List ClassifiedExit)} (hb : rt.ledger.Books) (ha : d.scope = .all)
    (hj : task ∈ rt.joinSet.map (·.id)) (h : (drainJoined (.concurrent d w) task c rt).1 = .done r) :
    (drainJoined (.concurrent d w) task c rt).2.Vacated := by
  obtain ⟨cursor, hok, -⟩ := @drainJoined_cases rt (.concurrent d w) task c
  obtain ⟨exits, hex⟩ := handleJoinForScope_ok c (DrainPhase.concurrent d w).scope cursor hb hj
  have hb₁ : (handleJoinForScope task c (DrainPhase.concurrent d w).scope cursor rt).2.ledger.Books := by
    rcases handleJoinForScope_leads c (DrainPhase.concurrent d w).scope cursor hj hb with ⟨hl, -⟩ | ⟨t, -, ⟨L, hs, hp⟩, -⟩
    · exact path_books hl hb
    · exact path_books hp (step_books hs hb)
  rw [hok exits hex] at h ⊢
  generalize (handleJoinForScope task c (DrainPhase.concurrent d w).scope cursor rt).2 = rt₁ at hb₁ h ⊢
  unfold rejoined deferring at h ⊢
  simp only at h ⊢
  by_cases hw : w = .select
  · rw [if_pos hw] at h ⊢
    exact concurrentLoop_vacates hb₁ ha h
  · rw [if_neg hw] at h
    cases h

theorem drainNoJoin_vacates {d : ConcurrentDrain} {w : ConcurrentWait} {r : Except SupervisorError (List ClassifiedExit)}
    (hb : rt.ledger.Books) (ha : d.scope = .all) (hw : w ≠ .lastSweep) (h : (drainNoJoin (.concurrent d w) rt).1 = .done r) :
    (drainNoJoin (.concurrent d w) rt).2.Vacated := by
  cases w with
  | yield => cases h
  | sweep =>
    show (concurrentSwept d .sweep rt).2.Vacated
    have h : (concurrentSwept d .sweep rt).1 = .done r := h
    unfold concurrentSwept at h ⊢
    simp only at h ⊢
    by_cases hd : rt.isDrained d.scope = true
    · rw [if_pos hd]
      refine idle_of_inactive fun k => inactive_of_isDrained hb hd ?_
      rw [ha]
      rfl
    · rw [if_neg hd] at h ⊢
      exact concurrentLoop_vacates hb ha h
  | select =>
    unfold drainNoJoin at h ⊢
    simp only at h ⊢
    by_cases hj : rt.joinSet.isEmpty = true
    · rw [if_pos hj] at h ⊢
      exact concurrentLeave_vacates hb ha h
    · rw [if_neg hj] at h
      cases h
  | lastYield => cases h
  | lastSweep => exact absurd rfl hw

theorem drainJoined_within (p : DrainPhase) (task : TaskId) (c : Conclusion) :
    (drainJoined p task c rt).1.Within p.tag .all := by
  obtain ⟨cursor, hok, herr⟩ := @drainJoined_cases rt p task c
  cases hr : (handleJoinForScope task c p.scope cursor rt).1 with
  | ok exits =>
    rw [hok exits hr]
    exact (rejoined_wends _ (deferring_within exits p.within_all)).2
  | error err =>
    obtain ⟨-, ⟨e, h⟩ | h⟩ := herr err hr
    · rw [h]
      trivial
    · rw [h]
      exact p.within_all

theorem drainJoined_kind {p : DrainPhase} {task : TaskId} (c : Conclusion) (hj : task ∈ rt.joinSet.map (·.id))
    (hb : rt.ledger.Books) : (drainJoined p task c rt).2.cfg.kind = rt.cfg.kind := by
  rcases @drainJoined_leads rt p (Stops .all) task c hj hb trivial p.stopping_all with hl | ⟨t, -, L, hs, hp⟩
  · exact Ledger.Path.kind hl
  · exact (Ledger.Path.kind hp).trans hs.kind

/-- After its last sweep a shutdown returns, whoever is left. -/
theorem lastSweep_closes (d : ConcurrentDrain) :
    ∃ rt₁ result, wakeDrain rt (.concurrent d .lastSweep) (.shutdown .shutdown) .noJoin = ⟨closed rt₁ none, .exited result⟩ ∧
      Keeps rt rt₁ ∧ rt₁.children = rt.children ∧ rt₁.now = rt.now := by
  have hend : ∃ result, rt.concurrentEnd d = .done result := by
    unfold concurrentEnd
    simp only
    split
    · exact ⟨_, rfl⟩
    · split
      · exact ⟨_, rfl⟩
      · exact ⟨_, rfl⟩
  obtain ⟨result, hend⟩ := hend
  show ∃ rt₁ result, resumeShutdown .shutdown (rt.concurrentEnd d, rt) = _ ∧ _
  rw [hend]
  cases result with
  | ok exits => exact ⟨rt.finish, .ok (), rfl, keeps_finish, finish_frame⟩
  | error err => exact ⟨rt, .error err, rfl, .refl, rfl, rfl⟩

theorem shutdownWake_goes {p : DrainPhase} (after : ExitReason) (w : Wake) (hb : rt.ledger.Books) (hf : rt.Fit)
    (hp : p.tag = (.shutdown, .all, rt.cfg.kind)) :
    Goes (after = .shutdown) rt (wakeDrain rt p (.shutdown after) w) ∨ sweptOut ⟨rt, .drain p (.shutdown after)⟩ (.wake w) ∧
      ∃ rt₁ result, wakeDrain rt p (.shutdown after) w = ⟨closed rt₁ none, .exited result⟩ ∧ Keeps rt rt₁ ∧
        rt₁.children = rt.children ∧ rt₁.now = rt.now := by
  have hstay : Goes (after = .shutdown) rt ⟨rt, .drain p (.shutdown after)⟩ := by
    refine .awaits .refl nofun fun p' after' heq => ?_
    cases heq
    exact hp
  have hout : ∀ {out : DrainOut × SupervisorRuntime}, Wends p.tag .all rt out →
      (after = .shutdown → ∀ d w r, p = .concurrent d w → out.1 = .done r → out.2.Vacated) →
      Goes (after = .shutdown) rt (resumeShutdown after out) :=
    fun hw hv => shutdownDrain_goes after hp hw.1.keeps hw.1.kind hw.2 hv
  cases w with
  | joined task =>
    have hjoin : ∀ c, joinable rt task = some c → Goes (after = .shutdown) rt (resumeShutdown after (drainJoined p task c rt)) := by
      intro c hc
      have hj := mem_of_joinable hc
      refine shutdownDrain_goes after hp (drainJoined_keeps c hj hb hf) (drainJoined_kind c hj hb) (drainJoined_within p task c) ?_
      intro _ d w r heq hr
      subst heq
      exact drainJoined_vacates hb (concurrent_scope hp) hj hr
    left
    unfold wakeDrain
    simp only
    split
    · exact hstay
    · exact hstay
    · exact hstay
    · rename_i hc
      exact hjoin _ hc
    · exact hstay
  | timer =>
    refine .inl (hout (drainTimer_wends p.within_all) fun _ d w r heq hr => ?_)
    subst heq
    unfold drainTimer at hr ⊢
    simp only at hr ⊢
    split at hr
    · rename_i hc
      rw [if_pos hc]
      exact concurrentTimer_vacates hb (concurrent_scope hp) hr
    · cases hr
  | resumed =>
    refine .inl (hout (drainResumed_wends p.within_all) fun _ d w r heq hr => ?_)
    subst heq
    cases w <;> cases hr
  | noJoin =>
    by_cases hlast : after = .shutdown ∧ ∃ d, p = .concurrent d .lastSweep
    · obtain ⟨rfl, d, rfl⟩ := hlast
      exact .inr ⟨⟨d, rfl, rfl⟩, lastSweep_closes d⟩
    · refine .inl (hout (drainNoJoin_wends p.within_all) fun ha d w r heq hr => ?_)
      subst heq
      refine drainNoJoin_vacates hb (concurrent_scope hp) ?_ hr
      rintro rfl
      exact hlast ⟨ha, d, rfl⟩
  | _ => exact .inl hstay

end Goes

end Kokage.Supervisor
