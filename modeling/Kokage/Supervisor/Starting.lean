/-
  Kokage.Supervisor.Starting — the handlers that start children are paths of ledger
  steps: spawning, the start sequence, readiness, group respawn and commands.

  `Leads A` relates two runtimes by a path of their ledgers with labels in `A`; each
  lemma `f_runs` or `f_leads` says where the handler `f` leads, under what its callers
  guarantee:
  - `Open`: the scope has not begun its shutdown, and a dynamic scope has no start gate;
  - `Settled`: a child that is stopping is being removed (true outside drains);
  - `Startable`: a respawned child is inactive, a child started first has not started.
-/

import Kokage.Supervisor.Abstraction
import Kokage.Supervisor.Books

namespace Kokage.Supervisor

open Kokage.Lib Ledger

/-! ## Leading along paths -/

def Leads (A : Label → Prop) (rt rt' : SupervisorRuntime) : Prop := Ledger.Path A rt.ledger rt'.ledger

instance (A : Label → Prop) : Std.Refl (Leads A) := ⟨fun _ => Ledger.Path.refl⟩

instance (A : Label → Prop) : IsTrans SupervisorRuntime (Leads A) := ⟨fun _ _ _ h h' => Ledger.Path.trans h h'⟩

/-- The labels of code that starts children. -/
def Starts : Label → Prop
  | .other | .spawned _ => True
  | _ => False

/-- The labels of code that starts no child but `key`. -/
def StartsOnly (key : ChildKey) : Label → Prop
  | .other => True
  | .spawned k => k = key
  | _ => False

theorem StartsOnly.starts {key : ChildKey} {l : Label} (h : StartsOnly key l) : Starts l := by
  cases l <;> trivial

namespace Ledger

structure Open (L : Ledger) : Prop where
  running : L.running = true
  gate : L.kind = .dynamic → L.gate = none

def Settled (L : Ledger) : Prop :=
  ∀ k m, L.members.get k = some m → m.state = .stopping → m.membership = .removing

theorem Step.keeps_open {l : Label} {L L' : Ledger} (hl : l ≠ .shutdown) (h : Step l L L') (ho : L.Open) : L'.Open := by
  cases h with
  | shutdown => exact absurd rfl hl
  | spawned => exact ⟨ho.running, fun hk => by show regate _ _ _ = none; rw [ho.gate hk]; rfl⟩
  | spawnedReady => exact ⟨ho.running, fun hk => by show regate _ _ _ = none; rw [ho.gate hk]; rfl⟩
  | gated gate hg =>
    refine ⟨ho.running, fun hk => ?_⟩
    cases gate with
    | none => rfl
    | some g =>
      rcases hg g rfl with h | ⟨h, _⟩
      · rw [ho.gate hk] at h
        cases h
      · have hk : L.kind = .dynamic := hk
        rw [h] at hk
        cases hk
  | _ => exact ⟨ho.running, ho.gate⟩

theorem Step.kind {l : Label} {L L' : Ledger} (h : Step l L L') : L'.kind = L.kind := by
  cases h <;> rfl

theorem Path.kind {A : Label → Prop} {L L' : Ledger} (h : Ledger.Path A L L') : L'.kind = L.kind :=
  h.keeps (I := fun X => X.kind = L.kind) (fun _ hs hI => hs.kind.trans hI) rfl

theorem Path.keeps_open {A : Label → Prop} (hA : ∀ l, A l → l ≠ .shutdown) {L L' : Ledger} (h : Ledger.Path A L L') (ho : L.Open) :
    L'.Open :=
  h.keeps (fun hl hs => hs.keeps_open (hA _ hl)) ho

end Ledger

theorem Starts.not_shutdown {l : Label} (h : Starts l) : l ≠ .shutdown := by
  rintro rfl
  exact h

theorem StartsOnly.not_shutdown {key : ChildKey} {l : Label} (h : StartsOnly key l) : l ≠ .shutdown :=
  h.starts.not_shutdown

theorem leads_open {A : Label → Prop} (hA : ∀ l, A l → l ≠ .shutdown) {rt rt' : SupervisorRuntime}
    (h : Leads A rt rt') (ho : rt.ledger.Open) : rt'.ledger.Open :=
  Ledger.Path.keeps_open hA h ho

namespace SupervisorRuntime

variable {rt rt' : SupervisorRuntime} {key : ChildKey} {e : ChildEntry} {A : Label → Prop}

theorem leads_of_ledger_eq (h : rt'.ledger = rt.ledger) : Leads A rt rt' := Ledger.Path.of_eq h.symm

theorem leads_mono {B : Label → Prop} (hAB : ∀ l, A l → B l) (h : Leads A rt rt') : Leads B rt rt' := Ledger.Path.mono hAB h

theorem leads_publish (hA : A .other) : Leads A rt rt.publishSnapshot := publishes hA

/-! ## Spawning -/

/-- Where a spawn that is not refused ends. -/
def afterSpawn (rt : SupervisorRuntime) (key : ChildKey) (entry : ChildEntry) : SupervisorRuntime :=
  let e := rt.prepareSpawn key entry
  let rt := { rt with spawnedFrom := rt.spawnedFrom ++ [entry.runtime.state] }.installTask key e
  if e.runtime.definition.readiness = .immediate then
    (rt.sendLifecycle key (.started e.runtime.generation)).sendChildEvent
  else rt.publishSnapshot

/-- The generation a spawn of `entry` returns. -/
def nextGeneration (entry : ChildEntry) : Nat :=
  if entry.runtime.hasStarted then entry.runtime.generation + 1 else entry.runtime.generation

theorem spawnChild_refused (h : rt.children.get key = some e) (hr : e.member.Refuses) :
    ∃ err, spawnChild key rt = (.error err,
      { rt with spawnedFrom := rt.spawnedFrom ++ [e.runtime.state],
                children := rt.children.insertAt key (rt.prepareSpawn key e) }) := by
  refine ⟨.failure (.internal ("missing stable channels for nested supervisor " ++ e.id)), ?_⟩
  have hk : (rt.prepareSpawn key e).runtime.definition.kind.isSupervisor = true := hr.1
  have hc : (rt.prepareSpawn key e).nestedChannels = none := hr.2
  simp [spawnChild, h, hk, hc]
  rfl

theorem spawnChild_eq (h : rt.children.get key = some e) (hr : ¬ e.member.Refuses) :
    ∃ old, spawnChild key rt = (.ok (old, nextGeneration e), rt.afterSpawn key e) := by
  have hr' : ((rt.prepareSpawn key e).runtime.definition.kind.isSupervisor &&
      (rt.prepareSpawn key e).nestedChannels.isNone) = false := by
    rw [Bool.and_eq_false_iff]
    by_contra hc
    simp only [not_or, Bool.not_eq_false, Option.isNone_iff_eq_none] at hc
    exact hr hc
  refine ⟨if e.runtime.hasStarted then some e.runtime.generation else none, ?_⟩
  simp only [spawnChild, Act.run_get_bind, h, Act.run_modify_bind, hr']
  unfold afterSpawn
  by_cases hi : (rt.prepareSpawn key e).runtime.definition.readiness = .immediate
  · simp [hi]
    rfl
  · simp [hi]
    rfl

theorem sendLifecycleDraft_sequence (d : LifecycleEventDraft) (s : Option StartSequence) :
    { rt.sendLifecycleDraft d with startSequence := s } = { rt with startSequence := s }.sendLifecycleDraft d := by
  unfold sendLifecycleDraft
  simp only
  split <;> rfl

theorem sendLifecycle_sequence (kind : ChildEventKind) (s : Option StartSequence) :
    { rt.sendLifecycle key kind with startSequence := s } = { rt with startSequence := s }.sendLifecycle key kind := by
  unfold sendLifecycle lifecycleDraft
  simp only
  cases rt.children.get key with
  | none => rfl
  | some e => exact sendLifecycleDraft_sequence _ s

theorem sendLifecycle_children (kind : ChildEventKind) : (rt.sendLifecycle key kind).children = rt.children := by
  unfold sendLifecycle sendLifecycleDraft
  split
  · simp only
    split <;> rfl
  · rfl

theorem afterSpawn_sequence (s : Option StartSequence) :
    { rt.afterSpawn key e with startSequence := s } = { rt with startSequence := s }.afterSpawn key e := by
  unfold afterSpawn
  simp only
  have hp : ({ rt with startSequence := s } : SupervisorRuntime).prepareSpawn key e = rt.prepareSpawn key e := rfl
  rw [hp]
  split
  · exact congrArg publishSnapshot (sendLifecycle_sequence _ s)
  · rfl

theorem afterSpawn_startSequence : (rt.afterSpawn key e).startSequence = rt.startSequence := by
  have h := @afterSpawn_sequence rt key e rt.startSequence
  exact (congrArg SupervisorRuntime.startSequence h).symm

theorem finishSpawn_member (task : TaskId) :
    (finishSpawn task (rt.prepareSpawn key e)).member = e.member.spawn task := by
  unfold finishSpawn prepareSpawn ChildEntry.member Member.spawn Member.prepare
  simp only [Member.mk.injEq, true_and, and_true]
  by_cases hi : e.runtime.definition.readiness = .immediate <;> simp [hi]

/-- A spawn with the start gate renamed after it. -/
theorem afterSpawn_leads (s : Option StartSequence)
    (hs : s.bind (·.gate) = regate rt.startGate key { e.member with generation := nextGeneration e })
    (h : rt.children.get key = some e) (hm : e.membership = .active) (hi : e.runtime.state.isIdle = true)
    (hr : ¬ e.member.Refuses) :
    Leads (StartsOnly key) rt { rt.afterSpawn key e with startSequence := s } := by
  have hA : StartsOnly key .other := trivial
  have hA' : StartsOnly key (.spawned key) := rfl
  rw [afterSpawn_sequence]
  have hfresh := rt.cfg.host.taskId_fresh rt.ledger.joinIds
  generalize htask : rt.cfg.host.taskId rt.ledger.joinIds = task at hfresh
  let rt1 : SupervisorRuntime :=
    { rt with startSequence := s, spawnedFrom := rt.spawnedFrom ++ [e.runtime.state] }.installTask key
      (rt.prepareSpawn key e)
  have hget : rt1.children.get key = some (finishSpawn task (rt.prepareSpawn key e)) := by
    rw [← htask]
    exact Slab.get_insertAt_self ..
  have hl : rt1.ledger = rt.ledger.install key e.member task := by
    subst htask
    unfold ledger install
    simp only [Ledger.mk.injEq]
    refine ⟨rfl, rfl, rfl, ?_, rfl, rfl, rfl, rfl, ?_, hs, rfl, rfl, rfl, rfl, rfl, rfl, rfl, rfl, rfl⟩
    · rw [← finishSpawn_member]
      exact map_insertAt
    · exact List.map_append ..
  unfold afterSpawn
  simp only
  have hp : ({ rt with startSequence := s } : SupervisorRuntime).prepareSpawn key e = rt.prepareSpawn key e := rfl
  rw [hp]
  by_cases him : (rt.prepareSpawn key e).runtime.definition.readiness = .immediate
  · rw [if_pos him]
    obtain ⟨d, hd, he⟩ := sendLifecycle_eq (.started (rt.prepareSpawn key e).runtime.generation) hget
    have hd' : d.For e.member (.started (e.member.spawn task).generation) :=
      ⟨hd.childId_eq, hd.lineage_eq, hd.kind_eq⟩
    have h1 : Ledger.Path (StartsOnly key) rt.ledger (rt1.ledger.emit d) := by
      rw [hl]
      exact .single (.spawnedReady (ledger_get h) hm hi hfresh hr him hd') hA'
    have h2 : Ledger.Path (StartsOnly key) (rt1.ledger.emit d) (rt1.sendLifecycleDraft d).ledger := emits d hA
    rw [← he] at h2
    exact h1.trans (h2.trans (publishes hA))
  · rw [if_neg him]
    have hg : e.member.definition.readiness.isGated = true := by
      have him : e.member.definition.readiness ≠ .immediate := him
      cases hc : e.member.definition.readiness with
      | immediate => exact absurd hc him
      | manual => rfl
      | automatic => rfl
    have h1 : Ledger.Path (StartsOnly key) rt.ledger rt1.ledger := by
      rw [hl]
      exact .single (.spawned (ledger_get h) hm hi hfresh hr hg) hA'
    exact h1.trans (publishes hA)

/-- The entry a spawn leaves. -/
theorem afterSpawn_get : ∃ e', (rt.afterSpawn key e).children.get key = some e' ∧
    ∃ task, e'.member = e.member.spawn task := by
  refine ⟨_, ?_, _, @finishSpawn_member rt key e (rt.cfg.host.taskId (rt.joinSet.map (·.id)))⟩
  unfold afterSpawn
  simp only
  split
  · show (sendLifecycle _ _ _).children.get key = _
    rw [sendLifecycle_children]
    exact Slab.get_insertAt_self ..
  · exact Slab.get_insertAt_self ..

theorem refused_leads (h : rt.children.get key = some e) (hr : e.member.Refuses) :
    Leads (StartsOnly key) rt
      { rt with spawnedFrom := rt.spawnedFrom ++ [e.runtime.state],
                children := rt.children.insertAt key (rt.prepareSpawn key e) } := by
  have hl : ({ rt with spawnedFrom := rt.spawnedFrom ++ [e.runtime.state],
                       children := rt.children.insertAt key (rt.prepareSpawn key e) } : SupervisorRuntime).ledger =
      { rt.ledger with spawnedFrom := rt.ledger.spawnedFrom ++ [e.member.state] }.put key e.member.prepare := by
    unfold ledger put
    congr 1
    exact map_insertAt
  unfold Leads
  rw [hl]
  exact .single (.refused (ledger_get h) hr) rfl

theorem spawnStartItem_runs (item : StartItem) (hg : rt.startGate = none) :
    Act.Runs (Leads (StartsOnly item.key)) (spawnStartItem item) rt fun _ _ => True := by
  refine Act.runs_get ?_
  cases h : rt.children.get item.key with
  | none => exact Act.runs_pure trivial
  | some e =>
    simp only
    split
    · exact Act.runs_pure trivial
    · rename_i hc
      simp only [ne_eq, Bool.or_eq_true, decide_eq_true_eq, Bool.not_eq_true', not_or, Decidable.not_not,
        Bool.not_eq_false] at hc
      obtain ⟨⟨hlin, hm⟩, hi⟩ := hc
      by_cases hr : e.member.Refuses
      · obtain ⟨err, herr⟩ := spawnChild_refused h hr
        refine ⟨?_, ?_⟩
        · rw [Act.run_bind, herr]
          exact refused_leads h hr
        · intro a s' hs
          rw [Act.run_bind, herr] at hs
          cases hs
      · obtain ⟨old, hold⟩ := spawnChild_eq h hr
        have hgate : rt.startSequence.bind (·.gate) = none := hg
        have hlead : Leads (StartsOnly item.key) rt (rt.afterSpawn item.key e) := by
          have := afterSpawn_leads rt.startSequence (by rw [hgate, hg]; rfl) h hm hi hr
          rwa [← @afterSpawn_startSequence rt item.key e] at this
        have hrun : Act.Runs (Leads (StartsOnly item.key)) (spawnChild item.key) rt
            fun a rt' => a.2 = nextGeneration e ∧ rt' = rt.afterSpawn item.key e := by
          refine ⟨by rw [hold]; exact hlead, ?_⟩
          intro a s' hs
          rw [hold] at hs
          cases hs
          exact ⟨rfl, rfl⟩
        refine Act.runs_bind hrun ?_
        rintro ⟨old', gen⟩ rt1 - ⟨hgen, rfl⟩
        simp only at hgen
        subst hgen
        obtain ⟨e', hget, task, hmem⟩ := @afterSpawn_get rt item.key e
        simp only
        split
        · rename_i hk
          simp only [Bool.and_eq_true, decide_eq_true_eq] at hk
          refine Act.runs_modify (Ledger.Path.single (.gated _ ?_) trivial) trivial
          rintro g ⟨⟩
          refine .inr ⟨?_, e'.member, ⟨ledger_get hget, ?_, ?_⟩, ?_, ?_, ?_, ?_⟩
          · exact (Ledger.Path.kind hlead).trans hk.1
          · rw [hmem]; exact hlin
          · rw [hmem]; rfl
          · rw [hmem]; exact hk.2
          · rw [hmem]
            show decide (e.runtime.definition.readiness = .immediate) = false
            have := hk.2
            cases hc : e.runtime.definition.readiness <;> simp_all [ChildReadiness.isGated]
          · rw [hmem]; rfl
          · rw [hmem]; exact isActive_spawn ..
        · split
          · exact Act.runs_modify (leads_of_ledger_eq (ledger_startupMemberReady _ _)) trivial
          · exact Act.runs_pure trivial

/-! ## The startup verdict and the start sequence -/

/-- It fails, with its verdict, or does nothing. -/
theorem startupMemberAborted_cases (lineage : Nat) (h : rt.children.get key = some e) :
    startupMemberAborted key lineage rt = (.ok (), rt) ∨
      ∃ err, startupMemberAborted key lineage rt =
        (.error err, rt.notify (.startupAborted ⟨key, lineage, e.runtime.generation⟩)) := by
  by_cases hc : (rt.startupGate.any (·.contains (key, lineage))) = true
  · refine .inr ⟨.failure (.startupAborted ("child `" ++ e.id ++ "` exited before reporting readiness")), ?_⟩
    simp only [startupMemberAborted, Act.run_get_bind, if_pos hc, h]
    rfl
  · refine .inl ?_
    simp only [startupMemberAborted, Act.run_get_bind, if_neg hc]
    rfl

theorem ledger_notify_verdict (t : TaskMeta) :
    (rt.notify (.startupAborted t)).ledger = { rt.ledger with verdicts := rt.ledger.verdicts ++ [t] } := by
  unfold ledger notify
  simp only [List.filterMap_append]
  rfl

theorem startupMemberAborted_runs {lineage : Nat} (hA : A .other) (hrun : rt.ledger.running = true)
    (h : rt.children.get key = some e) (hl : e.lineage = lineage) (hd : e.member.Doomed) :
    Act.Runs (Leads A) (startupMemberAborted key lineage) rt fun _ rt' => rt' = rt := by
  subst hl
  rcases startupMemberAborted_cases _ h with hc | ⟨err, hc⟩
  · refine ⟨by rw [hc]; exact Ledger.Path.refl, fun a s' hs => ?_⟩
    rw [hc] at hs
    cases hs
    rfl
  · refine ⟨?_, fun a s' hs => ?_⟩
    · unfold Leads
      rw [hc, ledger_notify_verdict]
      exact .single (.verdict hrun (ledger_get h) hd) hA
    · rw [hc] at hs
      cases hs

theorem gateState_eq {gate : StartGate} {st : RuntimeChildState} {deadline : Option Instant}
    (h : rt.gateState gate = some (st, deadline)) :
    ∃ e, rt.children.get gate.key = some e ∧ e.lineage = gate.lineage ∧ e.membership = .active ∧
      e.runtime.state = st := by
  unfold gateState at h
  cases hg : rt.children.get gate.key with
  | none => simp [hg] at h
  | some e =>
    simp only [hg, Option.bind_some, Option.ite_none_right_eq_some, Option.some.injEq, Prod.mk.injEq] at h
    obtain ⟨⟨hl, hm⟩, hs, -⟩ := h
    exact ⟨e, rfl, hl, hm, hs⟩

theorem ledger_setGate_none : (rt.setGate none).ledger = { rt.ledger with gate := none } := by
  unfold ledger setGate startGate
  congr 1
  cases rt.startSequence <;> rfl

theorem leads_setGate_none (hA : A .other) : Leads A rt (rt.setGate none) := by
  unfold Leads
  rw [ledger_setGate_none]
  exact .single (.gated none (by rintro g ⟨⟩)) hA

theorem startGate_setGate_none : (rt.setGate none).startGate = none := by
  unfold setGate startGate
  cases rt.startSequence <;> rfl

theorem startGate_startupMemberReady (key : ChildKey) (lineage : Nat) :
    (rt.startupMemberReady key lineage).startGate = rt.startGate :=
  congrArg Ledger.gate (ledger_startupMemberReady key lineage)

theorem passGate_runs {gate : StartGate} (hA : A .other) (hrun : rt.ledger.running = true)
    (hg : rt.startGate = some gate) :
    Act.Runs (Leads A) (passGate gate) rt fun go rt' => go = true → rt'.startGate = none := by
  refine Act.runs_get ?_
  have hopen : Act.Runs (Leads A) (do Act.modify (·.setGate none); pure true : RuntimeM Bool) rt
      fun go rt' => go = true → rt'.startGate = none :=
    Act.runs_modify_bind (leads_setGate_none hA) (Act.runs_pure fun _ => startGate_setGate_none)
  split
  · exact Act.runs_pure (by rintro ⟨⟩)
  · exact Act.runs_pure (by rintro ⟨⟩)
  · exact Act.runs_pure (by rintro ⟨⟩)
  · refine Act.runs_modify_bind (leads_setGate_none hA) ?_
    refine Act.runs_modify_bind (leads_of_ledger_eq (ledger_startupMemberReady _ _)) ?_
    refine Act.runs_pure fun _ => ?_
    rw [startGate_startupMemberReady]
    exact startGate_setGate_none
  · rename_i hs
    obtain ⟨e, hget, hl, hm, hst⟩ := gateState_eq hs
    have hget' : (rt.setGate none).children.get gate.key = some e := hget
    rcases startupMemberAborted_cases gate.lineage hget' with hc | ⟨err, hc⟩
    · refine ⟨?_, fun a s' ha _ => ?_⟩
      · rw [Act.run_modify_bind, Act.run_bind, hc]
        exact leads_setGate_none hA
      · rw [Act.run_modify_bind, Act.run_bind, hc] at ha
        cases ha
        exact startGate_setGate_none
    · refine ⟨?_, fun a s' ha => ?_⟩
      · -- the verdict is read off the gate before the ledger sees it open
        have hv : Ledger.Path A rt.ledger { rt.ledger with
            verdicts := rt.ledger.verdicts ++ [⟨gate.key, e.lineage, e.runtime.generation⟩] } :=
          .single (.verdictAtGate hrun hg (ledger_get hget) hl hm hst) hA
        rw [Act.run_modify_bind, Act.run_bind, hc]
        unfold Leads
        rw [ledger_notify_verdict, ledger_setGate_none, ← hl]
        exact hv.trans (.single (.gated none (by rintro g ⟨⟩)) hA)
      · rw [Act.run_modify_bind, Act.run_bind, hc] at ha
        cases ha
  · exact hopen
  · exact hopen

theorem popQueue_runs : ∀ (queue : List StartItem) {rt : SupervisorRuntime}, rt.startGate = none →
    Act.Runs (Leads Starts) (popQueue queue) rt fun _ _ => True
  | [], rt, hg => by
    refine Act.runs_modify (leads_of_ledger_eq ?_) trivial
    unfold ledger
    rw [hg]
    rfl
  | item :: rest, rt, hg => by
    have hg' : ({ rt with startSequence := rt.startSequence.map fun s => { s with queue := rest } } :
        SupervisorRuntime).startGate = rt.startGate := by
      unfold startGate
      cases rt.startSequence <;> rfl
    refine Act.runs_modify_bind (leads_of_ledger_eq ?_) ?_
    · unfold ledger
      rw [hg']
    · refine Act.runs_bind ((spawnStartItem_runs _ (hg'.trans hg)).mono fun _ => leads_mono fun _ => StartsOnly.starts) ?_
      intro _ rt1 _ _
      refine Act.runs_get ?_
      split
      · exact Act.runs_pure trivial
      · rename_i hc
        exact popQueue_runs rest (by simpa using hc)

theorem advanceStartSequence_runs (hrun : rt.ledger.running = true) :
    Act.Runs (Leads Starts) advanceStartSequence rt fun _ _ => True := by
  refine Act.runs_get ?_
  cases hg : rt.startGate with
  | none =>
    refine Act.runs_bind (Act.runs_pure (Q := fun go rt' => go = true → rt'.startGate = none) fun _ => hg) ?_
    intro go rt1 _ hgo
    cases go with
    | true => exact popQueue_runs _ (hgo rfl)
    | false => exact Act.runs_pure trivial
  | some gate =>
    refine Act.runs_bind (passGate_runs trivial hrun hg) ?_
    intro go rt1 _ hgo
    cases go with
    | true => exact popQueue_runs _ (hgo rfl)
    | false => exact Act.runs_pure trivial

theorem removeStartSequenceMember_leads (hA : A .other) (lineage : Nat) :
    Leads A rt (rt.removeStartSequenceMember key lineage).2 := by
  unfold removeStartSequenceMember
  cases hs : rt.startSequence with
  | none => exact Ledger.Path.refl
  | some s =>
    simp only
    refine Ledger.Path.trans (.single (.gated (if _ then none else s.gate) ?_) hA) (.of_eq rfl)
    intro g hg
    split at hg
    · cases hg
    · refine .inl ?_
      show rt.startSequence.bind _ = _
      rw [hs]
      exact hg

theorem removeStartSequenceMember_children (lineage : Nat) :
    (rt.removeStartSequenceMember key lineage).2.children = rt.children := by
  unfold removeStartSequenceMember
  split <;> rfl

theorem detachStartMember_runs {lineage : Nat} (ho : rt.ledger.Open) :
    Act.Runs (Leads Starts) (detachStartMember key lineage) rt fun _ _ => True := by
  have hlead : Leads Starts rt (rt.removeStartSequenceMember key lineage).2 :=
    removeStartSequenceMember_leads trivial lineage
  refine Act.runs_get ?_
  generalize rt.removeStartSequenceMember key lineage = p at hlead
  obtain ⟨clearedGate, rt'⟩ := p
  have hl : Leads Starts rt (rt'.startupMemberRemoved key lineage) :=
    hlead.trans (leads_of_ledger_eq (ledger_startupMemberReady _ _))
  refine Act.runs_modify_bind hl ?_
  cases clearedGate with
  | true => exact advanceStartSequence_runs (leads_open (fun _ => Starts.not_shutdown) hl ho).running
  | false => exact Act.runs_pure trivial

theorem terminalStartMember_runs {lineage : Nat} (ho : rt.ledger.Open) (h : rt.children.get key = some e)
    (hl : e.lineage = lineage) (hd : e.member.Doomed) :
    Act.Runs (Leads Starts) (terminalStartMember key lineage) rt fun _ _ => True := by
  have hlead : Leads Starts rt (rt.removeStartSequenceMember key lineage).2 :=
    removeStartSequenceMember_leads trivial lineage
  have hget : (rt.removeStartSequenceMember key lineage).2.children.get key = some e := by
    rw [removeStartSequenceMember_children]
    exact h
  refine Act.runs_get ?_
  generalize rt.removeStartSequenceMember key lineage = p at hlead hget
  obtain ⟨clearedGate, rt'⟩ := p
  have hrun := (leads_open (fun _ => Starts.not_shutdown) hlead ho).running
  refine Act.runs_modify_bind hlead ?_
  refine Act.runs_bind (startupMemberAborted_runs trivial hrun hget hl hd) ?_
  rintro _ _ - rfl
  cases clearedGate with
  | true => exact advanceStartSequence_runs hrun
  | false => exact Act.runs_pure trivial

/-! ## Readiness -/

/-- What taking a readiness message does before the start sequence moves on. -/
def tookReady (rt : SupervisorRuntime) (ready : ChildReady) : SupervisorRuntime :=
  ((rt.editRuntime ready.key fun r => { r with state := .running, hasReportedReady := true }).sendLifecycle
    ready.key (.started ready.generation)).sendChildEvent.startupMemberReady ready.key ready.lineage

theorem startupMemberReady_sequence (lineage : Nat) (s : Option StartSequence) :
    { rt.startupMemberReady key lineage with startSequence := s } =
      { rt with startSequence := s }.startupMemberReady key lineage := by
  unfold startupMemberReady
  simp only
  split
  · rfl
  · unfold completeEmptyStartupGate
    simp only
    split <;> rfl

theorem tookReady_sequence (ready : ChildReady) (s : Option StartSequence) :
    { rt.tookReady ready with startSequence := s } = { rt with startSequence := s }.tookReady ready := by
  unfold tookReady
  rw [startupMemberReady_sequence]
  congr 1
  exact congrArg publishSnapshot (sendLifecycle_sequence _ s)

theorem tookReady_startSequence (ready : ChildReady) : (rt.tookReady ready).startSequence = rt.startSequence := by
  have h := @tookReady_sequence rt ready rt.startSequence
  exact (congrArg SupervisorRuntime.startSequence h).symm

theorem tookReady_leads {ready : ChildReady} {rest : List ChildReady} (hA : A .other)
    (hrx : rt.readyRx = ready :: rest) (h : rt.children.get ready.key = some e) (hl : e.lineage = ready.lineage)
    (hgen : e.runtime.generation = ready.generation) (hm : e.membership = .active) (hst : e.runtime.state = .starting)
    (hg : rt.startGate ≠ some ⟨ready.key, ready.lineage, ready.generation⟩) :
    Leads A rt ({ rt with readyRx := rest }.tookReady ready) := by
  let f : ChildEntry → ChildEntry := fun e =>
    { e with runtime := { e.runtime with state := .running, hasReportedReady := true } }
  let rt1 : SupervisorRuntime := { rt with readyRx := rest }.edit ready.key f
  have hget : rt1.children.get ready.key = some (f e) := get_edit h
  have hl1 : rt1.ledger = { rt.ledger with readyRx := rest }.put ready.key e.member.ready := ledger_edit h
  obtain ⟨d, hd, he⟩ := sendLifecycle_eq (.started ready.generation) hget
  have hd' : d.For e.member (.started e.member.generation) :=
    ⟨hd.childId_eq, hd.lineage_eq, hd.kind_eq.trans (by rw [← hgen]; rfl)⟩
  have h1 : Ledger.Path A rt.ledger (rt1.ledger.emit d) := by
    rw [hl1]
    exact .single (.received hrx ⟨ledger_get h, hl, hgen⟩ hm hst hg hd') hA
  have h2 : Ledger.Path A (rt1.ledger.emit d) (rt1.sendLifecycleDraft d).ledger := emits d hA
  rw [← he] at h2
  refine (h1.trans (h2.trans (publishes hA))).trans (.of_eq ?_)
  exact (ledger_startupMemberReady _ _).symm

/-- The message at the head of the channel is taken or dropped. -/
theorem handleChildReady_leads {ready : ChildReady} {rest : List ChildReady} (ho : rt.ledger.Open)
    (hs : rt.ledger.Settled) (hrx : rt.readyRx = ready :: rest) :
    Leads Starts rt (handleChildReady ready { rt with readyRx := rest }).2 := by
  have hdrop : (∀ m, rt.ledger.Current ready m → m.membership = .active → m.state ≠ .starting ∧ m.state ≠ .stopping) →
      Leads Starts rt { rt with readyRx := rest } := fun h => .single (.dropped hrx h) trivial
  unfold handleChildReady
  rw [Act.run_get_bind]
  cases h : rt.children.get ready.key with
  | none =>
    refine hdrop fun m hm _ => ?_
    have := hm.1
    rw [ledger_get_none h] at this
    cases this
  | some e =>
    simp only
    split
    · rename_i hc
      refine hdrop fun m hm hact => ?_
      obtain ⟨hm, hlin, hgen⟩ := hm
      rw [ledger_get h] at hm
      cases hm
      have hst : e.runtime.state ≠ .starting := by
        intro hst
        have hlin : e.lineage = ready.lineage := hlin
        have hgen : e.runtime.generation = ready.generation := hgen
        have hact : e.membership = .active := hact
        simp [hlin, hgen, hact, hst] at hc
      refine ⟨hst, fun hstop => ?_⟩
      have := hs _ _ (ledger_get h) hstop
      rw [hact] at this
      cases this
    · rename_i hc
      simp only [ne_eq, Bool.or_eq_true, decide_eq_true_eq, not_or, Decidable.not_not] at hc
      obtain ⟨⟨⟨hlin, hgen⟩, hm⟩, hst⟩ := hc
      simp only [Act.run_modify_bind, Act.run_get_bind]
      change Leads Starts rt ((if ({ rt with readyRx := rest }.tookReady ready).startGate.any _ = true then _ else _ :
        RuntimeM Unit) ({ rt with readyRx := rest }.tookReady ready)).2
      have hgate : ({ rt with readyRx := rest }.tookReady ready).startGate = rt.startGate := by
        unfold startGate
        rw [tookReady_startSequence]
      rw [hgate]
      by_cases hg : rt.startGate = some ⟨ready.key, ready.lineage, ready.generation⟩
      · -- the gate opens first: no later step reads it before it is cleared
        have h1 : Leads Starts rt (rt.setGate none) := leads_setGate_none trivial
        have h2 : Leads Starts (rt.setGate none) (({ rt with readyRx := rest }.tookReady ready).setGate none) := by
          have := @tookReady_leads (rt.setGate none) e Starts ready rest trivial hrx h hlin hgen hm hst
            (by rw [startGate_setGate_none]; exact nofun)
          rwa [show ({ rt.setGate none with readyRx := rest } : SupervisorRuntime).tookReady ready =
            ({ rt with readyRx := rest }.tookReady ready).setGate none from ?_] at this
          unfold setGate
          rw [tookReady_startSequence]
          exact (@tookReady_sequence { rt with readyRx := rest } ready _).symm
        have h12 := h1.trans h2
        simp only [hg, Option.any_some, decide_true, Bool.and_self, if_true, Act.run_modify_bind]
        exact h12.trans (advanceStartSequence_runs (leads_open (fun _ => Starts.not_shutdown) h12 ho).running).1
      · rw [if_neg]
        · exact tookReady_leads trivial hrx h hlin hgen hm hst hg
        · intro hany
          cases hgt : rt.startGate with
          | none => simp [hgt] at hany
          | some g =>
            simp only [hgt, Option.any_some, Bool.and_eq_true, decide_eq_true_eq] at hany
            obtain ⟨⟨hk, hl⟩, hgn⟩ := hany
            apply hg
            rw [hgt, ← hk, ← hl, ← hgn]

/-! ## Removal and group respawn -/

theorem ledger_dropEntry : (rt.dropEntry key e).ledger = rt.ledger.drop key e.member := by
  unfold ledger drop dropEntry
  congr 1
  exact map_remove

theorem finalizeRemovedChild_leads (hA : A .other) (key : ChildKey) (checkElapsedGrace : Bool) :
    Leads A rt (rt.finalizeRemovedChild key checkElapsedGrace) := by
  unfold finalizeRemovedChild
  cases h : rt.children.get key with
  | none => exact Ledger.Path.refl
  | some e =>
    let d : LifecycleEventDraft :=
      ⟨e.id, e.lineage, rt.totalRestarts, e.runtime.restartTracker.totalRestarts, .removed⟩
    let rt1 := ((rt.dropEntry key e).clearCell e).retireNested e
    have hdraft : rt.lifecycleDraft key .removed = some d := by simp [lifecycleDraft, h, d]
    have hl : rt1.ledger = rt.ledger.drop key e.member := by
      rw [ledger_retireNested, ledger_clearCell, ledger_dropEntry]
    have h1 : Ledger.Path A rt.ledger (rt1.ledger.emit d) := by
      rw [hl]
      exact .single (.removed (ledger_get h) ⟨rfl, rfl, rfl⟩) hA
    have h2 : Ledger.Path A rt.ledger (rt1.sendLifecycleDraft d).sendChildEvent.ledger :=
      h1.trans ((emits d hA).trans (publishes hA))
    simp only [hdraft]
    split
    · exact h2.trans (.of_eq (ledger_notify rfl).symm)
    · exact h2

theorem finalizeSkippedGroupRespawn_runs {startupAborted : Bool} (hA : A .other) (hrun : rt.ledger.running = true)
    (h : rt.children.get key = some e) (hd : startupAborted = true → e.member.Doomed) :
    Act.Runs (Leads A) (finalizeSkippedGroupRespawn key startupAborted) rt fun _ _ => True := by
  have hend : ∀ rt : SupervisorRuntime, Act.Runs (Leads A)
      (if (rt.children.get key).any (·.runtime.definition.removeOnTerminalExit) = true then
        Act.modify (·.finalizeRemovedChild key false)
      else Act.modify (·.markChildTerminal key) : RuntimeM Unit) rt fun _ _ => True := by
    intro rt
    split
    · exact Act.runs_modify (finalizeRemovedChild_leads hA key false) trivial
    · exact Act.runs_modify (leads_of_ledger_eq (ledger_markChildTerminal key)) trivial
  refine Act.runs_get ?_
  cases startupAborted with
  | false =>
    refine Act.runs_get ?_
    exact hend rt
  | true =>
    let f : ChildEntry → ChildEntry := fun e => { e with runtime := { e.runtime with startupAborted := true } }
    have hget : (rt.edit key f).publishSnapshot.children.get key = some (f e) := get_edit h
    have hdoom := hd rfl
    have hstep : Leads A rt (rt.edit key f).publishSnapshot := by
      refine Ledger.Path.trans ?_ (publishes hA)
      rw [ledger_edit h]
      exact .single (.flagged hrun (ledger_get h) hdoom) hA
    simp only [h, Option.map_some, Option.getD_some, if_true]
    refine Act.runs_modify_bind hstep ?_
    refine Act.runs_bind (startupMemberAborted_runs hA hrun hget rfl hdoom) ?_
    intro _ rt1 _ _
    exact Act.runs_get (hend rt1)

/-- The labels of code that starts children and queues only those in `keys`. -/
def Schedules (keys : List ChildKey) : Label → Prop
  | .other | .spawned _ => True
  | .queued k => k ∈ keys
  | _ => False

/-- The labels of code that starts or queues no child but `key`. -/
def SchedulesOnly (key : ChildKey) : Label → Prop
  | .other => True
  | .spawned k | .queued k => k = key
  | _ => False

theorem scheduleStart_runs {emitRestartEvents : Bool} (ho : rt.ledger.Open)
    (hq : ∀ e, rt.children.get key = some e → e.membership = .active →
      ¬ (e.member.hasStarted = true ∧ e.member.definition.restart.isNever = true)) :
    Act.Runs (Leads (SchedulesOnly key)) (scheduleStart key emitRestartEvents) rt fun _ _ => True := by
  refine Act.runs_get ?_
  cases h : rt.children.get key with
  | none => exact Act.runs_pure trivial
  | some e =>
    simp only
    split
    · exact Act.runs_pure trivial
    · rename_i hc
      simp only [ne_eq, Bool.or_eq_true, decide_eq_true_eq, Bool.not_eq_true', not_or, Decidable.not_not,
        Bool.not_eq_false] at hc
      obtain ⟨hm, hi⟩ := hc
      split
      · rename_i hk
        refine (spawnStartItem_runs ⟨key, e.lineage, emitRestartEvents⟩ (ho.gate hk)).mono fun _ => ?_
        refine leads_mono fun l hl => ?_
        cases l <;> trivial
      · refine Act.runs_modify (Ledger.Path.trans (.single (.queued (ledger_get h) hm hi (hq e h hm)) rfl) (.of_eq ?_)) trivial
        let f : ChildEntry → ChildEntry := fun e =>
          { e with runtime := { e.runtime with
              state := .startQueued, hasReportedReady := false, nextRestartDeadline := none } }
        exact (ledger_edit (f := f) h).symm

/-- What the loop of `schedule_start_sequence` needs of a key it has not reached: a
    respawned child is inactive, a child started for the first time has not started. -/
def Startable (emitRestartEvents : Bool) (L : Ledger) (key : ChildKey) : Prop :=
  ∀ m, L.members.get key = some m → if emitRestartEvents then m.isActive = false else m.hasStarted = false

/-- Only its own spawn changes that. -/
theorem step_startable {emitRestartEvents : Bool} {l : Label} {L L' : Ledger} {k : ChildKey} (hl : l ≠ .spawned k)
    (hs : Step l L L') (h : Startable emitRestartEvents L k) : Startable emitRestartEvents L' k := by
  have hput : ∀ {k' m} (m' : Member), L.members.get k' = some m → m'.hasStarted = m.hasStarted →
      (m.isActive = false → m'.isActive = false) → Startable emitRestartEvents (L.put k' m') k := by
    intro k' m m' hm hst hact x hx
    rw [get_put] at hx
    split at hx
    · rename_i he
      subst he
      cases hx
      have := h m hm
      cases emitRestartEvents with
      | true => exact hact this
      | false => exact hst.trans this
    · exact h x hx
  have hins : ∀ {k' : ChildKey} {L'' : Ledger} {m'}, k' ≠ k → L''.members = L.members.insertAt k' m' →
      Startable emitRestartEvents L'' k := by
    intro k' L'' m' hk hL x hx
    rw [hL, Slab.get_insertAt_ne _ _ hk.symm] at hx
    exact h x hx
  have hne : ∀ {k' : ChildKey}, (Label.spawned k' : Label) ≠ .spawned k → k' ≠ k := by
    rintro k' hl rfl
    exact hl rfl
  cases hs with
  | shutdown => exact h
  | sent => exact h
  | announced => exact h
  | publish => exact h
  | @added _ key' m _ hget _ hf =>
    intro x hx
    have hx : (L.members.insertAt key' m).get k = some x := hx
    rw [Slab.get_insertAt] at hx
    split at hx
    · cases hx
      cases emitRestartEvents with
      | true => simp [Member.isActive, hf.state_eq, RuntimeChildState.isActive]
      | false => exact hf.hasStarted_eq
    · exact h x hx
  | spawned => exact hins (hne hl) rfl
  | spawnedReady => exact hins (hne hl) rfl
  | refused => exact hins (hne hl) rfl
  | received _ hc _ hst =>
    have := hput (Member.ready _) hc.1 rfl
      (by intro ha; simp [Member.isActive, hst, RuntimeChildState.isActive] at ha)
    exact this
  | dropped => exact h
  | @exited _ _ _ m x _ _ hc =>
    have := hput (m.exit x) hc.1 rfl fun _ => rfl
    exact this
  | staleJoin => exact h
  | lostJoin => exact h
  | scheduled => exact h
  | @removed _ key' =>
    intro x hx
    have hx : (L.members.remove key').get k = some x := hx
    rw [Slab.get_remove] at hx
    split at hx
    · cases hx
    · exact h x hx
  | stopped hm ha => exact hput _ hm rfl fun hn => by rw [ha] at hn; cases hn
  | removing hm =>
    refine hput _ hm rfl fun ha => ?_
    unfold Member.isActive Member.remove at *
    simp [ha]
  | queued hm => exact hput _ hm rfl fun _ => rfl
  | gated => exact h
  | flagged _ hm => exact hput _ hm rfl id
  | verdict => exact h
  | verdictAtGate => exact h

theorem SchedulesOnly.schedules {keys : List ChildKey} (hk : key ∈ keys) {l : Label} (h : SchedulesOnly key l) :
    Schedules keys l := by
  cases l with
  | queued k =>
    have h : k = key := h
    exact h ▸ hk
  | _ => trivial

theorem Schedules.not_shutdown {keys : List ChildKey} {l : Label} (h : Schedules keys l) : l ≠ .shutdown := by
  rintro rfl
  exact h

theorem Starts.schedules {keys : List ChildKey} {l : Label} (h : Starts l) : Schedules keys l := by
  cases l <;> trivial

theorem runs_schedules {α : Type} {keys : List ChildKey} {m : RuntimeM α} {Q : α → SupervisorRuntime → Prop}
    (h : Act.Runs (Leads Starts) m rt Q) : Act.Runs (Leads (Schedules keys)) m rt Q :=
  h.mono fun _ => leads_mono fun _ => Starts.schedules

/-- The body of the loop of `schedule_start_sequence`. -/
theorem scheduleOne_runs {emitRestartEvents : Bool} (ho : rt.ledger.Open)
    (hs : Startable emitRestartEvents rt.ledger key) :
    Act.Runs (Leads (SchedulesOnly key))
      (match (if emitRestartEvents then rt.groupRespawnDisposition key else .respawn) with
        | .respawn => scheduleStart key emitRestartEvents
        | .skip => pure ()
        | .finalize startupAborted => finalizeSkippedGroupRespawn key startupAborted) rt fun _ _ => True := by
  cases emitRestartEvents with
  | false =>
    refine scheduleStart_runs ho fun e he _ hc => ?_
    have : e.member.hasStarted = false := hs _ (ledger_get he)
    rw [this] at hc
    cases hc.1
  | true =>
    simp only [if_true]
    unfold groupRespawnDisposition
    cases h : rt.children.get key with
    | none => exact Act.runs_pure trivial
    | some e =>
      simp only
      by_cases hm : e.membership = .active
      · by_cases hc : (e.runtime.hasStarted && e.runtime.definition.restart.isNever) = true
        · simp only [ne_eq, hm, not_true, if_false, hc, if_true]
          rw [Bool.and_eq_true] at hc
          refine finalizeSkippedGroupRespawn_runs trivial ho.running h fun hr => ?_
          have hr : e.runtime.hasReportedReady = false := by simpa using hr
          refine ⟨?_, hr, hc.1, .inr ⟨hs _ (ledger_get h), hc.2⟩⟩
          show e.membership ≠ .removing
          rw [hm]
          exact nofun
        · simp only [ne_eq, hm, not_true, if_false, hc]
          refine scheduleStart_runs ho fun e' he' _ hc' => hc ?_
          rw [h] at he'
          cases he'
          rw [Bool.and_eq_true]
          exact hc'
      · simp only [ne_eq, hm, not_false_eq_true, if_true]
        exact Act.runs_pure trivial

theorem scheduleStartSequence_runs (keys : List ChildKey) (emitRestartEvents : Bool) (ho : rt.ledger.Open)
    (hn : keys.Nodup) (hs : ∀ k ∈ keys, Startable emitRestartEvents rt.ledger k) :
    Act.Runs (Leads (Schedules keys)) (scheduleStartSequence keys emitRestartEvents) rt fun _ _ => True := by
  -- the loop only starts or queues the key it is at, so the keys to come stay startable
  have hloop : Act.Runs (Leads (Schedules keys)) (Act.forEach keys fun key => do
      let rt ← Act.get
      match (if emitRestartEvents then rt.groupRespawnDisposition key else .respawn) with
      | .respawn => scheduleStart key emitRestartEvents
      | .skip => pure ()
      | .finalize startupAborted => finalizeSkippedGroupRespawn key startupAborted) rt fun _ rt' =>
        rt'.ledger.Open := by
    let I : List ChildKey → SupervisorRuntime → Prop := fun rest rt' =>
      rt'.ledger.Open ∧ rest.Nodup ∧ (∀ k ∈ rest, k ∈ keys) ∧ ∀ k ∈ rest, Startable emitRestartEvents rt'.ledger k
    refine (Act.runs_forEach (I := I) ?_ keys rt ⟨ho, hn, fun _ hk => hk, hs⟩).weaken fun _ _ h => h.1
    intro key rest rt1 ⟨ho1, hn1, hmem, hs1⟩
    obtain ⟨hnotin, hn2⟩ := List.nodup_cons.mp hn1
    refine Act.runs_get ?_
    have hrun := scheduleOne_runs ho1 (hs1 key (List.mem_cons_self ..))
    have hmono : ∀ rt2, Leads (SchedulesOnly key) rt1 rt2 → Leads (Schedules keys) rt1 rt2 := fun rt2 =>
      leads_mono fun _ => SchedulesOnly.schedules (hmem key (List.mem_cons_self ..))
    refine ⟨hmono _ hrun.1, fun _ rt2 h2 => ?_⟩
    have hlead : Leads (SchedulesOnly key) rt1 rt2 := by
      have := hrun.1
      rw [h2] at this
      exact this
    refine ⟨leads_open (fun _ => Schedules.not_shutdown) (hmono _ hlead) ho1, hn2,
      fun k hk => hmem k (List.mem_cons_of_mem _ hk), fun k hk => ?_⟩
    refine Ledger.Path.keeps (I := fun L => Startable emitRestartEvents L k) (fun hl => step_startable ?_) hlead
      (hs1 k (List.mem_cons_of_mem _ hk))
    rintro rfl
    have hl : k = key := hl
    exact hnotin (hl ▸ hk)
  refine Act.runs_bind hloop ?_
  intro _ rt1 _ ho1
  refine Act.runs_get ?_
  split
  · refine Act.runs_modify_bind (leads_publish trivial) ?_
    exact runs_schedules (advanceStartSequence_runs ho1.running)
  · exact Act.runs_pure trivial

/-! ## Commands -/

theorem checkAddition_ok {d : ChildDefinition} (h : rt.checkAddition d = .ok ()) :
    d.id ≠ "" ∧ rt.childrenById d.id = none := by
  unfold checkAddition at h
  split at h
  · cases h
  · rename_i hid
    refine ⟨hid, ?_⟩
    split at h
    · cases h
    · split at h
      · cases h
      · assumption

theorem slabKey_fresh (rt : SupervisorRuntime) : rt.children.get (rt.cfg.host.slabKey rt.children.keys) = none := by
  have := rt.cfg.host.slabKey_fresh rt.children.keys
  rw [Slab.mem_keys] at this
  cases h : rt.children.get (rt.cfg.host.slabKey rt.children.keys) with
  | none => rfl
  | some e => exact absurd ⟨e, h⟩ this

/-- The member a new entry shows. -/
theorem member_new {d : ChildDefinition} {nested : Option StableChannels} {lineage : Nat} {seed : UInt64}
    (hid : d.id ≠ "") (hc : ¬ (d.kind.isSupervisor = true ∧ nested = none)) :
    (ChildEntry.new d.id d nested lineage seed).member.Fresh lineage :=
  ⟨hid, rfl, hc, rfl, rfl, rfl, rfl, rfl, rfl, rfl, rfl⟩

theorem ledger_insertEntry (d : ChildDefinition) (nested : Option StableChannels) :
    (rt.insertEntry d nested).ledger = rt.ledger.insert (rt.cfg.host.slabKey rt.children.keys)
      (ChildEntry.new d.id d nested rt.nextLineage (rt.cfg.host.seed rt.nextLineage)).member := by
  unfold ledger Ledger.insert insertEntry
  congr 1
  exact map_insertAt

/-- A child that starts within a command may be any. -/
def Commands : Label → Prop
  | .other | .spawned _ | .queued _ => True
  | _ => False

theorem Commands.not_shutdown {l : Label} (h : Commands l) : l ≠ .shutdown := by
  rintro rfl
  exact h

theorem Schedules.commands {keys : List ChildKey} {l : Label} (h : Schedules keys l) : Commands l := by
  cases l <;> trivial

theorem Starts.commands {l : Label} (h : Starts l) : Commands l := by
  cases l <;> trivial

/-- The parent's map gets the identity of a nested child. -/
def notifyNested (rt : SupervisorRuntime) (id : String) : Option StableChannels → SupervisorRuntime
  | some channels => rt.notify (.insertNested id channels.identity)
  | none => rt

theorem installChild_runs {d : ChildDefinition} {nested : Option StableChannels} (ho : rt.ledger.Open)
    (hid : d.id ≠ "") (hno : rt.childrenById d.id = none) (hc : ¬ (d.kind.isSupervisor = true ∧ nested = none)) :
    Act.Runs (Leads Commands) (installChild d nested) rt fun _ _ => True := by
  refine Act.runs_get ?_
  let key := rt.cfg.host.slabKey rt.children.keys
  let entry := ChildEntry.new d.id d nested rt.nextLineage (rt.cfg.host.seed rt.nextLineage)
  let rt1 := (rt.insertEntry d nested).notifyNested d.id nested
  have hl : rt1.ledger = rt.ledger.insert key entry.member := by
    have := @ledger_insertEntry rt d nested
    cases nested with
    | none => exact this
    | some channels => exact (ledger_notify rfl).trans this
  have hget : rt1.children.get key = some entry := by
    cases nested with
    | none => exact Slab.get_insertAt_self ..
    | some channels => exact Slab.get_insertAt_self ..
  obtain ⟨a, ha, he⟩ := sendLifecycle_eq .added hget
  have hlead : Leads Commands rt (rt1.sendLifecycle key .added) := by
    have h1 : Ledger.Path Commands rt.ledger (rt1.ledger.emit a) := by
      rw [hl]
      exact .single (.added (ledger_get_none (slabKey_fresh rt)) hno (member_new hid hc) ha) trivial
    have h2 : Ledger.Path Commands (rt1.ledger.emit a) (rt1.sendLifecycleDraft a).ledger := emits a trivial
    rw [← he] at h2
    exact h1.trans h2
  refine Act.runs_modify_bind (f := fun rt : SupervisorRuntime => ((rt.insertEntry d nested).notifyNested d.id nested).sendLifecycle key .added)
    hlead ?_
  refine Act.runs_bind (Q := fun _ _ => True) (Act.runs_mapError ?_) fun _ _ _ _ => Act.runs_pure trivial
  refine (scheduleStartSequence_runs [key] false ?_ ?_ ?_).mono fun _ =>
    leads_mono fun _ => Schedules.commands
  · exact leads_open (fun _ => Commands.not_shutdown) hlead ho
  · simp
  · intro k hk m hm
    rw [List.mem_singleton] at hk
    subst hk
    obtain ⟨e', he', rfl⟩ := get_of_ledger hm
    have he' : (rt1.sendLifecycle key .added).children.get key = some e' := he'
    rw [sendLifecycle_children, hget] at he'
    cases he'
    rfl

theorem addChild_runs {child : ChildDefinition} (ho : rt.ledger.Open) (ht : child.kind.isSupervisor = false) :
    Act.Runs (Leads Commands) (addChild child) rt fun _ _ => True := by
  refine Act.runs_get ?_
  simp only
  split
  · exact Act.runs_fail
  · rename_i hc
    obtain ⟨hid, hno⟩ := checkAddition_ok hc
    refine installChild_runs ho hid hno ?_
    rintro ⟨hk, -⟩
    rw [show ((child.applyDefaults rt.cfg.defaultChildRestart rt.cfg.defaultChildShutdown).kind) = child.kind from rfl,
      ht] at hk
    cases hk

theorem addNested_runs {child : ChildDefinition} (ho : rt.ledger.Open) :
    Act.Runs (Leads Commands) (addNested child) rt fun _ _ => True := by
  refine Act.runs_get ?_
  simp only
  split
  · exact Act.runs_modify_bind (leads_of_ledger_eq (ledger_notify rfl)) Act.runs_fail
  · exact Act.runs_fail
  · rename_i hc _
    obtain ⟨hid, hno⟩ := checkAddition_ok hc
    exact installChild_runs ho hid hno (by rintro ⟨-, ⟨⟩⟩)
  · exact Act.runs_fail

theorem completeCommand_leads {reply : Nat} {m : CommandM Nat}
    (h : Act.Runs (Leads Commands) m rt fun _ _ => True) : Leads Commands rt (completeCommand reply m rt).2 := by
  have hlead := h.1
  unfold completeCommand
  generalize m rt = p at hlead
  obtain ⟨r, rt1⟩ := p
  cases r with
  | ok lineage => exact hlead.trans (leads_of_ledger_eq (ledger_notify rfl))
  | error f =>
    obtain ⟨error, exit⟩ := f
    cases exit <;> exact hlead.trans (leads_of_ledger_eq (ledger_notify rfl))

theorem removeChild_runs {id : String} {expectedLineage : Option Nat} {reply : Nat} (ho : rt.ledger.Open) :
    Act.Runs (Leads Commands) (removeChild id expectedLineage reply) rt fun _ _ => True := by
  have hreply : ∀ r, Act.Runs (Leads Commands) (Act.modify (·.notify (.removeReply reply r none)) : RuntimeM Unit) rt
      fun _ _ => True := fun r => Act.runs_modify (leads_of_ledger_eq (ledger_notify rfl)) trivial
  refine Act.runs_get ?_
  split
  · exact hreply _
  · rename_i key entry hk
    have hget : rt.children.get key = some entry := by
      obtain ⟨k, -, hk⟩ := Option.bind_eq_some_iff.mp hk
      obtain ⟨e, he, hp⟩ := Option.map_eq_some_iff.mp hk
      cases hp
      exact he
    split
    · exact hreply _
    · split
      · exact hreply _
      · have hbegin : Leads Commands rt (rt.beginRemoval key reply).publishSnapshot := by
          refine Ledger.Path.trans ?_ (publishes trivial)
          unfold beginRemoval
          rw [ledger_edit hget]
          exact .single (.removing (ledger_get hget)) trivial
        have hrest : ∀ (rt1 : SupervisorRuntime) (fin : RuntimeM Unit), Leads Commands rt rt1 →
            (∀ rt2, Act.Runs (Leads Commands) fin rt2 fun _ _ => True) →
            Act.Runs (Leads Commands) (detachStartMember key entry.lineage >>= fun _ => fin) rt1 fun _ _ => True := by
          intro rt1 fin h1 hfin
          have ho1 : rt1.ledger.Open := leads_open (fun _ => Commands.not_shutdown) h1 ho
          refine Act.runs_bind ((detachStartMember_runs ho1).mono fun _ => leads_mono fun _ => Starts.commands) ?_
          intro _ rt2 _ _
          exact hfin rt2
        have hpure : ∀ rt2, Act.Runs (Leads Commands) (pure () : RuntimeM Unit) rt2 fun _ _ => True :=
          fun _ => Act.runs_pure trivial
        refine Act.runs_modify_bind hbegin ?_
        split
        · split
          · have h1 : Leads Commands (rt.beginRemoval key reply).publishSnapshot
                ((rt.beginRemoval key reply).publishSnapshot.abortChild key) := leads_of_ledger_eq (ledger_abortChild key)
            exact Act.runs_modify_bind h1 (hrest _ _ (hbegin.trans h1) hpure)
          · have h1 : Leads Commands (rt.beginRemoval key reply).publishSnapshot
                ((rt.beginRemoval key reply).publishSnapshot.cancelChild key) :=
              leads_of_ledger_eq (ledger_cancelChild key)
            exact Act.runs_modify_bind h1 (hrest _ _ (hbegin.trans h1) hpure)
        · exact hrest _ _ hbegin fun _ => Act.runs_modify (finalizeRemovedChild_leads trivial key false) trivial

theorem handleCommand_leads (command : SupervisorCommand) (ho : rt.ledger.Open) :
    Leads Commands rt (handleCommand command rt).2 := by
  cases command with
  | addChild child isTask reply => exact completeCommand_leads (addChild_runs ho isTask)
  | removeChild id expectedLineage reply => exact (removeChild_runs ho).1
  | addNested child isNested reply => exact completeCommand_leads (addNested_runs ho)

theorem handleNestedSnapshot_leads (hA : A .other) (n : NestedSnapshotNotification) :
    Leads A rt (rt.handleNestedSnapshot n) := by
  unfold handleNestedSnapshot
  split
  · exact Ledger.Path.refl
  · split
    · exact Ledger.Path.refl
    · split
      · exact Ledger.Path.refl
      · rename_i cell _
        let latest := (rt.snapshotCells cell).latest
        have h1 : (({ rt with snapshotCells := Function.update rt.snapshotCells cell ⟨latest, false⟩ } :
            SupervisorRuntime).edit n.key fun e => { e with nestedSnapshot := latest }).ledger = rt.ledger :=
          ledger_edit_quiet (f := fun e => { e with nestedSnapshot := latest }) fun _ _ => rfl
        exact Ledger.Path.trans (.of_eq h1.symm) (publishes hA)

end SupervisorRuntime

end Kokage.Supervisor
