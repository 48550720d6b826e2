/-
  Kokage.Supervisor.Exits — the handlers of joins, exits and deadlines are paths of
  ledger steps.

  A join is first of all one ledger step: the exit of the current generation, or the
  join of a task nobody waits for. The exit policy follows it. An exit consumed in a
  drain has its policy applied when the drain is over: until then it stays `Pending`,
  that is, nothing but its own policy and its own start can come between.
-/

import Kokage.Supervisor.Starting

namespace Kokage.Supervisor

open Kokage.Lib Ledger

/-! ## Words of events -/

theorem word_append (log : List ChildEvent) (e : ChildEvent) (id : String) (lineage : Nat) :
    word (log ++ [e]) id lineage =
      word log id lineage ++ if e.childId = id ∧ e.lineage = lineage then [e.kind] else [] := by
  unfold word
  rw [List.filter_append, List.map_append]
  congr 1
  by_cases h : e.childId = id ∧ e.lineage = lineage
  · simp [h]
  · rw [if_neg h]
    have : ¬ (decide (e.childId = id) && decide (e.lineage = lineage)) = true := by simpa using h
    simp only [List.filter_cons, this, List.filter_nil]
    rfl

theorem word_emit_same {L : Ledger} {d : LifecycleEventDraft} {m : Member} {kind : ChildEventKind} (h : d.For m kind) :
    word (L.emit d).log m.id m.lineage = word L.log m.id m.lineage ++ [kind] := by
  show word (L.log ++ [d.at _]) _ _ = _
  rw [word_append, if_pos ⟨h.childId_eq, h.lineage_eq⟩]
  exact congrArg (_ ++ [·]) h.kind_eq

theorem word_emit_other {L : Ledger} {d : LifecycleEventDraft} {id : String} {lineage : Nat}
    (h : d.lineage ≠ lineage) : word (L.emit d).log id lineage = word L.log id lineage := by
  show word (L.log ++ [d.at _]) _ _ = _
  rw [word_append, if_neg fun hc => h hc.2, List.append_nil]

namespace Ledger

/-! ## Exits whose policy is still to come -/

/-- Either the generation `t` has been succeeded, or it is the current one, its exit is
    the latest event and it is neither queued nor restarting. -/
def Pending (L : Ledger) (t : TaskMeta) (failed : Bool) : Prop :=
  t.lineage < L.nextLineage ∧ ∀ k m, L.members.get k = some m → m.lineage = t.lineage →
    k = t.key ∧ m.hasStarted = true ∧ (t.generation < m.generation ∨
      m.generation = t.generation ∧ m.state = .stopped ∧ m.Ended failed ∧ L.Armed m)

/-- The labels that may come between an exit and its policy. -/
def Defers (t : TaskMeta) (l : Label) : Prop :=
  l ≠ .announced ∧ l ≠ .queued t.key ∧ l ≠ .scheduled t.lineage t.generation

variable {L L' : Ledger} {t : TaskMeta} {failed : Bool}

/-- The same memberships and the same events. -/
theorem Pending.congr (h : L.Pending t failed) (hm : L'.members = L.members) (hn : L'.nextLineage = L.nextLineage)
    (hlog : L'.log = L.log) : L'.Pending t failed := by
  obtain ⟨hlt, hall⟩ := h
  refine ⟨hn ▸ hlt, fun k m hget hl => ?_⟩
  rw [hm] at hget
  obtain ⟨hk, hst, h⟩ := hall k m hget hl
  refine ⟨hk, hst, h.imp id fun ⟨hg, hs, hf, x, hx⟩ => ⟨hg, hs, hf, x, ?_⟩⟩
  rw [hlog]
  exact hx

/-- An edit of one member that keeps what `Pending` reads of it. -/
theorem Pending.put {key : ChildKey} {m m' : Member} (h : L.Pending t failed) (hget : L.members.get key = some m)
    (hid : m'.id = m.id) (hl : m'.lineage = m.lineage) (hst : m'.hasStarted = m.hasStarted)
    (hg : m'.generation = m.generation)
    (hs : m.lineage = t.lineage → m.state = .stopped → m'.state = .stopped ∧ m'.lastExit = m.lastExit) :
    (L.put key m').Pending t failed := by
  obtain ⟨hlt, hall⟩ := h
  refine ⟨hlt, fun k x hx hxl => ?_⟩
  rw [get_put] at hx
  split at hx
  · rename_i hk
    cases hx
    rw [hl] at hxl
    obtain ⟨h0, h1, h2⟩ := hall key m hget hxl
    rw [hst, hg]
    refine ⟨hk.trans h0, h1, h2.imp id fun ⟨hg', hs', ⟨z, hz, hzf⟩, y, hy⟩ => ?_⟩
    obtain ⟨hs', hlast⟩ := hs hxl hs'
    refine ⟨hg', hs', ⟨z, hlast.trans hz, hzf⟩, y, ?_⟩
    rw [hid, hl, hg]
    exact hy
  · exact hall k x hx hxl

/-- An event of another lineage, or of a later generation. -/
theorem Pending.emit {d : LifecycleEventDraft} (h : L.Pending t failed)
    (hd : d.lineage = t.lineage → ∀ k m, L.members.get k = some m → m.lineage = t.lineage → t.generation < m.generation) :
    (L.emit d).Pending t failed := by
  obtain ⟨hlt, hall⟩ := h
  refine ⟨hlt, fun k m hget hl => ?_⟩
  obtain ⟨hk, hst, h⟩ := hall k m hget hl
  refine ⟨hk, hst, ?_⟩
  by_cases hdl : d.lineage = t.lineage
  · exact .inl (hd hdl k m hget hl)
  · refine h.imp id fun ⟨hg, hs, hf, x, hx⟩ => ⟨hg, hs, hf, x, ?_⟩
    rw [word_emit_other (hl ▸ hdl)]
    exact hx

theorem Pending.install {key : ChildKey} {m : Member} (task : TaskId) (hb : L.Books) (h : L.Pending t failed)
    (hget : L.members.get key = some m) : (L.install key m task).Pending t failed ∧
      (m.lineage = t.lineage → ∀ k x, (L.install key m task).members.get k = some x → x.lineage = t.lineage →
        t.generation < x.generation) := by
  obtain ⟨hlt, hall⟩ := h
  have hspawn : m.lineage = t.lineage → t.generation < (m.spawn task).generation := by
    intro hl
    obtain ⟨-, hst, h⟩ := hall key m hget hl
    have : (m.spawn task).generation = m.generation + 1 := by
      show (if m.hasStarted = true then _ else _) = _
      rw [if_pos hst]
    rcases h with h | ⟨h, -⟩ <;> omega
  have hcases : ∀ k x, (L.install key m task).members.get k = some x →
      k = key ∧ x = m.spawn task ∨ L.members.get k = some x := by
    intro k x hx
    have hx : (L.members.insertAt key (m.spawn task)).get k = some x := hx
    rw [Slab.get_insertAt] at hx
    split at hx
    · rename_i hk
      cases hx
      exact .inl ⟨hk, rfl⟩
    · exact .inr hx
  refine ⟨⟨hlt, fun k x hx hl => ?_⟩, fun hml k x hx hl => ?_⟩
  · rcases hcases k x hx with ⟨hk, rfl⟩ | hx
    · exact ⟨hk.trans (hall key m hget hl).1, rfl, .inl (hspawn hl)⟩
    · exact hall k x hx hl
  · rcases hcases k x hx with ⟨-, rfl⟩ | hx'
    · exact hspawn hl
    · have hk := hb.lineage_inj k x key m hx' hget (hl.trans hml.symm)
      subst hk
      have hx : (L.members.insertAt k (m.spawn task)).get k = some x := hx
      rw [Slab.get_insertAt_self] at hx
      cases hx
      exact hspawn hl

/-- No step but the child's own announcement, queueing or restart undoes a pending exit. -/
theorem step_pending {l : Label} (hl : Defers t l) (hs : Step l L L') (hb : L.Books) (h : L.Pending t failed) : L'.Pending t failed := by
  obtain ⟨hann, hqueue, hsched⟩ := hl
  -- an event about a member whose state is not `stopped` is no event of `t`
  have hlater : ∀ {key m}, L.members.get key = some m → m.state ≠ .stopped → m.lineage = t.lineage →
      ∀ k x, L.members.get k = some x → x.lineage = t.lineage → t.generation < x.generation := by
    intro key m hget hne hml k x hx hxl
    have hk := hb.lineage_inj k x key m hx hget (hxl.trans hml.symm)
    subst hk
    rw [hget] at hx
    cases hx
    rcases (h.2 k m hget hml).2.2 with h' | ⟨-, hst, -⟩
    · exact h'
    · exact absurd hst hne
  cases hs with
  | publish => exact h.congr rfl rfl rfl
  | shutdown => exact h.congr rfl rfl rfl
  | sent => exact h.congr rfl rfl rfl
  | announced => exact absurd rfl hann
  | @added _ key m d hget _ hf hd =>
    have hne : d.lineage ≠ t.lineage := by
      rw [hd.lineage_eq, hf.lineage_eq]
      have := h.1
      omega
    refine Pending.emit (L := L.insert key m) ⟨Nat.lt_succ_of_lt h.1, fun k x hx hxl => ?_⟩ fun he => absurd he hne
    have hx : (L.members.insertAt key m).get k = some x := hx
    rw [Slab.get_insertAt] at hx
    split at hx
    · cases hx
      exact absurd (hd.lineage_eq.trans hxl) hne
    · exact h.2 k x hx hxl
  | spawned hget => exact (h.install _ hb hget).1
  | spawnedReady hget _ _ _ _ _ hd =>
    obtain ⟨h1, h2⟩ := h.install _ hb hget
    exact h1.emit fun he => h2 (hd.lineage_eq.symm.trans he)
  | refused hget hr => exact absurd hr (hb.accepted _ _ hget)
  | @received _ r rest m d _ hc _ hst _ hd =>
    have hne : m.state ≠ .stopped := by rw [hst]; exact nofun
    have hput : (L.put r.key m.ready).Pending t failed := h.put hc.1 rfl rfl rfl rfl fun _ hs => absurd hs hne
    refine Pending.emit (hput.congr rfl rfl rfl) fun he k x hx hxl => ?_
    have hml : m.lineage = t.lineage := hd.lineage_eq.symm.trans he
    have hx : (L.put r.key m.ready).members.get k = some x := hx
    rw [get_put] at hx
    split at hx
    · cases hx
      exact hlater hc.1 hne hml r.key m hc.1 hml
    · exact hlater hc.1 hne hml k x hx hxl
  | dropped => exact h.congr rfl rfl rfl
  | @exited _ task r m x d hr hc hd =>
    have hact : m.isActive = true := by
      rw [hb.active_iff _ m hc.1, (hb.record_task task r _ m hr hc.1 hc.2.1).2.2]
      rfl
    have hne : m.state ≠ .stopped := (isActive_ne hact).2
    have hput : (L.put r.key (m.exit x)).Pending t failed := h.put hc.1 rfl rfl rfl rfl fun _ hs => absurd hs hne
    refine Pending.emit (hput.congr rfl rfl rfl) fun he k y hy hyl => ?_
    have hml : m.lineage = t.lineage := hd.lineage_eq.symm.trans he
    have hy : (L.put r.key (m.exit x)).members.get k = some y := hy
    rw [get_put] at hy
    split at hy
    · cases hy
      exact hlater hc.1 hne hml r.key m hc.1 hml
    · exact hlater hc.1 hne hml k y hy hyl
  | staleJoin => exact h.congr rfl rfl rfl
  | lostJoin => exact h.congr rfl rfl rfl
  | @scheduled _ key m delay d hget _ hd =>
    refine h.emit fun he k x hx hxl => ?_
    have hml : m.lineage = t.lineage := hd.lineage_eq.symm.trans he
    have hk := hb.lineage_inj k x key m hx hget (hxl.trans hml.symm)
    subst hk
    rw [hget] at hx
    cases hx
    rcases (h.2 k m hget hml).2.2 with h' | ⟨hg, -⟩
    · exact h'
    · exact absurd (by rw [hml, hg]) hsched
  | @removed _ key m d hget hd =>
    have hdrop : (L.drop key m).Pending t failed := by
      refine ⟨h.1, fun k x hx hxl => ?_⟩
      have hx : (L.members.remove key).get k = some x := hx
      rw [Slab.get_remove] at hx
      split at hx
      · cases hx
      · exact h.2 k x hx hxl
    refine hdrop.emit fun he k x hx hxl => ?_
    have hx : (L.members.remove key).get k = some x := hx
    rw [Slab.get_remove] at hx
    split at hx
    · cases hx
    · rename_i hk
      exact absurd (hb.lineage_inj k x key m hx hget (hxl.trans (he.symm.trans hd.lineage_eq))) hk
  | stopped hget hact =>
    exact h.put hget rfl rfl rfl rfl fun _ hs => absurd hs (isActive_ne hact).2
  | removing hget =>
    refine h.put hget rfl rfl rfl rfl fun _ hs => ⟨?_, rfl⟩
    unfold Member.remove
    simp [hs, RuntimeChildState.isActive]
  | @queued _ key m hget hm hi hn =>
    refine h.put hget rfl rfl rfl rfl fun hml _ => ?_
    have hk := (h.2 key m hget hml).1
    subst hk
    exact absurd rfl hqueue
  | gated => exact h.congr rfl rfl rfl
  | flagged _ hget => exact h.put hget rfl rfl rfl rfl fun _ hs => ⟨hs, rfl⟩
  | verdict => exact h.congr rfl rfl rfl
  | verdictAtGate => exact h.congr rfl rfl rfl

theorem path_pending {A : Label → Prop} (hA : ∀ l, A l → Defers t l) (hp : Ledger.Path A L L') (hb : L.Books)
    (h : L.Pending t failed) : L'.Pending t failed :=
  (hp.keeps (I := fun L => L.Books ∧ L.Pending t failed)
    (fun hl hs ⟨hb, h⟩ => ⟨step_books hs hb, step_pending (hA _ hl) hs hb h⟩) ⟨hb, h⟩).2

end Ledger

namespace SupervisorRuntime

variable {rt : SupervisorRuntime} {key : ChildKey} {e : ChildEntry} {A : Label → Prop}

/-! ## Consuming a join -/

/-- The runtime without the task and its record. -/
def unlinked (rt : SupervisorRuntime) (task : TaskId) : SupervisorRuntime :=
  { rt with joinSet := rt.joinSet.filter (·.id ≠ task), taskMap := Function.update rt.taskMap task none }

theorem map_filter_id (task : TaskId) (ts : List Task) :
    (ts.filter (·.id ≠ task)).map (·.id) = (ts.map (·.id)).filter (· ≠ task) := by
  rw [List.filter_map]
  rfl

theorem ledger_unlinked (task : TaskId) : (rt.unlinked task).ledger = rt.ledger.join task := by
  unfold ledger join
  congr 1
  exact map_filter_id task rt.joinSet

theorem currentChildMatches_iff {t : TaskMeta} : rt.currentChildMatches t.key t.lineage t.generation = true ↔
    ∃ e, rt.children.get t.key = some e ∧ e.lineage = t.lineage ∧ e.runtime.generation = t.generation := by
  unfold currentChildMatches
  cases rt.children.get t.key with
  | none => simp
  | some e => simp

/-- The three ways a join is consumed. -/
inductive Consumed (rt : SupervisorRuntime) (task : TaskId) (c : Conclusion) : Except ExitReason (Option ClassifiedExit) → SupervisorRuntime → Prop
  | lost {err : ExitReason} : rt.taskMap task = none →
      Consumed rt task c (.error err) { rt with joinSet := rt.joinSet.filter (·.id ≠ task) }
  | stale {t : TaskMeta} : rt.taskMap task = some t → rt.currentChildMatches t.key t.lineage t.generation = false →
      Consumed rt task c (.ok none) (rt.unlinked task)
  | current {t : TaskMeta} {e : ChildEntry} {status : RuntimeExitStatus} : rt.taskMap task = some t →
      rt.children.get t.key = some e → e.lineage = t.lineage → e.runtime.generation = t.generation →
      status = rt.classifyChildExit t (exitStatusOf c) → Consumed rt task c (.ok (some ⟨t.key, t.lineage, t.generation, status⟩))
        { rt.unlinked task with liveTasks := rt.liveTasks - 1 }

theorem classifyJoin_lost {task : TaskId} (c : Conclusion) (h : rt.taskMap task = none) :
    classifyJoin task c rt = (.error (.failure (missingTaskMetadata task c)),
      { rt with joinSet := rt.joinSet.filter (·.id ≠ task) }) := by
  simp only [classifyJoin, Act.run_modify_bind, Act.run_get_bind, h]
  rfl

theorem classifyJoin_found {task : TaskId} {t : TaskMeta} (c : Conclusion) (h : rt.taskMap task = some t) :
    classifyJoin task c rt =
      (.ok ⟨t.key, t.lineage, t.generation, (rt.unlinked task).classifyChildExit t (exitStatusOf c)⟩,
        rt.unlinked task) := by
  simp only [classifyJoin, Act.run_modify_bind, Act.run_get_bind, h]
  rfl

theorem consumeJoinedChild_cases (task : TaskId) (c : Conclusion) :
    Consumed rt task c (consumeJoinedChild task c rt).1 (consumeJoinedChild task c rt).2 := by
  unfold consumeJoinedChild
  rw [Act.run_bind]
  cases h : rt.taskMap task with
  | none =>
    rw [classifyJoin_lost c h]
    exact .lost h
  | some t =>
    rw [classifyJoin_found c h]
    simp only [Act.run_get_bind]
    cases hm : rt.currentChildMatches t.key t.lineage t.generation with
    | false =>
      have hm' : (rt.unlinked task).currentChildMatches t.key t.lineage t.generation = false := hm
      rw [if_neg (by rw [hm']; exact nofun)]
      exact .stale h hm
    | true =>
      have hm' : (rt.unlinked task).currentChildMatches t.key t.lineage t.generation = true := hm
      obtain ⟨e, he, hl, hg⟩ := currentChildMatches_iff.mp hm
      rw [if_pos hm']
      exact .current h he hl hg rfl

theorem stale_leads {task : TaskId} {t : TaskMeta} (hA : A .other) (h : rt.taskMap task = some t)
    (hm : rt.currentChildMatches t.key t.lineage t.generation = false) : Leads A rt (rt.unlinked task) := by
  unfold Leads
  rw [ledger_unlinked]
  refine .single (.staleJoin h fun m hc => ?_) hA
  obtain ⟨hget, hl, hg⟩ := hc
  obtain ⟨e, he, rfl⟩ := get_of_ledger hget
  have := currentChildMatches_iff.mpr ⟨e, he, hl, hg⟩
  rw [hm] at this
  cases this

theorem lost_leads {task : TaskId} (hA : A .other) (hj : task ∈ rt.joinSet.map (·.id)) (h : rt.taskMap task = none) :
    Leads A rt { rt with joinSet := rt.joinSet.filter (·.id ≠ task) } := by
  refine Ledger.Path.trans (.single (.lostJoin hj h) hA) (.of_eq ?_)
  unfold ledger
  congr 1
  exact (map_filter_id task rt.joinSet).symm

/-! ## Recording an exit -/

/-- The exit an entry records, as it is published and emitted. -/
def exitOf (status : RuntimeExitStatus) (e : ChildEntry) : ExitStatus :=
  ⟨status.view, decide (e.runtime.completion = .cancelled)⟩

theorem isFailure_exitOf {status : RuntimeExitStatus} : (exitOf status e).kind.isFailure = status.isFailure :=
  status.isFailure_view

theorem recordExit_spec (generation : Nat) (status : RuntimeExitStatus) (h : rt.children.get key = some e) :
    ∃ d, d.For e.member (.exited generation (exitOf status e)) ∧
      (rt.recordExit key generation status).children.get key = some (recordExitEntry rt.now status e) ∧
      (rt.recordExit key generation status).log = rt.log ++ [d.at (rt.seq + 1)] ∧
      Ledger.Path (· = .other) ((rt.ledger.put key (e.member.exit (exitOf status e))).emit d)
        (rt.recordExit key generation status).ledger := by
  let rt1 := rt.edit key (recordExitEntry rt.now status)
  have hget : rt1.children.get key = some (recordExitEntry rt.now status e) := get_edit h
  have hrec : rt.recordExit key generation status =
      (rt1.sendLifecycle key (.exited generation (exitOf status e))).sendChildEvent := by
    unfold recordExit
    simp only [h, Option.any_some]
    rfl
  obtain ⟨d, hd, he⟩ := sendLifecycle_eq (.exited generation (exitOf status e)) hget
  have hl : rt1.ledger = rt.ledger.put key (e.member.exit (exitOf status e)) := ledger_edit h
  refine ⟨d, ⟨hd.childId_eq, hd.lineage_eq, hd.kind_eq⟩, ?_, ?_, ?_⟩
  · rw [hrec]
    show (sendLifecycle rt1 _ _).children.get key = _
    rw [sendLifecycle_children]
    exact hget
  · rw [hrec, he]
    show (sendLifecycleDraft rt1 d).log = _
    unfold sendLifecycleDraft
    simp only
    split <;> rfl
  · rw [hrec, ← hl]
    have h2 : Ledger.Path (· = .other) (rt1.ledger.emit d) (rt1.sendLifecycleDraft d).ledger := emits d rfl
    rw [← he] at h2
    exact h2.trans (publishes rfl)

/-- A current join: the exit step, then publications; the exit is the latest event. -/
theorem exit_leads {task : TaskId} {t : TaskMeta} (status : RuntimeExitStatus) (ht : rt.taskMap task = some t)
    (h : rt.children.get t.key = some e) (hl : e.lineage = t.lineage) (hg : e.runtime.generation = t.generation) :
    ∃ rt1, rt1 = ({ rt.unlinked task with liveTasks := rt.liveTasks - 1 }).recordExit t.key t.generation status ∧
      (∃ L, Step (.exited t status.isFailure) rt.ledger L ∧ Ledger.Path (· = .other) L rt1.ledger) ∧
      rt1.children.get t.key = some (recordExitEntry rt.now status e) ∧
      rt1.ledger.Armed (recordExitEntry rt.now status e).member := by
  refine ⟨_, rfl, ?_⟩
  let rt0 : SupervisorRuntime := { rt.unlinked task with liveTasks := rt.liveTasks - 1 }
  have h0 : rt0.children.get t.key = some e := h
  have hl0 : rt0.ledger = { rt.ledger.join task with live := rt.ledger.live - 1 } := by
    rw [← ledger_unlinked]
    rfl
  obtain ⟨d, hd, hget, hlog, hpath⟩ := recordExit_spec t.generation status h0
  rw [hl0] at hpath
  have hstep := Step.exited ht ⟨ledger_get h, hl, hg⟩ hd
  rw [isFailure_exitOf] at hstep
  refine ⟨⟨_, hstep, hpath⟩, hget, exitOf status e, ?_⟩
  show (word (rt0.recordExit t.key t.generation status).log e.id e.lineage).getLast? =
    some (.exited e.runtime.generation (exitOf status e))
  rw [hlog, word_append, if_pos ⟨hd.childId_eq, hd.lineage_eq⟩, List.getLast?_append]
  simp only [List.getLast?_singleton, Option.some_or]
  exact congrArg some (hd.kind_eq.trans (by rw [hg]))

/-! ## The exit policy -/

/-- The labels of the exit policy of one generation. -/
def Applies (t : TaskMeta) : Label → Prop
  | .other | .spawned _ => True
  | .scheduled lineage generation => lineage = t.lineage ∧ generation = t.generation
  | _ => False

theorem Applies.not_shutdown {t : TaskMeta} {l : Label} (h : Applies t l) : l ≠ .shutdown := by
  rintro rfl
  exact h

theorem Starts.applies {t : TaskMeta} {l : Label} (h : Starts l) : Applies t l := by
  cases l <;> trivial

/-- The runtime once `schedule_restart` has recorded the restart. -/
def restartRecorded (rt : SupervisorRuntime) (key : ChildKey) : SupervisorRuntime :=
  { rt with totalRestarts := rt.totalRestarts + 1 }.editRuntime key fun r =>
    { r with restartTracker := r.restartTracker.recordRestart rt.now }

theorem restartRecorded_get (he : rt.children.get key = some e) : (rt.restartRecorded key).children.get key =
    some { e with runtime := { e.runtime with restartTracker := e.runtime.restartTracker.recordRestart rt.now } } := by
  show (rt.children.modify key _).get key = _
  rw [Slab.get_modify_self, he]
  rfl

theorem scheduleRestart_run (key : ChildKey) (rt : SupervisorRuntime) :
    scheduleRestart key rt = (match (rt.restartRecorded key).children.get key with
    | none => pure 0
    | some e =>
      if e.runtime.restartTracker.exceeded then do
        Act.modify fun rt => rt.sendSupervisorEvent (.restartIntensityExceeded rt.totalRestarts)
        Act.fail (.failure .restartIntensityExceeded)
      else do
        let (delay, tracker) := e.runtime.restartTracker.backoff
        Act.modify fun rt => rt.editRuntime key fun r =>
          { r with restartTracker := tracker, nextRestartDeadline := some (rt.now + delay) }
        pure delay : RuntimeM Duration) (rt.restartRecorded key) := rfl

/-- `schedule_restart` fails the scope when the budget is spent, and else sets the deadline. -/
theorem scheduleRestart_eq (tracker : RestartTracker) (he : rt.children.get key = some e)
    (ht : e.runtime.restartTracker.recordRestart rt.now = tracker) :
    scheduleRestart key rt = if tracker.exceeded then (.error (.failure .restartIntensityExceeded),
        (rt.restartRecorded key).sendSupervisorEvent (.restartIntensityExceeded (rt.restartRecorded key).totalRestarts))
      else (.ok tracker.backoff.1, (rt.restartRecorded key).editRuntime key fun r =>
        { r with restartTracker := tracker.backoff.2, nextRestartDeadline := some (rt.now + tracker.backoff.1) }) := by
  rw [scheduleRestart_run, restartRecorded_get he, ht]
  simp only
  split
  · rfl
  · rfl

theorem scheduleRestart_runs (hA : A .other) (h : rt.children.get key = some e) :
    Act.Runs (Leads A) (scheduleRestart key) rt fun _ rt' =>
      rt'.log = rt.log ∧ ∃ e', rt'.children.get key = some e' ∧ e'.member = e.member := by
  let rt₁ : SupervisorRuntime := { rt with totalRestarts := rt.totalRestarts + 1 }
  let f : ChildEntry → ChildEntry := fun e =>
    { e with runtime := { e.runtime with restartTracker := e.runtime.restartTracker.recordRestart rt.now } }
  have hget : (rt.restartRecorded key).children.get key = some (f e) := restartRecorded_get h
  have hrecord : Leads A rt (rt.restartRecorded key) :=
    leads_of_ledger_eq (@ledger_edit_quiet rt₁ key f fun _ _ => rfl)
  unfold Act.Runs
  rw [scheduleRestart_eq _ h rfl]
  split
  · refine ⟨hrecord.trans ?_, fun _ _ hout => ?_⟩
    · simp only [ledger_sendSupervisorEvent]
      exact publishes hA
    · cases hout
  · let g (tracker : RestartTracker) (deadline : Instant) : ChildEntry → ChildEntry := fun e =>
      { e with runtime := { e.runtime with restartTracker := tracker, nextRestartDeadline := some deadline } }
    generalize (e.runtime.restartTracker.recordRestart rt.now).backoff = p
    obtain ⟨delay, tracker⟩ := p
    refine ⟨hrecord.trans (leads_of_ledger_eq (ledger_edit_quiet (f := g tracker (rt.now + delay)) fun _ _ => rfl)), ?_⟩
    intro _ _ hout
    cases hout
    exact ⟨rfl, g tracker (rt.now + delay) (f e), get_edit (f := g tracker (rt.now + delay)) hget, rfl⟩

theorem removeTerminal_runs {lineage : Nat} {startupAborted : Bool} (ho : rt.ledger.Open)
    (h : rt.children.get key = some e) (hl : e.lineage = lineage) (hd : startupAborted = true → e.member.Doomed) :
    Act.Runs (Leads Starts) (removeTerminal key lineage startupAborted) rt fun _ _ => True := by
  refine ⟨?_, fun _ _ _ => trivial⟩
  unfold removeTerminal
  cases startupAborted with
  | false => exact finalizeRemovedChild_leads trivial key false
  | true =>
    have h1 := (terminalStartMember_runs ho h hl (hd rfl)).1
    exact h1.trans (finalizeRemovedChild_leads trivial key false)

theorem markChildTerminal_children (key : ChildKey) : (rt.markChildTerminal key).children = rt.children := by
  unfold markChildTerminal
  split
  · rfl
  · split <;> rfl

theorem keepTerminal_runs {entry : ChildEntry} {startupAborted : Bool} (ho : rt.ledger.Open)
    (h : rt.children.get key = some e) (hl : e.lineage = entry.lineage)
    (hd : startupAborted = true → e.member.Doomed) :
    Act.Runs (Leads Starts) (keepTerminal key entry startupAborted) rt fun _ _ => True := by
  have hend : ∀ rt1, rt1.ledger = rt.ledger → rt1.children = rt.children →
      Act.Runs (Leads Starts) (if startupAborted then terminalStartMember key entry.lineage else pure () : RuntimeM Unit)
        rt1 fun _ _ => True := by
    intro rt1 hl1 hc1
    split
    · rename_i hs
      exact terminalStartMember_runs (hl1 ▸ ho) (hc1 ▸ h) hl (hd hs)
    · exact Act.runs_pure trivial
  refine Act.runs_get ?_
  by_cases hc : rt.stopIsFinal key entry.runtime.definition.restart = true
  · simp only [if_pos hc]
    refine Act.runs_modify_bind (leads_of_ledger_eq (ledger_markChildTerminal key)) ?_
    exact hend _ (ledger_markChildTerminal key) (markChildTerminal_children key)
  · simp only [if_neg hc]
    exact hend rt rfl rfl

theorem terminalExit_runs (ho : rt.ledger.Open) (h : rt.children.get key = some e) (hs : e.runtime.state = .stopped)
    (hst : e.runtime.hasStarted = true) (hm : e.membership ≠ .removing) (hr : ¬ e.member.Revives) :
    Act.Runs (Leads Starts) (terminalExit key e) rt fun _ _ => True := by
  let f : ChildEntry → ChildEntry := fun e => { e with runtime := { e.runtime with startupAborted := true } }
  -- what follows the flag, from a runtime that still holds the entry, flagged or not
  have hrest : ∀ rt1 e1, Leads Starts rt rt1 → rt1.children.get key = some e1 → e1.lineage = e.lineage →
      ((!e.runtime.hasReportedReady) = true → e1.member.Doomed) → Act.Runs (Leads Starts)
        (if e.runtime.definition.removeOnTerminalExit then removeTerminal key e.lineage (!e.runtime.hasReportedReady)
          else keepTerminal key e (!e.runtime.hasReportedReady)) rt1 fun _ _ => True := by
    intro rt1 e1 hlead hget hlin hdoom
    have ho1 := leads_open (fun _ => Starts.not_shutdown) hlead ho
    split
    · exact removeTerminal_runs ho1 hget hlin hdoom
    · exact keepTerminal_runs ho1 hget hlin hdoom
  unfold terminalExit
  by_cases hu : (!e.runtime.hasReportedReady) = true
  · simp only [hu, if_true]
    have hdoom : e.member.Doomed := ⟨hm, (by simpa using hu : e.runtime.hasReportedReady = false), hst, .inl ⟨hs, hr⟩⟩
    have hstep : Leads Starts rt (rt.edit key f).publishSnapshot := by
      refine Ledger.Path.trans ?_ (publishes trivial)
      rw [ledger_edit h]
      exact .single (.flagged ho.running (ledger_get h) hdoom) trivial
    have := hrest _ (f e) hstep (get_edit h) rfl fun _ => hdoom
    rw [hu] at this
    exact Act.runs_modify_bind hstep this
  · have hu' : (!e.runtime.hasReportedReady) = false := by simpa using hu
    simp only [hu', Bool.false_eq_true, if_false]
    have := hrest rt e Ledger.Path.refl h rfl fun h => absurd h hu
    rw [hu'] at this
    exact this

/-- What a policy needs of the exit it is applied to. -/
def Exited (rt : SupervisorRuntime) (t : TaskMeta) (failed : Bool) : Prop :=
  ∀ e, rt.children.get t.key = some e → e.lineage = t.lineage ∧ e.runtime.generation = t.generation ∧
    e.runtime.state = .stopped ∧ e.runtime.hasStarted = true ∧ e.member.Ended failed ∧ rt.ledger.Armed e.member

theorem applyExitPolicyInner_runs (c : ClassifiedExit) (allowRestart : Bool) {t : TaskMeta} (ho : rt.ledger.Open)
    (hk : t.key = c.key) (he : allowRestart = true → rt.Exited t c.status.isFailure) :
    Act.Runs (Leads (Applies t)) (applyExitPolicyInner c allowRestart) rt fun _ _ => True := by
  refine Act.runs_get ?_
  split
  · exact Act.runs_pure trivial
  · cases h : rt.children.get c.key with
    | none => exact Act.runs_pure trivial
    | some e =>
      simp only
      split
      · exact Act.runs_modify (finalizeRemovedChild_leads trivial _ false) trivial
      · rename_i hm
        cases allowRestart with
        | false => exact Act.runs_pure trivial
        | true =>
          obtain ⟨hl, hg, hs, hst, hended, harm⟩ := he rfl e (hk ▸ h)
          simp only [Bool.true_and, if_true]
          split
          · refine Act.runs_bind (scheduleRestart_runs trivial h) ?_
            rintro delay rt1 - ⟨hlog, e1, hget, hmem⟩
            refine Act.runs_modify ?_ trivial
            obtain ⟨d, hd, heq⟩ := sendLifecycle_eq (.restartScheduled e.runtime.generation delay) hget
            have harm1 : rt1.ledger.Armed e1.member := by
              obtain ⟨x, hx⟩ := harm
              refine ⟨x, ?_⟩
              show (word rt1.log _ _).getLast? = _
              rw [hlog, hmem]
              exact hx
            have hd' : d.For e1.member (.restartScheduled e1.member.generation delay) := by
              have hg1 : e1.member.generation = e.runtime.generation := congrArg Member.generation hmem
              rw [hg1]
              exact hd
            have h1 : Ledger.Path (Applies t) rt1.ledger (rt1.ledger.emit d) := by
              refine .single (.scheduled (ledger_get hget) harm1 hd') ⟨?_, ?_⟩
              · rw [hmem]; exact hl
              · rw [hmem]; exact hg
            have h2 : Ledger.Path (Applies t) (rt1.ledger.emit d) (rt1.sendLifecycleDraft d).ledger := emits d trivial
            rw [← heq] at h2
            exact h1.trans h2
          · rename_i hno
            have hrevives : ¬ e.member.Revives := fun hr => hno (hended.revives hr)
            exact (terminalExit_runs ho h hs hst hm hrevives).mono fun _ => leads_mono fun _ => Starts.applies

/-- The exit of the task counts as a failure. -/
def exitFails (rt : SupervisorRuntime) (t : TaskMeta) (c : Conclusion) : Bool := (rt.classifyChildExit t (exitStatusOf c)).isFailure

/-- A join in the main loop: nothing current, or an exit and its policy. -/
theorem handleJoinedChild_leads {task : TaskId} {c : Conclusion} (hb : rt.ledger.Books) (ho : rt.ledger.Open)
    (hj : task ∈ rt.joinSet.map (·.id)) :
    Leads (· = .other) rt (handleJoinedChild task c rt).2 ∨
      ∃ t, rt.taskMap task = some t ∧ ∃ L, Step (.exited t (rt.exitFails t c)) rt.ledger L ∧
        Ledger.Path (Applies t) L (handleJoinedChild task c rt).2.ledger := by
  have hc := @consumeJoinedChild_cases rt task c
  unfold handleJoinedChild
  rw [Act.run_bind]
  generalize consumeJoinedChild task c rt = p at hc
  obtain ⟨r, rt1⟩ := p
  cases hc with
  | lost ht => exact .inl (lost_leads rfl hj ht)
  | stale ht hm => exact .inl (stale_leads rfl ht hm)
  | @current t e status ht hget hl hg hstatus =>
    refine .inr ⟨t, ht, ?_⟩
    obtain ⟨rt2, hrt2, ⟨L, hstep, hpath⟩, hget2, harm⟩ := exit_leads status ht hget hl hg
    have hopen : L.Open := hstep.keeps_open (by rintro ⟨⟩) ho
    have hopen2 : rt2.ledger.Open := hpath.keeps_open (by rintro _ rfl; exact nofun) hopen
    have hfails : rt.exitFails t c = status.isFailure := congrArg RuntimeExitStatus.isFailure hstatus.symm
    refine ⟨L, hfails ▸ hstep, ?_⟩
    simp only [dispatchExit, Act.run_modify_bind]
    rw [← hrt2]
    have hexited : rt2.Exited t status.isFailure := by
      intro e' he'
      rw [hget2] at he'
      cases he'
      refine ⟨hl, hg, rfl, ?_, ⟨exitOf status e, rfl, isFailure_exitOf⟩, harm⟩
      have htask := (hb.record_task task t t.key e.member ht (ledger_get hget) hl).2.2
      refine hb.started t.key e.member (ledger_get hget) ?_
      rw [hb.active_iff t.key e.member (ledger_get hget), htask]
      rfl
    have hpol := (applyExitPolicyInner_runs ⟨t.key, t.lineage, t.generation, status⟩ true
      hopen2 rfl fun _ => hexited).1
    refine (hpath.mono ?_).trans hpol
    rintro _ rfl
    trivial

/-! ## Restarts -/

theorem restartOne_runs (ho : rt.ledger.Open) : Act.Runs (Leads Starts) (restartOne key) rt fun _ _ => True := by
  refine Act.runs_get ?_
  cases h : rt.children.get key with
  | none => exact Act.runs_pure trivial
  | some e =>
    simp only
    split
    · exact Act.runs_pure trivial
    · rename_i hc
      simp only [ne_eq, Bool.or_eq_true, decide_eq_true_eq, not_or, Decidable.not_not, Bool.not_eq_true] at hc
      obtain ⟨⟨hm, hs⟩, -⟩ := hc
      let f : ChildEntry → ChildEntry := fun e => { e with runtime := { e.runtime with nextRestartDeadline := none } }
      let rt1 := rt.edit key f
      have hl1 : rt1.ledger = rt.ledger := ledger_edit_quiet fun _ _ => rfl
      have hget1 : rt1.children.get key = some (f e) := get_edit h
      have hidle : (f e).runtime.state.isIdle = true := by
        show e.runtime.state.isIdle = true
        rw [hs]
        rfl
      refine Act.runs_modify_bind (f := fun rt => rt.edit key f) (leads_of_ledger_eq hl1) ?_
      by_cases hr : (f e).member.Refuses
      · obtain ⟨err, herr⟩ := spawnChild_refused hget1 hr
        refine ⟨?_, fun a s' hs' => ?_⟩
        · rw [Act.run_bind, herr]
          exact leads_mono (fun _ => StartsOnly.starts) (refused_leads hget1 hr)
        · rw [Act.run_bind, herr] at hs'
          cases hs'
      · obtain ⟨old, hold⟩ := spawnChild_eq hget1 hr
        let regated : Option StartSequence := rt1.startSequence.map fun s =>
          { s with gate := s.gate.map fun g =>
              if g.key = key && g.lineage = e.lineage then { g with generation := nextGeneration (f e) } else g }
        have hgate : regated.bind (·.gate) =
            regate rt1.startGate key { (f e).member with generation := nextGeneration (f e) } := by
          show (rt1.startSequence.map _).bind _ = Option.map _ (rt1.startSequence.bind _)
          cases rt1.startSequence with
          | none => rfl
          | some s =>
            cases hg : s.gate with
            | none => simp [hg]
            | some g =>
              simp only [Option.map_some, Option.bind_some, hg, Bool.and_eq_true, decide_eq_true_eq]
              rfl
        have hlead := afterSpawn_leads regated hgate hget1 hm hidle hr
        have hlead' : Leads Starts rt1 { rt1.afterSpawn key (f e) with startSequence := regated } :=
          leads_mono (fun _ => StartsOnly.starts) hlead
        have ho2 := leads_open (fun _ => Starts.not_shutdown) hlead' (hl1 ▸ ho)
        have hrun : ∀ rt2 : SupervisorRuntime, rt2.ledger.Open → Act.Runs (Leads Starts)
            (if (rt2.children.get key).any (·.runtime.state = .running) = true then advanceStartSequence
              else pure () : RuntimeM Unit) rt2 fun _ _ => True := by
          intro rt2 ho2
          split
          · exact advanceStartSequence_runs ho2.running
          · exact Act.runs_pure trivial
        have hend := hrun _ ho2
        refine ⟨?_, fun _ _ _ => trivial⟩
        rw [Act.run_bind, hold]
        simp only [Act.run_modify_bind, Act.run_get_bind, afterSpawn_startSequence]
        exact hlead'.trans hend.1

/-! ## Deadlines -/

theorem restartScope_sublist {freshGroupToken : Bool} {keys : List ChildKey}
    (h : rt.restartScope key freshGroupToken = some keys) : keys.Sublist rt.childOrder := by
  unfold restartScope at h
  split at h
  · cases h
  · split at h
    · cases h
    · split at h
      · cases h
        exact List.Sublist.refl _
      · split at h
        · cases h
          exact List.dropWhile_sublist _
        · cases h

/-- The two loops of `handle_deadlines` over the pending removals. -/
def serveRemovals (rt : SupervisorRuntime) : SupervisorRuntime :=
  let rt := rt.expiredRemovals.foldl (fun rt (x : ChildKey × Duration) => rt.expireRemoval x.1 x.2) rt
  rt.hardAbortRemovals.foldl hardAbortRemoval rt

/-- What is left of `handle_deadlines`: the restarts that are due. -/
def serveRestarts (rt : SupervisorRuntime) : RuntimeM (Option (List ChildKey)) :=
  match rt.cfg.strategy, rt.dueRestarts with
  | .oneForOne, due => do
    Act.forEach due restartOne
    pure none
  | _, [] => pure none
  | strategy, key :: _ => do
    Act.modify (·.editRuntime key fun r => { r with nextRestartDeadline := none })
    let rt ← Act.get
    pure (rt.restartScope key (strategy = .oneForAll))

theorem handleDeadlines_eq (rt : SupervisorRuntime) : handleDeadlines rt =
    if rt.shutdownRequested then (.error .shutdown, rt) else serveRestarts rt.serveRemovals rt.serveRemovals := by
  unfold handleDeadlines
  rw [Act.run_get_bind]
  split <;> rfl

theorem handleDeadlines_runs (ho : rt.ledger.Open) :
    Act.Runs (Leads Starts) handleDeadlines rt fun r rt' => ∀ keys, r = some keys → keys.Sublist rt'.childOrder := by
  refine Act.runs_get ?_
  split
  · exact Act.runs_fail
  · let rt1 := rt.expiredRemovals.foldl (fun rt (p : ChildKey × Duration) => rt.expireRemoval p.1 p.2) rt
    let rt2 := rt1.hardAbortRemovals.foldl hardAbortRemoval rt1
    have hl1 : rt1.ledger = rt.ledger :=
      ledger_foldl (fun _ (p : ChildKey × Duration) => ledger_expireRemoval p.1 p.2) _ _
    have hl2 : rt2.ledger = rt1.ledger := ledger_foldl (fun rt k => ledger_hardAbortRemoval k) _ _
    have ho2 : rt2.ledger.Open := hl2 ▸ hl1 ▸ ho
    refine Act.runs_modify_bind (leads_of_ledger_eq hl1) ?_
    refine Act.runs_modify_bind (f := fun rt => rt.hardAbortRemovals.foldl hardAbortRemoval rt)
      (leads_of_ledger_eq hl2) ?_
    refine Act.runs_get ?_
    split
    · let I : List ChildKey → SupervisorRuntime → Prop := fun _ rt => rt.ledger.Open
      refine Act.runs_bind (Act.runs_forEach (I := I) ?_ _ rt2 ho2) fun _ _ _ _ => Act.runs_pure fun _ hk => nomatch hk
      intro k rest rt3 ho3
      have hrun := @restartOne_runs _ k ho3
      refine ⟨hrun.1, fun _ rt4 h4 => ?_⟩
      have := hrun.1
      rw [h4] at this
      exact leads_open (fun _ => Starts.not_shutdown) this ho3
    · exact Act.runs_pure fun _ hk => nomatch hk
    · rename_i k _ _ _ _
      refine Act.runs_modify_bind (leads_of_ledger_eq ?_) (Act.runs_get (Act.runs_pure ?_))
      · exact ledger_edit_quiet (f := fun e => { e with runtime := { e.runtime with nextRestartDeadline := none } })
          fun _ _ => rfl
      · intro keys hk
        exact restartScope_sublist hk

theorem drainDeadlineCommandBatch_leads : ∀ (commands : List SupervisorCommand) {rt : SupervisorRuntime},
    rt.ledger.Open → Leads Commands rt (drainDeadlineCommandBatch commands rt).2
  | [], rt, _ => by
    unfold drainDeadlineCommandBatch
    rw [Act.run_get_bind]
    split
    · exact Ledger.Path.refl
    · refine leads_of_ledger_eq ?_
      show (if rt.commandsClosed = true then { rt with commandsOpen := false } else rt).ledger = rt.ledger
      split <;> rfl
  | command :: rest, rt, ho => by
    unfold drainDeadlineCommandBatch
    rw [Act.run_get_bind]
    split
    · exact Ledger.Path.refl
    · let rt1 : SupervisorRuntime := { rt with commandRx := rest }
      have h1 : Leads Commands rt1 (handleCommand command rt1).2 := handleCommand_leads command ho
      simp only [Act.run_modify_bind]
      change Leads Commands rt1 ((handleCommand command >>= fun _ => drainDeadlineCommandBatch rest) rt1).2
      rw [Act.run_bind]
      generalize handleCommand command rt1 = p at h1
      obtain ⟨r, rt2⟩ := p
      cases r with
      | ok _ =>
        exact h1.trans (drainDeadlineCommandBatch_leads rest (leads_open (fun _ => Commands.not_shutdown) h1 ho))
      | error err => exact h1

/-! ## After a drain -/

def Inactive (L : Ledger) (key : ChildKey) : Prop := ∀ m, L.members.get key = some m → m.isActive = false

theorem step_inactive {l : Label} {L L' : Ledger} {k : ChildKey} (hl : l ≠ .spawned k) (hs : Step l L L')
    (h : Inactive L k) : Inactive L' k :=
  @step_startable true _ _ _ _ hl hs h

/-- The exit as a task record. -/
def ClassifiedExit.record (c : ClassifiedExit) : TaskMeta := ⟨c.key, c.lineage, c.generation⟩

theorem applyDrainedCompletionPolicy_runs {c : ClassifiedExit} (hA : A .other) :
    Act.Runs (Leads A) (applyDrainedCompletionPolicy c) rt fun _ _ => True := by
  refine Act.runs_get ?_
  split
  · exact Act.runs_pure trivial
  · split
    · exact Act.runs_pure trivial
    · split
      · exact Act.runs_modify (finalizeRemovedChild_leads hA _ false) trivial
      · exact Act.runs_pure trivial

theorem respawnGroup_runs {keys : List ChildKey} {freshGroupToken : Bool} {completed : List ClassifiedExit}
    (ho : rt.ledger.Open) (hn : keys.Nodup) (hi : ∀ k ∈ keys, Inactive rt.ledger k) :
    Act.Runs (Leads (Schedules keys)) (respawnGroup keys freshGroupToken completed) rt fun deferred _ =>
      deferred = completed.filter fun c => !keys.contains c.key := by
  unfold respawnGroup
  simp only [List.partition_eq_filter_filter]
  -- removals of the children that finished in scope
  have hloop : Act.Runs (Leads (· = .other)) (Act.forEach (completed.filter fun c => keys.contains c.key) fun c => do
      let rt ← Act.get
      if rt.currentChildMatches c.key c.lineage c.generation then applyDrainedCompletionPolicy c else pure ()) rt
        fun _ _ => True := by
    refine Act.runs_forEach (I := fun _ _ => True) ?_ _ rt trivial
    intro c rest rt1 _
    refine Act.runs_get ?_
    split
    · exact applyDrainedCompletionPolicy_runs rfl
    · exact Act.runs_pure trivial
  have hmono : ∀ {rt1 rt2 : SupervisorRuntime}, Leads (· = .other) rt1 rt2 → Leads (Schedules keys) rt1 rt2 :=
    fun h => leads_mono (by rintro _ rfl; trivial) h
  have hkeep : ∀ {rt1 rt2 : SupervisorRuntime}, Leads (· = .other) rt1 rt2 →
      (rt1.ledger.Open ∧ ∀ k ∈ keys, Inactive rt1.ledger k) → rt2.ledger.Open ∧ ∀ k ∈ keys, Inactive rt2.ledger k := by
    intro rt1 rt2 h ⟨ho, hi⟩
    refine ⟨leads_open (by rintro _ rfl; exact nofun) h ho, fun k hk => ?_⟩
    exact Ledger.Path.keeps (I := fun L => Inactive L k) (by rintro _ _ _ rfl; exact step_inactive nofun) h (hi k hk)
  have hloop' : Act.Runs (Leads (Schedules keys)) (Act.forEach (completed.filter fun c => keys.contains c.key) fun c => do
      let rt ← Act.get
      if rt.currentChildMatches c.key c.lineage c.generation then applyDrainedCompletionPolicy c else pure ()) rt
        fun _ rt1 => rt1.ledger.Open ∧ ∀ k ∈ keys, Inactive rt1.ledger k := by
    refine ⟨hmono hloop.1, fun a rt1 h1 => hkeep ?_ ⟨ho, hi⟩⟩
    have := hloop.1
    rw [h1] at this
    exact this
  refine Act.runs_bind hloop' ?_
  intro _ rt1 _ h1
  -- the start sequence loses its members in scope, then the respawn
  have hrest : ∀ rt2 : SupervisorRuntime, rt2.ledger.Open → (∀ k ∈ keys, Inactive rt2.ledger k) →
      Act.Runs (Leads (Schedules keys)) (do
        Act.modify fun rt => { rt with startSequence := rt.startSequence.map fun s =>
          { queue := s.queue.filter fun item => !keys.contains item.key
            gate := s.gate.filter fun g => !keys.contains g.key } }
        scheduleStartSequence keys true
        pure (completed.filter fun c => !keys.contains c.key) : RuntimeM (List ClassifiedExit)) rt2
        fun deferred _ => deferred = completed.filter fun c => !keys.contains c.key := by
    intro rt2 ho2 hi2
    let gate := rt2.startGate.filter fun g => !keys.contains g.key
    have hgate : Leads (· = .other) rt2 { rt2 with startSequence := rt2.startSequence.map fun s =>
        { queue := s.queue.filter fun item => !keys.contains item.key
          gate := s.gate.filter fun g => !keys.contains g.key } } := by
      refine Ledger.Path.trans (.single (.gated gate fun g hg => .inl ?_) rfl) (.of_eq ?_)
      · exact (Option.filter_eq_some_iff.mp hg).1
      · unfold ledger
        congr 1
        show Option.filter _ (rt2.startSequence.bind _) = (rt2.startSequence.map _).bind _
        cases rt2.startSequence <;> rfl
    obtain ⟨ho3, hi3⟩ := hkeep hgate ⟨ho2, hi2⟩
    refine Act.runs_modify_bind (hmono hgate) ?_
    refine Act.runs_bind (scheduleStartSequence_runs _ _ ho3 hn fun k hk => hi3 k hk) ?_
    intro _ rt4 _ _
    exact Act.runs_pure rfl
  cases freshGroupToken with
  | true => exact Act.runs_modify_bind (leads_of_ledger_eq rfl) (hrest _ h1.1 h1.2)
  | false => exact hrest rt1 h1.1 h1.2

/-- The labels of the end of a group restart. -/
def Resumes : Label → Prop
  | .other | .spawned _ | .queued _ | .scheduled _ _ => True
  | _ => False

theorem Applies.resumes {t : TaskMeta} {l : Label} (h : Applies t l) : Resumes l := by
  cases l <;> trivial

theorem Resumes.not_shutdown {l : Label} (h : Resumes l) : l ≠ .shutdown := by
  rintro rfl
  exact h

theorem Schedules.resumes {keys : List ChildKey} {l : Label} (h : Schedules keys l) : Resumes l := by
  cases l <;> trivial

/-- The exits a drain has deferred: each is still pending, and no two are of one
    generation. -/
def Deferred (L : Ledger) (exits : List ClassifiedExit) : Prop :=
  (∀ c ∈ exits, L.Pending c.record c.status.isFailure) ∧ exits.Pairwise fun c c' => c.lineage ≠ c'.lineage ∨ c.generation ≠ c'.generation

theorem exited_of_pending {c : ClassifiedExit} {failed : Bool} (h : rt.ledger.Pending c.record failed)
    (hm : rt.currentChildMatches c.key c.lineage c.generation = true) : rt.Exited c.record failed := by
  obtain ⟨e, he, hl, hg⟩ := currentChildMatches_iff (t := c.record).mp hm
  intro e' he'
  rw [he] at he'
  cases he'
  obtain ⟨-, hst, h⟩ := h.2 c.key e.member (ledger_get he) hl
  rcases h with h | ⟨-, hs, hended, harm⟩
  · have h : c.generation < e.runtime.generation := h
    have hg : e.runtime.generation = c.generation := hg
    omega
  · exact ⟨hl, hg, hs, hst, hended, harm⟩

/-- One deferred exit, applied if it is still current; the others stay pending. -/
theorem deferredExit_runs {c : ClassifiedExit} {rest : List ClassifiedExit} (ho : rt.ledger.Open) (hb : rt.ledger.Books)
    (hd : Deferred rt.ledger (c :: rest)) : Act.Runs (Leads Resumes) (do
      let rt ← Act.get
      if rt.currentChildMatches c.key c.lineage c.generation then applyExitPolicy c else pure () : RuntimeM Unit) rt
        fun _ rt' => rt'.ledger.Open ∧ rt'.ledger.Books ∧ Deferred rt'.ledger rest := by
  obtain ⟨hp, hpair⟩ := hd
  obtain ⟨hfirst, hpair'⟩ := List.pairwise_cons.mp hpair
  have hrun : Act.Runs (Leads (Applies c.record)) (do
      let rt ← Act.get
      if rt.currentChildMatches c.key c.lineage c.generation then applyExitPolicy c else pure () : RuntimeM Unit) rt
        fun _ _ => True := by
    refine Act.runs_get ?_
    split
    · rename_i hm
      exact applyExitPolicyInner_runs _ _ ho rfl fun _ => exited_of_pending (hp c (List.mem_cons_self ..)) hm
    · exact Act.runs_pure trivial
  refine ⟨leads_mono (fun _ => Applies.resumes) hrun.1, fun _ rt2 h2 => ?_⟩
  have hlead : Leads (Applies c.record) rt rt2 := by
    have := hrun.1
    rw [h2] at this
    exact this
  refine ⟨leads_open (fun _ => Applies.not_shutdown) hlead ho, path_books hlead hb, fun c' hc' => ?_, hpair'⟩
  refine path_pending (fun l hl => ⟨?_, ?_, ?_⟩) hlead hb (hp c' (List.mem_cons_of_mem _ hc'))
  · rintro rfl
    exact hl
  · rintro rfl
    exact hl
  · rintro rfl
    obtain ⟨h1, h2⟩ : c'.lineage = c.lineage ∧ c'.generation = c.generation := hl
    rcases hfirst c' hc' with h | h
    · exact h h1.symm
    · exact h h2.symm

theorem applyDeferred_runs {exits : List ClassifiedExit} (ho : rt.ledger.Open) (hb : rt.ledger.Books)
    (hd : Deferred rt.ledger exits) : Act.Runs (Leads Resumes) (applyDeferred exits) rt fun _ _ => True := by
  let I : List ClassifiedExit → SupervisorRuntime → Prop := fun rest rt =>
    rt.ledger.Open ∧ rt.ledger.Books ∧ Deferred rt.ledger rest
  refine (Act.runs_forEach (I := I) ?_ exits rt ⟨ho, hb, hd⟩).weaken fun _ _ _ => trivial
  intro c rest rt1 ⟨ho1, hb1, hd1⟩
  exact deferredExit_runs ho1 hb1 hd1

end SupervisorRuntime

end Kokage.Supervisor
