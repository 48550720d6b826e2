/-
  Kokage.Supervisor.Consistency — the runtime's redundant books agree after every step.

  The slab, the id map and the order name the same memberships; a child is active exactly
  while it has an abort handle, and exactly while the task map has the record of its
  current generation; the live counter is the number of active children; no child is
  spawned over a live one; every task that can be joined has its record.
-/

import Kokage.Supervisor.Runs

namespace Kokage.Supervisor

open Kokage.Lib Ledger SupervisorRuntime

namespace SupervisorRuntime

/-- The children whose task has not been joined. -/
def unjoined (rt : SupervisorRuntime) : Nat :=
  rt.children.count fun e => e.runtime.abortHandle.any fun task => (rt.taskMap task).isSome

/-- The books agree with each other. -/
structure Consistent (rt : SupervisorRuntime) : Prop where
  order_nodup : rt.childOrder.Nodup
  order_mem : ∀ key, key ∈ rt.childOrder ↔ ∃ e, rt.children.get key = some e
  byId_iff : ∀ id key, rt.childrenById id = some key ↔ ∃ e, rt.children.get key = some e ∧ e.id = id
  active_iff_handle : ∀ key e, rt.children.get key = some e →
    (e.runtime.state.isActive = true ↔ e.runtime.abortHandle.isSome = true)
  active_iff_record : ∀ key e, rt.children.get key = some e →
    (e.runtime.state.isActive = true ↔ ∃! task, rt.taskMap task = some ⟨key, e.lineage, e.runtime.generation⟩)
  no_record : ∀ key e task, rt.children.get key = some e → e.runtime.state.isActive = false →
    rt.taskMap task ≠ some ⟨key, e.lineage, e.runtime.generation⟩
  live_eq : rt.liveTasks = rt.children.count fun e => e.runtime.state.isActive
  spawned_idle : ∀ s ∈ rt.spawnedFrom, s = .stopped ∨ s = .startQueued
  one_task : ∀ task task' r r', rt.taskMap task = some r → rt.taskMap task' = some r' → r.lineage = r'.lineage →
    task = task'
  joined : ∀ t ∈ rt.joinSet, ∀ c, (∃ exit, (classifyJoin t.id c rt).1 = .ok exit) ∧
    ∃ exit rt', consumeJoinedChild t.id c rt = (.ok exit, rt') ∧
      rt.liveTasks = rt'.liveTasks + (if exit.isSome then 1 else 0) ∧ rt'.liveTasks = rt'.unjoined

variable {rt : SupervisorRuntime} {task : TaskId} {t : TaskMeta} {e : ChildEntry}

theorem handle_iff (hb : rt.ledger.Books) {key : ChildKey} (h : rt.children.get key = some e) :
    e.runtime.abortHandle = some task ↔ rt.taskMap task = some ⟨key, e.lineage, e.runtime.generation⟩ := by
  constructor
  · intro ht
    exact hb.task_record key e.member task (ledger_get h) ht
  · intro ht
    exact (hb.record_task task _ key e.member ht (ledger_get h) rfl).2.2

theorem active_handle (hb : rt.ledger.Books) {key : ChildKey} (h : rt.children.get key = some e) :
    e.runtime.state.isActive = e.runtime.abortHandle.isSome :=
  hb.active_iff key e.member (ledger_get h)

theorem live_count (hb : rt.ledger.Books) : rt.liveTasks = rt.children.count fun e => e.runtime.state.isActive := by
  have hlive : rt.liveTasks = rt.ledger.members.count Member.isActive := hb.live_eq
  rw [hlive]
  simp only [Slab.count, ledger, Slab.get_map, Option.any_map]
  rfl

/-- With every book in order, the tasks that are not joined are those of the active children. -/
theorem unjoined_eq (hb : rt.ledger.Books) : rt.unjoined = rt.children.count fun e => e.runtime.state.isActive := by
  unfold unjoined Slab.count
  refine List.countP_congr fun key _ => ?_
  cases h : rt.children.get key with
  | none => rfl
  | some e =>
    simp only [Option.any_some]
    rw [active_handle hb h]
    cases ht : e.runtime.abortHandle with
    | none => rfl
    | some task => simp [(handle_iff hb h).mp ht]

/-- Joining a task takes it off the count of the child that ran it. -/
theorem unjoined_unlinked (hb : rt.ledger.Books) (ht : rt.taskMap task = some t) (h : rt.children.get t.key = some e)
    (hl : e.lineage = t.lineage) (n : Nat) :
    rt.unjoined = ({ rt.unlinked task with liveTasks := n } : SupervisorRuntime).unjoined + 1 := by
  have htask : e.runtime.abortHandle = some task := (hb.record_task task t t.key e.member ht (ledger_get h) hl).2.2
  unfold unjoined Slab.count
  show (List.range rt.children.bound).countP _ = (List.range rt.children.bound).countP _ + 1
  have hpoint := @Slab.countP_range_point
    (fun k => (rt.children.get k).any fun e => e.runtime.abortHandle.any fun t => (rt.taskMap t).isSome)
    (fun k => (rt.children.get k).any fun e =>
      e.runtime.abortHandle.any fun t => (Function.update rt.taskMap task none t).isSome) t.key rt.children.bound
    (Slab.lt_bound h) ?_
  · rw [h] at hpoint
    simp only [Option.any_some, htask, ht, Function.update_self, Option.isSome_some, Option.isSome_none, Bool.toNat_true,
      Bool.toNat_false, Nat.add_zero] at hpoint
    exact hpoint.symm
  · intro k hk
    cases hget : rt.children.get k with
    | none => rfl
    | some e' =>
      simp only [Option.any_some]
      cases ht' : e'.runtime.abortHandle with
      | none => rfl
      | some task' =>
        have hne : task' ≠ task := by
          intro he
          subst he
          have := (handle_iff hb hget).mp ht'
          rw [ht] at this
          cases this
          exact hk rfl
        simp only [Option.any_some, Function.update_of_ne hne]

/-- A stale record is nobody's. -/
theorem unjoined_stale (hb : rt.ledger.Books) (ht : rt.taskMap task = some t)
    (hm : rt.currentChildMatches t.key t.lineage t.generation = false) : (rt.unlinked task).unjoined = rt.unjoined := by
  unfold unjoined Slab.count
  refine List.countP_congr fun k _ => ?_
  show (rt.children.get k).any _ = true ↔ _
  cases hget : rt.children.get k with
  | none => rfl
  | some e' =>
    simp only [Option.any_some]
    cases ht' : e'.runtime.abortHandle with
    | none => rfl
    | some task' =>
      have hne : task' ≠ task := by
        intro he
        subst he
        have hrec := (handle_iff hb hget).mp ht'
        rw [ht] at hrec
        cases hrec
        have := currentChildMatches_iff (t := ⟨k, e'.lineage, e'.runtime.generation⟩).mpr ⟨e', hget, rfl, rfl⟩
        rw [hm] at this
        cases this
      simp only [Option.any_some, unlinked, Function.update_of_ne hne]

theorem consistent_of_books (hb : rt.ledger.Books) : rt.Consistent := by
  refine
    { order_nodup := hb.order_nodup
      order_mem := fun key => ?_
      byId_iff := fun id key => ?_
      active_iff_handle := fun key e h => by rw [active_handle hb h]
      active_iff_record := fun key e h => ?_
      no_record := fun key e task h hact ht => ?_
      live_eq := live_count hb
      spawned_idle := fun s hs => ?_
      one_task := fun task task' r r' => hb.record_inj task r task' r'
      joined := fun t ht c => ?_ }
  · rw [show (key ∈ rt.childOrder ↔ _) from hb.order_mem key]
    constructor
    · intro ⟨m, hm⟩
      obtain ⟨e, he, -⟩ := get_of_ledger hm
      exact ⟨e, he⟩
    · intro ⟨e, he⟩
      exact ⟨e.member, ledger_get he⟩
  · rw [show (rt.childrenById id = some key ↔ _) from hb.byId_iff id key]
    constructor
    · intro ⟨m, hm, hid⟩
      obtain ⟨e, he, rfl⟩ := get_of_ledger hm
      exact ⟨e, he, hid⟩
    · intro ⟨e, he, hid⟩
      exact ⟨e.member, ledger_get he, hid⟩
  · rw [active_handle hb h, Option.isSome_iff_exists]
    constructor
    · intro ⟨task, ht⟩
      refine ⟨task, (handle_iff hb h).mp ht, fun task' ht' => ?_⟩
      have := (handle_iff hb h).mpr ht'
      rw [ht] at this
      cases this
      rfl
    · intro ⟨task, ht, _⟩
      exact ⟨task, (handle_iff hb h).mpr ht⟩
  · have := (handle_iff hb h).mpr ht
    rw [active_handle hb h, this] at hact
    cases hact
  · have := hb.spawned_idle s hs
    cases s with
    | stopped => exact .inl rfl
    | startQueued => exact .inr rfl
    | _ => cases this
  · obtain ⟨r, hr⟩ := (hb.record_iff t.id).mp (List.mem_map.mpr ⟨t, ht, rfl⟩)
    have hr : rt.taskMap t.id = some r := hr
    refine ⟨⟨_, congrArg Prod.fst (classifyJoin_found c hr)⟩, ?_⟩
    have hc := @consumeJoinedChild_cases rt t.id c
    generalize consumeJoinedChild t.id c rt = q at hc
    obtain ⟨x, rt1⟩ := q
    have hlive : rt.liveTasks = rt.unjoined := (live_count hb).trans (unjoined_eq hb).symm
    cases hc with
    | lost hnone =>
      rw [hr] at hnone
      cases hnone
    | stale hr' hm => exact ⟨none, _, rfl, rfl, hlive.trans (unjoined_stale hb hr' hm).symm⟩
    | current hr' hget hl hg =>
      have hcount := unjoined_unlinked hb hr' hget hl (rt.liveTasks - 1)
      have hpos : rt.liveTasks ≠ 0 := by
        intro h0
        rw [← hlive, h0] at hcount
        cases hcount
      exact ⟨some _, _, rfl, by show rt.liveTasks = rt.liveTasks - 1 + 1; omega, Nat.sub_eq_of_eq_add (hlive.trans hcount)⟩

end SupervisorRuntime

/-- The books agree after every step of every run. -/
theorem run_consistent (c : SupervisorConfig) (b : Binding) (inputs : List Input) :
    (run (start c b) inputs).rt.Consistent :=
  consistent_of_books (run_inv c b inputs).books

end Kokage.Supervisor
