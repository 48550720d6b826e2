/-
  Kokage.Supervisor.Books — the books of a ledger agree.

  The memberships, the id index and the order describe the same children; a child is
  active exactly while it has a task, and that task's record names its current
  generation; the live count is the number of active children. Task records outlive a
  membership only when it was removed with its task, and then no membership has their
  lineage any more. Every step keeps this (`step_books`).
-/

import Kokage.Supervisor.Ledger

namespace Kokage.Supervisor.Ledger

open Kokage.Lib

structure Books (L : Ledger) : Prop where
  order_nodup : L.order.Nodup
  order_mem : ∀ k, k ∈ L.order ↔ ∃ m, L.members.get k = some m
  byId_iff : ∀ id k, L.byId id = some k ↔ ∃ m, L.members.get k = some m ∧ m.id = id
  id_nonempty : ∀ k m, L.members.get k = some m → m.id ≠ ""
  lineage_lt : ∀ k m, L.members.get k = some m → m.lineage < L.nextLineage
  lineage_inj : ∀ k m k' m', L.members.get k = some m → L.members.get k' = some m' → m.lineage = m'.lineage → k = k'
  active_iff : ∀ k m, L.members.get k = some m → m.isActive = m.task.isSome
  started : ∀ k m, L.members.get k = some m → m.isActive = true → m.hasStarted = true
  accepted : ∀ k m, L.members.get k = some m → ¬ m.Refuses
  present : ∀ k m, L.members.get k = some m → m.membership ≠ .removed
  task_record : ∀ k m t, L.members.get k = some m → m.task = some t → L.taskMap t = some ⟨k, m.lineage, m.generation⟩
  record_task : ∀ t r k m, L.taskMap t = some r → L.members.get k = some m → m.lineage = r.lineage →
    k = r.key ∧ m.generation = r.generation ∧ m.task = some t
  record_lt : ∀ t r, L.taskMap t = some r → r.lineage < L.nextLineage
  record_inj : ∀ t r t' r', L.taskMap t = some r → L.taskMap t' = some r' → r.lineage = r'.lineage → t = t'
  record_iff : ∀ t, t ∈ L.joinIds ↔ ∃ r, L.taskMap t = some r
  live_eq : L.live = L.members.count Member.isActive
  spawned_idle : ∀ s ∈ L.spawnedFrom, s.isIdle = true

variable {L L' : Ledger} {key : ChildKey} {m m' : Member}

/-! ## Updates of one membership -/

theorem get_put (k : ChildKey) : (L.put key m).members.get k = if k = key then some m else L.members.get k :=
  Slab.get_insertAt ..

theorem count_put (m' : Member) (h : L.members.get key = some m) :
    (L.put key m').members.count Member.isActive + m.isActive.toNat =
      L.members.count Member.isActive + m'.isActive.toNat := by
  have := Slab.count_point (s := L.members) (t := (L.put key m').members) Member.isActive key
    fun j hj => by rw [get_put, if_neg hj]
  rw [get_put, if_pos rfl, h] at this
  exact this

/-- An edit that changes neither the identity of a member nor its task. -/
structure Alike (m m' : Member) : Prop where
  id_eq : m'.id = m.id
  lineage_eq : m'.lineage = m.lineage
  generation_eq : m'.generation = m.generation
  task_eq : m'.task = m.task
  active_eq : m'.isActive = m.isActive
  hasStarted_eq : m'.hasStarted = m.hasStarted
  definition_eq : m'.definition = m.definition
  channels_eq : m'.channels = m.channels
  present : m.membership ≠ .removed → m'.membership ≠ .removed

theorem Books.put (h : L.Books) (hget : L.members.get key = some m) (ha : Alike m m') : (L.put key m').Books := by
  have hold : ∀ k x, (L.put key m').members.get k = some x → ∃ y, L.members.get k = some y ∧ Alike y x := by
    intro k x hx
    rw [get_put] at hx
    split at hx
    · rename_i hk
      cases hx
      exact ⟨m, hk ▸ hget, ha⟩
    · exact ⟨x, hx, ⟨rfl, rfl, rfl, rfl, rfl, rfl, rfl, rfl, id⟩⟩
  have hnew : ∀ k y, L.members.get k = some y → ∃ x, (L.put key m').members.get k = some x ∧ Alike y x := by
    intro k y hy
    by_cases hk : k = key
    · subst hk
      rw [hget] at hy
      cases hy
      exact ⟨m', by rw [get_put, if_pos rfl], ha⟩
    · exact ⟨y, by rw [get_put, if_neg hk]; exact hy, ⟨rfl, rfl, rfl, rfl, rfl, rfl, rfl, rfl, id⟩⟩
  refine
    { order_nodup := h.order_nodup
      order_mem := fun k => ?_
      byId_iff := fun id k => ?_
      id_nonempty := fun k x hx => ?_
      lineage_lt := fun k x hx => ?_
      lineage_inj := fun k x k' x' hx hx' he => ?_
      active_iff := fun k x hx => ?_
      started := fun k x hx hact => ?_
      accepted := fun k x hx => ?_
      present := fun k x hx => ?_
      task_record := fun k x t hx ht => ?_
      record_task := fun t r k x hr hx hl => ?_
      record_lt := h.record_lt
      record_inj := h.record_inj
      record_iff := h.record_iff
      live_eq := ?_
      spawned_idle := h.spawned_idle }
  · refine (h.order_mem k).trans ⟨fun ⟨y, hy⟩ => ?_, fun ⟨x, hx⟩ => ?_⟩
    · obtain ⟨x, hx, _⟩ := hnew k y hy
      exact ⟨x, hx⟩
    · obtain ⟨y, hy, _⟩ := hold k x hx
      exact ⟨y, hy⟩
  · refine (h.byId_iff id k).trans ⟨fun ⟨y, hy, hid⟩ => ?_, fun ⟨x, hx, hid⟩ => ?_⟩
    · obtain ⟨x, hx, ha⟩ := hnew k y hy
      exact ⟨x, hx, ha.id_eq.trans hid⟩
    · obtain ⟨y, hy, ha⟩ := hold k x hx
      exact ⟨y, hy, ha.id_eq.symm.trans hid⟩
  · obtain ⟨y, hy, ha⟩ := hold k x hx
    rw [ha.id_eq]
    exact h.id_nonempty k y hy
  · obtain ⟨y, hy, ha⟩ := hold k x hx
    rw [ha.lineage_eq]
    exact h.lineage_lt k y hy
  · obtain ⟨y, hy, ha⟩ := hold k x hx
    obtain ⟨y', hy', ha'⟩ := hold k' x' hx'
    rw [ha.lineage_eq, ha'.lineage_eq] at he
    exact h.lineage_inj k y k' y' hy hy' he
  · obtain ⟨y, hy, ha⟩ := hold k x hx
    rw [ha.active_eq, ha.task_eq]
    exact h.active_iff k y hy
  · obtain ⟨y, hy, ha⟩ := hold k x hx
    rw [ha.hasStarted_eq]
    rw [ha.active_eq] at hact
    exact h.started k y hy hact
  · obtain ⟨y, hy, ha⟩ := hold k x hx
    unfold Member.Refuses
    rw [ha.definition_eq, ha.channels_eq]
    exact h.accepted k y hy
  · obtain ⟨y, hy, ha⟩ := hold k x hx
    exact ha.present (h.present k y hy)
  · obtain ⟨y, hy, ha⟩ := hold k x hx
    rw [ha.task_eq] at ht
    rw [ha.lineage_eq, ha.generation_eq]
    exact h.task_record k y t hy ht
  · obtain ⟨y, hy, ha⟩ := hold k x hx
    rw [ha.lineage_eq] at hl
    rw [ha.generation_eq, ha.task_eq]
    exact h.record_task t r k y hr hy hl
  · have := count_put m' hget
    rw [ha.active_eq] at this
    have hlive := h.live_eq
    show L.live = _
    omega

/-! ## The steps -/

/-- Nothing but the memberships, the books about them and the spawn history matters. -/
theorem Books.congr (h : L.Books) (hm : L'.members = L.members) (hb : L'.byId = L.byId) (ho : L'.order = L.order)
    (hl : L'.live = L.live) (ht : L'.taskMap = L.taskMap) (hj : L'.joinIds = L.joinIds)
    (hn : L'.nextLineage = L.nextLineage) (hs : L'.spawnedFrom = L.spawnedFrom) : L'.Books := by
  obtain ⟨⟩ := L'
  simp only at hm hb ho hl ht hj hn hs
  subst hm hb ho hl ht hj hn hs
  exact ⟨h.order_nodup, h.order_mem, h.byId_iff, h.id_nonempty, h.lineage_lt, h.lineage_inj, h.active_iff, h.started,
    h.accepted, h.present, h.task_record, h.record_task, h.record_lt, h.record_inj, h.record_iff, h.live_eq, h.spawned_idle⟩

theorem Books.emit (h : L.Books) (d : LifecycleEventDraft) : (L.emit d).Books :=
  h.congr rfl rfl rfl rfl rfl rfl rfl rfl

theorem Books.insert (h : L.Books) (hget : L.members.get key = none) (hid : L.byId m.id = none)
    (hf : m.Fresh L.nextLineage) : (L.insert key m).Books := by
  have hm : ∀ k x, (L.insert key m).members.get k = some x → k = key ∧ x = m ∨ k ≠ key ∧ L.members.get k = some x := by
    intro k x hx
    have hx : (if k = key then some m else L.members.get k) = some x := by rw [← hx]; exact (Slab.get_insertAt ..).symm
    split at hx
    · rename_i hk
      cases hx
      exact .inl ⟨hk, rfl⟩
    · rename_i hk
      exact .inr ⟨hk, hx⟩
  have hself : (L.insert key m).members.get key = some m := Slab.get_insertAt_self ..
  have hkeep : ∀ k x, L.members.get k = some x → (L.insert key m).members.get k = some x := by
    intro k x hx
    have hk : k ≠ key := by rintro rfl; rw [hget] at hx; cases hx
    exact (Slab.get_insertAt_ne _ _ hk).trans hx
  have hinact : m.isActive = false := Member.isActive_eq hf.state_eq
  refine
    { order_nodup := ?_
      order_mem := fun k => ?_
      byId_iff := fun id k => ?_
      id_nonempty := fun k x hx => ?_
      lineage_lt := fun k x hx => ?_
      lineage_inj := fun k x k' x' hx hx' he => ?_
      active_iff := fun k x hx => ?_
      started := fun k x hx hact => ?_
      accepted := fun k x hx => ?_
      present := fun k x hx => ?_
      task_record := fun k x t hx ht => ?_
      record_task := fun t r k x hr hx hl => ?_
      record_lt := fun t r hr => Nat.lt_succ_of_lt (h.record_lt t r hr)
      record_inj := h.record_inj
      record_iff := h.record_iff
      live_eq := ?_
      spawned_idle := h.spawned_idle }
  · show (L.order ++ [key]).Nodup
    rw [List.nodup_append]
    refine ⟨h.order_nodup, by simp, fun a ha b hb he => ?_⟩
    rw [List.mem_singleton] at hb
    obtain ⟨x, hx⟩ := (h.order_mem a).mp ha
    rw [he, hb, hget] at hx
    cases hx
  · show k ∈ L.order ++ [key] ↔ _
    rw [List.mem_append, List.mem_singleton]
    constructor
    · rintro (hk | rfl)
      · obtain ⟨x, hx⟩ := (h.order_mem k).mp hk
        exact ⟨x, hkeep k x hx⟩
      · exact ⟨m, hself⟩
    · rintro ⟨x, hx⟩
      rcases hm k x hx with ⟨rfl, -⟩ | ⟨-, hx⟩
      · exact .inr rfl
      · exact .inl ((h.order_mem k).mpr ⟨x, hx⟩)
  · show Function.update L.byId m.id (some key) id = some k ↔ _
    by_cases hi : id = m.id
    · subst hi
      rw [Function.update_self]
      constructor
      · rintro ⟨⟩
        exact ⟨m, hself, rfl⟩
      · rintro ⟨x, hx, hxid⟩
        rcases hm k x hx with ⟨rfl, -⟩ | ⟨-, hx⟩
        · rfl
        · rw [(h.byId_iff m.id k).mpr ⟨x, hx, hxid⟩] at hid
          cases hid
    · rw [Function.update_of_ne hi, h.byId_iff]
      constructor
      · rintro ⟨x, hx, hxid⟩
        exact ⟨x, hkeep k x hx, hxid⟩
      · rintro ⟨x, hx, hxid⟩
        rcases hm k x hx with ⟨-, rfl⟩ | ⟨-, hx⟩
        · exact absurd hxid.symm hi
        · exact ⟨x, hx, hxid⟩
  · rcases hm k x hx with ⟨-, rfl⟩ | ⟨-, hx⟩
    · exact hf.id_nonempty
    · exact h.id_nonempty k x hx
  · show x.lineage < L.nextLineage + 1
    rcases hm k x hx with ⟨-, rfl⟩ | ⟨-, hx⟩
    · rw [hf.lineage_eq]
      omega
    · have := h.lineage_lt k x hx
      omega
  · rcases hm k x hx with ⟨rfl, rfl⟩ | ⟨-, hy⟩ <;> rcases hm k' x' hx' with ⟨rfl, rfl⟩ | ⟨-, hy'⟩
    · rfl
    · have := h.lineage_lt k' x' hy'
      rw [← he, hf.lineage_eq] at this
      omega
    · have := h.lineage_lt k x hy
      rw [he, hf.lineage_eq] at this
      omega
    · exact h.lineage_inj k x k' x' hy hy' he
  · rcases hm k x hx with ⟨-, rfl⟩ | ⟨-, hx⟩
    · rw [hinact, hf.task_eq]
      rfl
    · exact h.active_iff k x hx
  · rcases hm k x hx with ⟨-, rfl⟩ | ⟨-, hx⟩
    · rw [hinact] at hact
      cases hact
    · exact h.started k x hx hact
  · rcases hm k x hx with ⟨-, rfl⟩ | ⟨-, hx⟩
    · exact hf.accepted
    · exact h.accepted k x hx
  · rcases hm k x hx with ⟨-, rfl⟩ | ⟨-, hx⟩
    · rw [hf.membership_eq]
      intro hc
      cases hc
    · exact h.present k x hx
  · rcases hm k x hx with ⟨-, rfl⟩ | ⟨-, hx⟩
    · rw [hf.task_eq] at ht
      cases ht
    · exact h.task_record k x t hx ht
  · rcases hm k x hx with ⟨-, rfl⟩ | ⟨-, hx⟩
    · have := h.record_lt t r hr
      rw [← hl, hf.lineage_eq] at this
      omega
    · exact h.record_task t r k x hr hx hl
  · have := Slab.count_point (s := L.members) (t := (L.insert key m).members) Member.isActive key
      fun j hj => Slab.get_insertAt_ne _ _ hj
    rw [hself, hget] at this
    simp only [Option.any_some, Option.any_none, hinact, Bool.toNat_false] at this
    show L.live = _
    rw [h.live_eq]
    omega

theorem isActive_spawn (m : Member) (task : TaskId) : (m.spawn task).isActive = true := by
  unfold Member.isActive Member.spawn
  simp only
  split <;> rfl

theorem isActive_of_isIdle (h : m.state.isIdle = true) : m.isActive = false := by
  unfold Member.isActive
  cases hs : m.state <;> simp_all [RuntimeChildState.isIdle, RuntimeChildState.isActive]

theorem Books.install {task : TaskId} (h : L.Books) (hget : L.members.get key = some m)
    (hi : m.state.isIdle = true) (hfresh : task ∉ L.joinIds) : (L.install key m task).Books := by
  have hinact := isActive_of_isIdle hi
  have hnotask : m.task = none := by
    have := h.active_iff key m hget
    rw [hinact] at this
    simpa using this.symm
  have hnew : L.taskMap task = none := by
    cases hc : L.taskMap task with
    | none => rfl
    | some r => exact absurd ((h.record_iff task).mpr ⟨r, hc⟩) hfresh
  -- no task record carries the lineage of an idle child
  have hnone : ∀ t r, L.taskMap t = some r → r.lineage ≠ m.lineage := by
    intro t r hr he
    have := (h.record_task t r key m hr hget he.symm).2.2
    rw [hnotask] at this
    cases this
  have hm : ∀ k x, (L.install key m task).members.get k = some x →
      k = key ∧ x = m.spawn task ∨ k ≠ key ∧ L.members.get k = some x := by
    intro k x hx
    have hx : (if k = key then some (m.spawn task) else L.members.get k) = some x := by
      rw [← hx]
      exact (Slab.get_insertAt ..).symm
    split at hx
    · rename_i hk
      cases hx
      exact .inl ⟨hk, rfl⟩
    · rename_i hk
      exact .inr ⟨hk, hx⟩
  have hself : (L.install key m task).members.get key = some (m.spawn task) := Slab.get_insertAt_self ..
  have hkeep : ∀ k x, k ≠ key → L.members.get k = some x → (L.install key m task).members.get k = some x := by
    intro k x hk hx
    exact (Slab.get_insertAt_ne _ _ hk).trans hx
  have hrec : ∀ t r, (L.install key m task).taskMap t = some r →
      t = task ∧ r = ⟨key, m.lineage, (m.spawn task).generation⟩ ∨ t ≠ task ∧ L.taskMap t = some r := by
    intro t r hr
    have hr : Function.update L.taskMap task (some ⟨key, m.lineage, (m.spawn task).generation⟩) t = some r := hr
    by_cases ht : t = task
    · subst ht
      rw [Function.update_self] at hr
      cases hr
      exact .inl ⟨rfl, rfl⟩
    · rw [Function.update_of_ne ht] at hr
      exact .inr ⟨ht, hr⟩
  refine
    { order_nodup := h.order_nodup
      order_mem := fun k => ?_
      byId_iff := fun id k => ?_
      id_nonempty := fun k x hx => ?_
      lineage_lt := fun k x hx => ?_
      lineage_inj := fun k x k' x' hx hx' he => ?_
      active_iff := fun k x hx => ?_
      started := fun k x hx hact => ?_
      accepted := fun k x hx => ?_
      present := fun k x hx => ?_
      task_record := fun k x t hx ht => ?_
      record_task := fun t r k x hr hx hl => ?_
      record_lt := fun t r hr => ?_
      record_inj := fun t r t' r' hr hr' he => ?_
      record_iff := fun t => ?_
      live_eq := ?_
      spawned_idle := fun s hs => ?_ }
  · refine (h.order_mem k).trans ⟨fun ⟨x, hx⟩ => ?_, fun ⟨x, hx⟩ => ?_⟩
    · by_cases hk : k = key
      · subst hk
        exact ⟨_, hself⟩
      · exact ⟨x, hkeep k x hk hx⟩
    · rcases hm k x hx with ⟨rfl, -⟩ | ⟨-, hx⟩
      · exact ⟨m, hget⟩
      · exact ⟨x, hx⟩
  · refine (h.byId_iff id k).trans ⟨fun ⟨x, hx, hid⟩ => ?_, fun ⟨x, hx, hid⟩ => ?_⟩
    · by_cases hk : k = key
      · subst hk
        rw [hget] at hx
        cases hx
        exact ⟨_, hself, hid⟩
      · exact ⟨x, hkeep k x hk hx, hid⟩
    · rcases hm k x hx with ⟨rfl, rfl⟩ | ⟨-, hx⟩
      · exact ⟨m, hget, hid⟩
      · exact ⟨x, hx, hid⟩
  · rcases hm k x hx with ⟨-, rfl⟩ | ⟨-, hx⟩
    · exact h.id_nonempty key m hget
    · exact h.id_nonempty k x hx
  · rcases hm k x hx with ⟨-, rfl⟩ | ⟨-, hx⟩
    · exact h.lineage_lt key m hget
    · exact h.lineage_lt k x hx
  · rcases hm k x hx with ⟨rfl, rfl⟩ | ⟨-, hy⟩ <;> rcases hm k' x' hx' with ⟨rfl, rfl⟩ | ⟨-, hy'⟩
    · rfl
    · exact h.lineage_inj k m k' x' hget hy' he
    · exact h.lineage_inj k x k' m hy hget he
    · exact h.lineage_inj k x k' x' hy hy' he
  · rcases hm k x hx with ⟨-, rfl⟩ | ⟨-, hx⟩
    · rw [isActive_spawn]
      rfl
    · exact h.active_iff k x hx
  · rcases hm k x hx with ⟨-, rfl⟩ | ⟨-, hx⟩
    · rfl
    · exact h.started k x hx hact
  · rcases hm k x hx with ⟨-, rfl⟩ | ⟨-, hx⟩
    · exact h.accepted key m hget
    · exact h.accepted k x hx
  · rcases hm k x hx with ⟨-, rfl⟩ | ⟨-, hx⟩
    · exact h.present key m hget
    · exact h.present k x hx
  · show Function.update L.taskMap task _ t = _
    rcases hm k x hx with ⟨rfl, rfl⟩ | ⟨-, hx⟩
    · cases ht
      rw [Function.update_self]
    · have hr := h.task_record k x t hx ht
      have hne : t ≠ task := by rintro rfl; rw [hnew] at hr; cases hr
      rw [Function.update_of_ne hne]
      exact hr
  · rcases hrec t r hr with ⟨rfl, rfl⟩ | ⟨-, hr'⟩ <;> rcases hm k x hx with ⟨rfl, rfl⟩ | ⟨hk, hy⟩
    · exact ⟨rfl, rfl, rfl⟩
    · exact absurd (h.lineage_inj k x key m hy hget hl) hk
    · exact absurd hl.symm (hnone t r hr')
    · exact h.record_task t r k x hr' hy hl
  · rcases hrec t r hr with ⟨-, rfl⟩ | ⟨-, hr⟩
    · exact h.lineage_lt key m hget
    · exact h.record_lt t r hr
  · rcases hrec t r hr with ⟨rfl, rfl⟩ | ⟨-, hy⟩ <;> rcases hrec t' r' hr' with ⟨rfl, rfl⟩ | ⟨-, hy'⟩
    · rfl
    · exact absurd he.symm (hnone t' r' hy')
    · exact absurd he (hnone t r hy)
    · exact h.record_inj t r t' r' hy hy' he
  · show t ∈ L.joinIds ++ [task] ↔ ∃ r, Function.update L.taskMap task _ t = some r
    rw [List.mem_append, List.mem_singleton, h.record_iff]
    by_cases ht : t = task
    · subst ht
      simp
    · simp [ht]
  · have := Slab.count_point (s := L.members) (t := (L.install key m task).members) Member.isActive key
      fun j hj => Slab.get_insertAt_ne _ _ hj
    rw [hself, hget] at this
    simp only [Option.any_some, hinact, isActive_spawn, Bool.toNat_false, Bool.toNat_true] at this
    show L.live + 1 = _
    rw [h.live_eq]
    omega
  · have hs : s ∈ L.spawnedFrom ++ [m.state] := hs
    rcases List.mem_append.mp hs with hs | hs
    · exact h.spawned_idle s hs
    · rw [List.mem_singleton.mp hs]
      exact hi

theorem taskMap_join {task t : TaskId} {r : TaskMeta} :
    (L.join task).taskMap t = some r ↔ t ≠ task ∧ L.taskMap t = some r := by
  show Function.update L.taskMap task none t = some r ↔ _
  by_cases ht : t = task
  · subst ht
    simp
  · simp [ht]

theorem mem_joinIds_join (h : L.Books) {task t : TaskId} :
    t ∈ (L.join task).joinIds ↔ ∃ r, (L.join task).taskMap t = some r := by
  show t ∈ L.joinIds.filter (· ≠ task) ↔ _
  simp only [List.mem_filter, decide_eq_true_eq, taskMap_join, h.record_iff]
  constructor
  · rintro ⟨⟨r, hr⟩, ht⟩
    exact ⟨r, ht, hr⟩
  · rintro ⟨r, ht, hr⟩
    exact ⟨⟨r, hr⟩, ht⟩

/-- Joining a task no member runs in. -/
theorem Books.join {task : TaskId} (h : L.Books) (hno : ∀ k m, L.members.get k = some m → m.task ≠ some task) :
    (L.join task).Books :=
  { order_nodup := h.order_nodup
    order_mem := h.order_mem
    byId_iff := h.byId_iff
    id_nonempty := h.id_nonempty
    lineage_lt := h.lineage_lt
    lineage_inj := h.lineage_inj
    active_iff := h.active_iff
    started := h.started
    accepted := h.accepted
    present := h.present
    task_record := fun k m t hm ht =>
      taskMap_join.mpr ⟨fun he => hno k m hm (he ▸ ht), h.task_record k m t hm ht⟩
    record_task := fun t r k m hr hm hl => h.record_task t r k m (taskMap_join.mp hr).2 hm hl
    record_lt := fun t r hr => h.record_lt t r (taskMap_join.mp hr).2
    record_inj := fun t r t' r' hr hr' he => h.record_inj t r t' r' (taskMap_join.mp hr).2 (taskMap_join.mp hr').2 he
    record_iff := fun _ => mem_joinIds_join h
    live_eq := h.live_eq
    spawned_idle := h.spawned_idle }

theorem Books.exit {task : TaskId} {r : TaskMeta} (h : L.Books) (hr : L.taskMap task = some r) (hc : L.Current r m)
    (x : ExitStatus) : ({ L.join task with live := L.live - 1 }.put r.key (m.exit x)).Books := by
  obtain ⟨hget, hlin, hgen⟩ := hc
  have htask : m.task = some task := (h.record_task task r r.key m hr hget hlin).2.2
  have hact : m.isActive = true := by
    rw [h.active_iff r.key m hget, htask]
    rfl
  have hm : ∀ k y, ({ L.join task with live := L.live - 1 }.put r.key (m.exit x)).members.get k = some y →
      k = r.key ∧ y = m.exit x ∨ k ≠ r.key ∧ L.members.get k = some y := by
    intro k y hy
    rw [get_put] at hy
    split at hy
    · rename_i hk
      cases hy
      exact .inl ⟨hk, rfl⟩
    · rename_i hk
      exact .inr ⟨hk, hy⟩
  have hself : ({ L.join task with live := L.live - 1 }.put r.key (m.exit x)).members.get r.key = some (m.exit x) := by
    rw [get_put, if_pos rfl]
  have hkeep : ∀ k y, k ≠ r.key → L.members.get k = some y →
      ({ L.join task with live := L.live - 1 }.put r.key (m.exit x)).members.get k = some y := by
    intro k y hk hy
    rw [get_put, if_neg hk]
    exact hy
  refine
    { order_nodup := h.order_nodup
      order_mem := fun k => ?_
      byId_iff := fun id k => ?_
      id_nonempty := fun k y hy => ?_
      lineage_lt := fun k y hy => ?_
      lineage_inj := fun k y k' y' hy hy' he => ?_
      active_iff := fun k y hy => ?_
      started := fun k y hy hya => ?_
      accepted := fun k y hy => ?_
      present := fun k y hy => ?_
      task_record := fun k y t hy ht => ?_
      record_task := fun t r' k y hr' hy hl => ?_
      record_lt := fun t r' hr' => h.record_lt t r' (taskMap_join.mp hr').2
      record_inj := fun t r' t' r'' hr' hr'' he =>
        h.record_inj t r' t' r'' (taskMap_join.mp hr').2 (taskMap_join.mp hr'').2 he
      record_iff := fun _ => mem_joinIds_join h
      live_eq := ?_
      spawned_idle := h.spawned_idle }
  · refine (h.order_mem k).trans ⟨fun ⟨y, hy⟩ => ?_, fun ⟨y, hy⟩ => ?_⟩
    · by_cases hk : k = r.key
      · rw [hk]
        exact ⟨_, hself⟩
      · exact ⟨y, hkeep k y hk hy⟩
    · rcases hm k y hy with ⟨hk, -⟩ | ⟨-, hy⟩
      · rw [hk]
        exact ⟨m, hget⟩
      · exact ⟨y, hy⟩
  · refine (h.byId_iff id k).trans ⟨fun ⟨y, hy, hid⟩ => ?_, fun ⟨y, hy, hid⟩ => ?_⟩
    · by_cases hk : k = r.key
      · rw [hk] at hy ⊢
        rw [hget] at hy
        cases hy
        exact ⟨_, hself, hid⟩
      · exact ⟨y, hkeep k y hk hy, hid⟩
    · rcases hm k y hy with ⟨hk, rfl⟩ | ⟨-, hy⟩
      · rw [hk]
        exact ⟨m, hget, hid⟩
      · exact ⟨y, hy, hid⟩
  · rcases hm k y hy with ⟨-, rfl⟩ | ⟨-, hy⟩
    · exact h.id_nonempty r.key m hget
    · exact h.id_nonempty k y hy
  · rcases hm k y hy with ⟨-, rfl⟩ | ⟨-, hy⟩
    · exact h.lineage_lt r.key m hget
    · exact h.lineage_lt k y hy
  · rcases hm k y hy with ⟨hk, rfl⟩ | ⟨-, hz⟩ <;> rcases hm k' y' hy' with ⟨hk', rfl⟩ | ⟨-, hz'⟩
    · exact hk.trans hk'.symm
    · exact hk.trans (h.lineage_inj r.key m k' y' hget hz' he)
    · exact (h.lineage_inj k y r.key m hz hget he).trans hk'.symm
    · exact h.lineage_inj k y k' y' hz hz' he
  · rcases hm k y hy with ⟨-, rfl⟩ | ⟨-, hy⟩
    · rfl
    · exact h.active_iff k y hy
  · rcases hm k y hy with ⟨-, rfl⟩ | ⟨-, hy⟩
    · cases hya
    · exact h.started k y hy hya
  · rcases hm k y hy with ⟨-, rfl⟩ | ⟨-, hy⟩
    · exact h.accepted r.key m hget
    · exact h.accepted k y hy
  · rcases hm k y hy with ⟨-, rfl⟩ | ⟨-, hy⟩
    · exact h.present r.key m hget
    · exact h.present k y hy
  · rcases hm k y hy with ⟨-, rfl⟩ | ⟨hk, hy⟩
    · cases ht
    · have hrec := h.task_record k y t hy ht
      refine taskMap_join.mpr ⟨?_, hrec⟩
      rintro rfl
      rw [hr] at hrec
      cases hrec
      exact hk rfl
  · obtain ⟨ht, hr'⟩ := taskMap_join.mp hr'
    rcases hm k y hy with ⟨-, rfl⟩ | ⟨hk, hy⟩
    · have := (h.record_task t r' r.key m hr' hget hl).2.2
      rw [htask] at this
      cases this
      exact absurd rfl ht
    · exact h.record_task t r' k y hr' hy hl
  · have hcount : ((L.put r.key (m.exit x)).members.count Member.isActive) + 1 = L.members.count Member.isActive := by
      have := count_put (m.exit x) hget
      rw [hact] at this
      exact this
    have hlive := h.live_eq
    show L.live - 1 = (L.put r.key (m.exit x)).members.count Member.isActive
    omega

theorem Books.drop (h : L.Books) (hget : L.members.get key = some m) : (L.drop key m).Books := by
  have hm : ∀ k y, (L.drop key m).members.get k = some y ↔ k ≠ key ∧ L.members.get k = some y := by
    intro k y
    show (L.members.remove key).get k = some y ↔ _
    rw [Slab.get_remove]
    by_cases hk : k = key
    · simp [hk]
    · simp [hk]
  refine
    { order_nodup := h.order_nodup.filter _
      order_mem := fun k => ?_
      byId_iff := fun id k => ?_
      id_nonempty := fun k y hy => h.id_nonempty k y ((hm k y).mp hy).2
      lineage_lt := fun k y hy => h.lineage_lt k y ((hm k y).mp hy).2
      lineage_inj := fun k y k' y' hy hy' he => h.lineage_inj k y k' y' ((hm k y).mp hy).2 ((hm k' y').mp hy').2 he
      active_iff := fun k y hy => h.active_iff k y ((hm k y).mp hy).2
      started := fun k y hy hact => h.started k y ((hm k y).mp hy).2 hact
      accepted := fun k y hy => h.accepted k y ((hm k y).mp hy).2
      present := fun k y hy => h.present k y ((hm k y).mp hy).2
      task_record := fun k y t hy ht => h.task_record k y t ((hm k y).mp hy).2 ht
      record_task := fun t r k y hr hy hl => h.record_task t r k y hr ((hm k y).mp hy).2 hl
      record_lt := h.record_lt
      record_inj := h.record_inj
      record_iff := h.record_iff
      live_eq := ?_
      spawned_idle := h.spawned_idle }
  · show k ∈ L.order.filter (· ≠ key) ↔ _
    simp only [List.mem_filter, decide_eq_true_eq, hm, h.order_mem]
    constructor
    · rintro ⟨⟨y, hy⟩, hk⟩
      exact ⟨y, hk, hy⟩
    · rintro ⟨y, hk, hy⟩
      exact ⟨⟨y, hy⟩, hk⟩
  · show Function.update L.byId m.id none id = some k ↔ _
    simp only [hm]
    by_cases hi : id = m.id
    · subst hi
      rw [Function.update_self]
      refine ⟨by rintro ⟨⟩, ?_⟩
      rintro ⟨y, ⟨hk, hy⟩, hid⟩
      have h1 := (h.byId_iff m.id k).mpr ⟨y, hy, hid⟩
      have h2 := (h.byId_iff m.id key).mpr ⟨m, hget, rfl⟩
      rw [h1] at h2
      cases h2
      exact absurd rfl hk
    · rw [Function.update_of_ne hi, h.byId_iff]
      constructor
      · rintro ⟨y, hy, hid⟩
        refine ⟨y, ⟨?_, hy⟩, hid⟩
        rintro rfl
        rw [hget] at hy
        cases hy
        exact hi hid.symm
      · rintro ⟨y, ⟨-, hy⟩, hid⟩
        exact ⟨y, hy, hid⟩
  · have := Slab.count_point (s := L.members) (t := (L.drop key m).members) Member.isActive key
      fun j hj => Slab.get_remove_ne _ hj
    rw [hget, show (L.drop key m).members.get key = none from Slab.get_remove_self ..] at this
    simp only [Option.any_some, Option.any_none, Bool.toNat_false, h.active_iff key m hget] at this
    have hlive := h.live_eq
    show (if m.task.isSome then L.live - 1 else L.live) = _
    split
    · rename_i hs
      rw [hs, Bool.toNat_true] at this
      omega
    · rename_i hs
      simp only [Bool.not_eq_true] at hs
      rw [hs, Bool.toNat_false] at this
      omega

/-- Every step keeps the books. -/
theorem step_books {l : Label} (hs : Step l L L') (h : L.Books) : L'.Books := by
  cases hs with
  | publish => exact h.congr rfl rfl rfl rfl rfl rfl rfl rfl
  | shutdown => exact h.congr rfl rfl rfl rfl rfl rfl rfl rfl
  | sent => exact h.congr rfl rfl rfl rfl rfl rfl rfl rfl
  | announced => exact h.emit _
  | added hget hid hf => exact (h.insert hget hid hf).emit _
  | spawned hget _ hi hfresh => exact h.install hget hi hfresh
  | spawnedReady hget _ hi hfresh => exact (h.install hget hi hfresh).emit _
  | refused hget hr => exact absurd hr (h.accepted _ _ hget)
  | received _ hc _ hst =>
    refine Books.congr (L := L.put _ _) (h.put hc.1 ?_) rfl rfl rfl rfl rfl rfl rfl rfl
    refine ⟨rfl, rfl, rfl, rfl, ?_, rfl, rfl, rfl, id⟩
    simp [Member.isActive, Member.ready, hst, RuntimeChildState.isActive]
  | dropped => exact h.congr rfl rfl rfl rfl rfl rfl rfl rfl
  | exited hr hc => exact (h.exit hr hc _).emit _
  | @staleJoin _ task r hr hno =>
    refine h.join fun k m hm ht => hno m ?_
    have := h.task_record k m task hm ht
    rw [hr] at this
    cases this
    exact ⟨hm, rfl, rfl⟩
  | lostJoin hmem hnone =>
    obtain ⟨r, hr⟩ := (h.record_iff _).mp hmem
    rw [hnone] at hr
    cases hr
  | scheduled => exact h.emit _
  | removed hget => exact (h.drop hget).emit _
  | stopped hget hact => exact h.put hget ⟨rfl, rfl, rfl, rfl, hact.symm, rfl, rfl, rfl, id⟩
  | removing hget =>
    refine h.put hget ⟨rfl, rfl, rfl, rfl, ?_, rfl, rfl, rfl, fun _ hc => by cases hc⟩
    unfold Member.isActive Member.remove
    simp only
    split
    · rename_i hact
      rw [hact]
      rfl
    · rfl
  | queued hget _ hi => exact h.put hget ⟨rfl, rfl, rfl, rfl, (isActive_of_isIdle hi).symm, rfl, rfl, rfl, id⟩
  | gated => exact h.congr rfl rfl rfl rfl rfl rfl rfl rfl
  | flagged _ hget => exact h.put hget ⟨rfl, rfl, rfl, rfl, rfl, rfl, rfl, rfl, id⟩
  | verdict => exact h.congr rfl rfl rfl rfl rfl rfl rfl rfl
  | verdictAtGate => exact h.congr rfl rfl rfl rfl rfl rfl rfl rfl

theorem path_books {A : Label → Prop} (hp : Ledger.Path A L L') (h : L.Books) : L'.Books :=
  hp.keeps (fun _ hs => step_books hs) h

end Kokage.Supervisor.Ledger
