/-
  Kokage.Supervisor.Startup — an ordered scope starts its children in order, over every run.

  The static children take their seats in declaration order (`new_seated`), the startup
  queues all of them, and every later step keeps the invariants of `Staging`.

  - `run_orderly`: every reachable machine of an ordered scope is orderly.
  - `ordered_start_sequence`: what that says about the runtime's own fields.
-/

import Kokage.Supervisor.Readiness
import Kokage.Supervisor.StartOrder

namespace Kokage.Supervisor

open Kokage.Lib SupervisorRuntime Lane

variable {roster : List Seat} {rt : SupervisorRuntime}

/-! ## Seats -/

/-- The seats the children `ds` take when they are inserted one after the other. -/
def seatsOf : SupervisorRuntime → List ChildDefinition → List Seat
  | _, [] => []
  | rt, d :: ds =>
    ⟨rt.cfg.host.slabKey rt.children.keys, d.id, rt.nextLineage, d⟩ :: seatsOf (rt.insertEntry d (staticChannels d)) ds

def SupervisorConfig.seats (c : SupervisorConfig) (b : Binding) : List Seat :=
  seatsOf (.blank ⟨c.host, c.strategy, c.kind, c.defaultChildRestart, c.defaultChildShutdown, b.revivable⟩ b) c.children

/-- A child that has done nothing yet. -/
structure Post.Unused (p : Post) : Prop where
  membership_eq : p.membership = .active
  state_eq : p.state = .stopped
  hasStarted_eq : p.hasStarted = false
  hasReportedReady_eq : p.hasReportedReady = false
  due_eq : p.due = false
  lastExit_eq : p.lastExit = none

/-- The children are those of `roster`, none of them used. -/
structure Seated (roster : List Seat) (rt : SupervisorRuntime) : Prop where
  order_eq : rt.lane.order = roster.map (·.key)
  taken : ∀ s ∈ roster, ∃ p, rt.lane.posts s.key = some p ∧ p.seat s.key = s
  seated : ∀ k p, rt.lane.posts k = some p → p.seat k ∈ roster ∧ p.Unused

theorem lane_insertEntry (d : ChildDefinition) (nested : Option StableChannels) :
    (rt.insertEntry d nested).lane =
      { rt.lane with
        posts := Function.update rt.lane.posts (rt.cfg.host.slabKey rt.children.keys)
          (some (ChildEntry.new d.id d nested rt.nextLineage (rt.cfg.host.seed rt.nextLineage)).post)
        order := rt.lane.order ++ [rt.cfg.host.slabKey rt.children.keys] } := by
  unfold lane insertEntry
  congr 1
  funext k
  simp only [Slab.get_insertAt, Function.update_apply]
  split <;> rfl

theorem Seated.insert (h : Seated roster rt) (d : ChildDefinition) (nested : Option StableChannels) :
    Seated (roster ++ [⟨rt.cfg.host.slabKey rt.children.keys, d.id, rt.nextLineage, d⟩]) (rt.insertEntry d nested) := by
  have hfree : rt.lane.posts (rt.cfg.host.slabKey rt.children.keys) = none := lane_get_none (slabKey_fresh rt)
  constructor
  case order_eq =>
    rw [lane_insertEntry, List.map_append, ← h.order_eq]
    rfl
  case taken =>
    intro s hs
    rw [lane_insertEntry]
    rcases List.mem_append.mp hs with hs | hs
    · obtain ⟨p, hp, hseat⟩ := h.taken s hs
      refine ⟨p, ?_, hseat⟩
      rw [← hp]
      refine Function.update_of_ne ?_ ..
      rintro heq
      rw [heq, hfree] at hp
      cases hp
    · rw [List.mem_singleton.mp hs]
      exact ⟨_, Function.update_self .., rfl⟩
  case seated =>
    intro k p hp
    rw [lane_insertEntry] at hp
    simp only at hp
    by_cases hk : k = rt.cfg.host.slabKey rt.children.keys
    · subst hk
      rw [Function.update_self] at hp
      cases hp
      exact ⟨List.mem_append_right _ (List.mem_singleton.mpr rfl), rfl, rfl, rfl, rfl, rfl, rfl⟩
    · rw [Function.update_of_ne hk] at hp
      exact ⟨List.mem_append_left _ (h.seated k p hp).1, (h.seated k p hp).2⟩

theorem Seated.insertAll : ∀ (ds : List ChildDefinition) {roster : List Seat} {rt : SupervisorRuntime}, Seated roster rt →
    Seated (roster ++ seatsOf rt ds) (ds.foldl (fun rt d => rt.insertEntry d (staticChannels d)) rt)
  | [], roster, rt, h => by
    rw [seatsOf, List.append_nil]
    exact h
  | d :: ds, roster, rt, h => by
    have := Seated.insertAll ds (h.insert d (staticChannels d))
    rwa [List.append_assoc] at this

theorem new_seated (c : SupervisorConfig) (b : Binding) : Seated (c.seats b) (.new c b) := by
  refine @Seated.insertAll c.children [] _ ⟨rfl, ?_, ?_⟩
  · intro s hs
    cases hs
  · intro k p hp
    obtain ⟨e, he, -⟩ := get_of_lane hp
    cases he

/-- All else is as in a blank runtime. -/
theorem insertAll_lane : ∀ (ds : List ChildDefinition) (rt : SupervisorRuntime), ∃ posts order,
    (ds.foldl (fun rt d => rt.insertEntry d (staticChannels d)) rt).lane = { rt.lane with posts := posts, order := order }
  | [], rt => ⟨rt.lane.posts, rt.lane.order, rfl⟩
  | d :: ds, rt => by
    obtain ⟨posts, order, h⟩ := insertAll_lane ds (rt.insertEntry d (staticChannels d))
    refine ⟨posts, order, ?_⟩
    rw [List.foldl_cons, h, lane_insertEntry]

theorem new_lane (c : SupervisorConfig) (b : Binding) : ∃ posts order, (SupervisorRuntime.new c b).lane =
    { strategy := c.strategy, kind := c.kind, running := true, posts := posts, order := order, queue := [], gate := none,
      startup := none, told := 0, news := [], commands := [] } :=
  insertAll_lane c.children
    (.blank ⟨c.host, c.strategy, c.kind, c.defaultChildRestart, c.defaultChildShutdown, b.revivable⟩ b)

/-- The seats follow the declarations and their minted lineages. -/
theorem seatsOf_declared : ∀ (ds : List ChildDefinition) (rt : SupervisorRuntime),
    (seatsOf rt ds).map (fun s => (s.id, s.lineage, s.definition)) =
      (ds.zipIdx rt.nextLineage).map fun d => (d.1.id, d.2, d.1)
  | [], _ => rfl
  | d :: ds, rt => by
    rw [seatsOf, List.map_cons, List.zipIdx_cons, List.map_cons, seatsOf_declared ds]
    rfl

theorem seats_declared (c : SupervisorConfig) (b : Binding) :
    (c.seats b).map (fun s => (s.id, s.lineage, s.definition)) =
      (c.children.zipIdx b.firstLineage).map fun d => (d.1.id, d.2, d.1) :=
  seatsOf_declared c.children _

/-! ## The startup -/

theorem Seated.kept {c : SupervisorConfig} {b : Binding} (h : Seated roster (.new c b)) (hc : c.kind = .ordered)
    (startup : Option (List (ChildKey × Nat)))
    (hs : ∀ pending, startup = some pending → ∀ s ∈ roster, (s.key, s.lineage) ∈ pending) :
    Kept roster { (SupervisorRuntime.new c b).lane with startup := startup } := by
  obtain ⟨hblank, -⟩ := new_blank c b
  have hsome : ∀ s ∈ roster, ((SupervisorRuntime.new c b).lane.posts s.key).isSome = true := by
    intro s hmem
    obtain ⟨p, hp, -⟩ := h.taken s hmem
    rw [hp]
    rfl
  obtain ⟨posts, order, hl⟩ := new_lane c b
  constructor
  case kind_eq =>
    rw [hl]
    exact hc
  case commands_eq => rw [hl]
  case keys_nodup =>
    rw [← h.order_eq]
    exact hblank.books.order_nodup
  case seated => exact fun k p hp => (h.seated k p hp).1
  case active => exact fun k p hp => (h.seated k p hp).2.membership_eq
  case willing => exact willing_of_books hblank.books
  case order_eq =>
    show (SupervisorRuntime.new c b).lane.order = _
    rw [h.order_eq, List.filter_eq_self.mpr]
    intro k hk
    obtain ⟨s, hmem, rfl⟩ := List.mem_map.mp hk
    exact hsome s hmem
  case ready =>
    intro k p hp hr
    rw [(h.seated k p hp).2.hasReportedReady_eq] at hr
    cases hr
  case exited =>
    intro k p hp _ hst
    rw [(h.seated k p hp).2.hasStarted_eq] at hst
    cases hst
  case exits =>
    intro k p x hp hx
    rw [(h.seated k p hp).2.lastExit_eq] at hx
    cases hx
  case earlier =>
    intro before s after p _ hp hst
    rw [(h.seated s.key p hp).2.hasStarted_eq] at hst
    cases hst
  case upheld =>
    rintro before s after p _ hp ⟨-, hup⟩
    rw [(h.seated s.key p hp).2.state_eq] at hup
    rcases hup with hup | hup <;> cases hup
  case told =>
    have htold : (SupervisorRuntime.new c b).lane.told = 0 := by rw [hl]
    unfold Told
    simp only
    split
    · rename_i pending
      exact ⟨htold, fun s hmem => .inr (hs pending rfl s hmem)⟩
    · exact .inl htold

/-- Everyone is to be queued. -/
theorem Seated.rebuilding {c : SupervisorConfig} {b : Binding} (h : Seated roster (.new c b))
    (startup : Option (List (ChildKey × Nat))) :
    Rebuilding roster (fun _ _ => False) false [] [] (SupervisorRuntime.new c b).childOrder
      { (SupervisorRuntime.new c b).lane with startup := startup } := by
  obtain ⟨posts, order, hl⟩ := new_lane c b
  have hq : (SupervisorRuntime.new c b).lane.queue = [] := by rw [hl]
  have hmem : ∀ k p, (SupervisorRuntime.new c b).lane.posts k = some p → k ∈ (SupervisorRuntime.new c b).childOrder := by
    intro k p hp
    show k ∈ (SupervisorRuntime.new c b).lane.order
    rw [h.order_eq]
    exact List.mem_map.mpr ⟨_, (h.seated k p hp).1, rfl⟩
  constructor
  case rows =>
    intro k p hp
    obtain ⟨-, hst, hs, -, hd, hx⟩ := (h.seated k p hp).2
    refine ⟨fun hor => ?_, fun hs' => ?_, fun hd' => ?_, fun _ _ => .inr (.inl (hmem k p hp))⟩
    · rcases hor with hact | hne
      · rw [hst] at hact
        cases hact
      · exact absurd hx hne
    · rw [hst] at hs'
      cases hs'
    · rw [hd] at hd'
      cases hd'
  case lineage_eq =>
    intro item hi
    have hi : item ∈ (SupervisorRuntime.new c b).lane.queue := hi
    rw [hq] at hi
    cases hi
  case gate_eq => rw [hl]
  case order_eq => rfl
  case past =>
    intro k hk
    cases hk
  case ahead =>
    intro k hk
    cases hk
  case idle =>
    intro k _ p hp
    obtain ⟨-, hst, hs, -⟩ := (h.seated k p hp).2
    refine ⟨?_, fun _ => hs⟩
    rw [hst]
    rfl
  case queue_eq =>
    show (SupervisorRuntime.new c b).lane.queue.map (·.key) = _
    rw [hq]
    rfl
  case first =>
    intro s hs _
    refine .inr (.inl ?_)
    show s.key ∈ (SupervisorRuntime.new c b).lane.order
    rw [h.order_eq]
    exact List.mem_map.mpr ⟨s, hs, rfl⟩

/-- The startup gate of a scope without children opens at once. -/
theorem completeEmptyStartupGate_rests (h : Rests roster rt.lane) : Rests roster rt.completeEmptyStartupGate.lane := by
  obtain ⟨hk, hs⟩ := h
  rw [lane_completeEmptyStartupGate]
  split
  · rename_i hg
    have htold := hk.told
    unfold Told at htold
    rw [show rt.lane.startup = some [] from hg] at htold
    have htold' : Told roster { rt.lane with startup := none, told := rt.lane.told + 1 } := by
      refine .inr ⟨by rw [htold.1], fun s hmem => ?_⟩
      rcases htold.2 s hmem with hh | hh
      · exact hh
      · cases hh
    refine ⟨⟨hk.kind_eq, hk.commands_eq, hk.keys_nodup, hk.seated, hk.active, hk.willing, hk.order_eq, hk.ready, hk.exited,
      hk.exits, hk.earlier, hk.upheld, htold'⟩, ?_⟩
    have hret := hs.retell [] none (rt.lane.told + 1)
    rwa [tell_nil] at hret
  · exact ⟨hk, hs⟩

theorem startup_ends {c : SupervisorConfig} (b : Binding) (hc : c.kind = .ordered) :
    Act.Ends (SupervisorRuntime.startup b.hasParent) (.new c b) (fun _ rt' => Rests (c.seats b) rt'.lane)
      (fun rt' => Kept (c.seats b) rt'.lane) := by
  have hseat := new_seated c b
  let rt₀ := SupervisorRuntime.new c b
  let rt₁ := rt₀.sendSupervisorEvent .supervisorStarted
  let rt₂ := rt₁.childOrder.foldl (fun rt key => rt.sendLifecycle key .added) rt₁
  have h₁ : rt₁.lane = rt₀.lane := lane_sendSupervisorEvent _
  have h₂ : rt₂.lane = rt₀.lane :=
    (lane_foldl (fun _ _ => lane_sendLifecycle_quiet fun _ _ => rfl) _).trans h₁
  have horder : rt₁.childOrder = rt₀.childOrder := congrArg Lane.order h₁
  -- the children are scheduled once the startup gate is set
  have hgo : ∀ (rt : SupervisorRuntime) (gate : Option (List (ChildKey × Nat))), rt.lane = { rt₀.lane with startup := gate } →
      (∀ pending, gate = some pending → ∀ s ∈ c.seats b, (s.key, s.lineage) ∈ pending) →
      Act.Ends (do
        scheduleStartSequence rt₁.childOrder false
        Act.modify completeEmptyStartupGate : RuntimeM Unit) rt (fun _ rt' => Rests (c.seats b) rt'.lane)
        (fun rt' => Kept (c.seats b) rt'.lane) := by
    intro rt gate hl hgate
    have hk : Kept (c.seats b) rt.lane := hl ▸ hseat.kept hc gate hgate
    have hr : Rebuilding (c.seats b) (fun _ _ => False) false [] [] rt₁.childOrder rt.lane := by
      rw [hl, horder]
      exact hseat.rebuilding gate
    refine Act.ends_bind (scheduleStartSequence_ends hk hr) ?_
    rintro _ rt' ⟨hk', hs', -⟩
    exact Act.ends_ok rfl (completeEmptyStartupGate_rests ⟨hk', hs'⟩)
  have hsplit : SupervisorRuntime.startup b.hasParent rt₀ = (do
      if b.hasParent then
        Act.modify fun rt => { rt with startupGate := some (rt₁.childOrder.filterMap fun key =>
          (rt.children.get key).map fun e => (key, e.lineage)) }
      scheduleStartSequence rt₁.childOrder false
      Act.modify completeEmptyStartupGate : RuntimeM Unit) rt₂ := by
    unfold SupervisorRuntime.startup
    rw [Act.run_modify_bind, Act.run_get_bind, Act.run_bind, Act.run_forEach_modify]
  unfold Act.Ends
  rw [show SupervisorRuntime.startup b.hasParent (.new c b) = _ from hsplit]
  cases b.hasParent with
  | false => exact hgo rt₂ none (h₂.trans (by obtain ⟨posts, order, hl⟩ := new_lane c b; rw [hl])) nofun
  | true =>
    let pending := rt₁.childOrder.filterMap fun key => (rt₂.children.get key).map fun e => (key, e.lineage)
    have hrt : ({ rt₂ with startupGate := some pending } : SupervisorRuntime).lane =
        { rt₀.lane with startup := some pending } := by
      rw [← h₂]
      rfl
    refine Act.ends_modify_bind (hgo _ (some pending) hrt ?_)
    intro _ heq s hs
    cases heq
    obtain ⟨p, hp, hps⟩ := hseat.taken s hs
    rw [show (SupervisorRuntime.new c b).lane = rt₀.lane from rfl, ← h₂] at hp
    obtain ⟨e, he, rfl⟩ := get_of_lane hp
    refine List.mem_filterMap.mpr ⟨s.key, ?_, ?_⟩
    · rw [horder]
      show s.key ∈ (SupervisorRuntime.new c b).lane.order
      rw [hseat.order_eq]
      exact List.mem_map.mpr ⟨s, hs, rfl⟩
    · have hlin : e.lineage = s.lineage := congrArg Seat.lineage hps
      rw [he, Option.map_some, hlin]

theorem start_orderly {c : SupervisorConfig} (b : Binding) (hc : c.kind = .ordered) : (start c b).Orderly (c.seats b) :=
  continueMain_orderly (startup_ends b hc)

/-! ## Runs -/

theorem lane_markClean (task : TaskId) : (rt.markClean task).lane = rt.lane := by
  unfold markClean
  split
  · split
    · exact lane_edit_quiet fun _ _ => rfl
    · rfl
  · rfl

/-- The environment sends no commands to an ordered scope; all else is not in the lane. -/
theorem env_lane (e : EnvStep) (hk : rt.cfg.kind = .ordered) : (rt.env e).lane = rt.lane := by
  cases e with
  | submit command =>
    unfold env accepts
    simp [hk]
  | markReady r =>
    unfold env
    simp only
    split <;> rfl
  | forward spawn snapshot =>
    unfold env forwardSnapshot
    simp only
    split <;> rfl
  | conclude task c =>
    unfold env
    simp only
    split
    · rfl
    · split
      · rfl
      · show (SupervisorRuntime.lane _) = _
        unfold setStatus
        split
        · exact lane_markClean task
        · rfl
  | settle task =>
    unfold env
    simp only
    split <;> rfl
  | _ => rfl

theorem step_orderly {m : Machine} (i : Input) (hinv : m.Inv) (h : m.Orderly roster) : (step m i).Orderly roster := by
  obtain ⟨rt, phase⟩ := m
  obtain ⟨hb, hp⟩ := hinv
  obtain ⟨hk, ho⟩ := h
  cases i with
  | env e =>
    have hl : (rt.env e).lane = rt.lane := env_lane e hk.kind_eq
    refine ⟨?_, ?_⟩
    · show Kept roster (rt.env e).lane
      rw [hl]
      exact hk
    · show phase.Orderly roster (rt.env e).lane
      rw [hl]
      exact ho
  | wake w =>
    cases phase with
    | main => exact wakeMain_orderly w hb hp.1 ⟨hk, ho⟩
    | deadlineYield =>
      unfold step wake
      simp only
      split
      · exact deadlineBatch_orderly hb hp.1 hp.2 ⟨hk, ho⟩
      · exact ⟨hk, ho⟩
    | drain p k =>
      cases k with
      | restart keys freshGroupToken =>
        obtain ⟨hscope, pre, hheld, hfresh⟩ := ho
        exact restartDrain_orderly w hb hp hk hscope hheld hfresh
      | shutdown after => exact wakeDrain_kept w hb hk
    | exited result => exact ⟨hk, ho⟩

theorem run_orderly {c : SupervisorConfig} (b : Binding) (hc : c.kind = .ordered) (inputs : List Input) :
    (run (start c b) inputs).Orderly (c.seats b) := by
  induction inputs using List.reverseRecOn with
  | nil => exact start_orderly b hc
  | append_singleton is i ih =>
    rw [run_append]
    exact step_orderly i (run_inv c b is) ih

/-! ## The start sequence of the runtime -/

/-- The queue and its gate. -/
structure SupervisorRuntime.Sequenced (c : SupervisorConfig) (b : Binding) (rt : SupervisorRuntime) : Prop where
  /-- A queued child is active and in the queue once, under its lineage. -/
  queued : ∀ key e, rt.children.get key = some e → e.runtime.state = .startQueued →
    e.membership = .active ∧ (rt.startQueue.map fun item => (item.key, item.lineage)).count (key, e.lineage) = 1
  /-- Nothing else is in the queue. -/
  only : ∀ item ∈ rt.startQueue, ∃ e, rt.children.get item.key = some e ∧ e.runtime.state = .startQueued ∧
    e.lineage = item.lineage
  /-- The queue follows the declarations. -/
  declared : (rt.startQueue.filterMap fun item => (rt.children.get item.key).map fun e => (e.id, e.lineage)).Sublist (c.static b)
  /-- While a child is queued, the gate's child is on its way. -/
  released : rt.startQueue ≠ [] → ∃ gate e, rt.startGate = some gate ∧ rt.children.get gate.key = some e ∧
    e.lineage = gate.lineage ∧ e.runtime.generation = gate.generation ∧
    (e.runtime.state = .starting ∨ e.runtime.state = .stopping ∨
      e.runtime.state = .stopped ∧ e.runtime.nextRestartDeadline.isSome = true)

/-- The child declared as `d` with this lineage became ready or exited for good. -/
def SupervisorRuntime.HasSettled (rt : SupervisorRuntime) (d : ChildDefinition) (lineage : Nat) : Prop :=
  ∃ ev ∈ rt.log, ev.childId = d.id ∧ ev.lineage = lineage ∧
    ((∃ generation, ev.kind = .started generation) ∨
      ∃ generation exit, ev.kind = .exited generation exit ∧ d.restart.shouldRestart exit.kind.isFailure = false)

/-- It was ready, or it has left or lies stopped with no restart pending: an exit after
    which its group starts it again does not count. -/
def SupervisorRuntime.StillSettled (rt : SupervisorRuntime) (d : ChildDefinition) (lineage : Nat) : Prop :=
  (∃ ev ∈ rt.log, ev.childId = d.id ∧ ev.lineage = lineage ∧ ∃ generation, ev.kind = .started generation) ∨
    ∀ key e, rt.children.get key = some e → e.lineage = lineage →
      e.runtime.state = .stopped ∧ e.runtime.nextRestartDeadline = none

/-- Whoever has been spawned comes after settled children, and as long as its first
    generation is up they are settled still. -/
def SupervisorRuntime.StartedInOrder (c : SupervisorConfig) (b : Binding) (rt : SupervisorRuntime) : Prop :=
  ∀ i j d key e, i < j → c.children[i]? = some d → d.readiness.isGated = true → rt.children.get key = some e →
    e.lineage = b.firstLineage + j → e.runtime.hasStarted = true → rt.HasSettled d (b.firstLineage + i) ∧
      (e.runtime.generation = 0 → e.runtime.state = .starting ∨ e.runtime.state = .running →
        rt.StillSettled d (b.firstLineage + i))

/-- The parent is told once at most, after every initial child became ready or left. -/
def SupervisorRuntime.TellsParent (c : SupervisorConfig) (b : Binding) (rt : SupervisorRuntime) : Prop :=
  rt.notices.countP Notice.tellsParent ≤ 1 ∧ (.parentReady ∈ rt.notices → ∀ child ∈ c.static b,
    ∃ ev ∈ rt.log, ev.childId = child.1 ∧ ev.lineage = child.2 ∧ ((∃ generation, ev.kind = .started generation) ∨ ev.kind = .removed))

theorem event_of_started {id : String} {lineage : Nat} (h : News.started id lineage ∈ rt.lane.news) :
    ∃ ev ∈ rt.log, ev.childId = id ∧ ev.lineage = lineage ∧ ∃ generation, ev.kind = .started generation := by
  obtain ⟨ev, hev, hn⟩ := List.mem_flatMap.mp h
  unfold ChildEvent.news at hn
  cases hk : ev.kind with
  | started generation =>
    rw [hk] at hn
    cases List.mem_singleton.mp hn
    exact ⟨ev, hev, rfl, rfl, generation, hk⟩
  | _ =>
    rw [hk] at hn
    simp [ChildEventKind.news] at hn

theorem event_of_exited {id : String} {lineage : Nat} {kind : ExitKind} (h : News.exited id lineage kind ∈ rt.lane.news) :
    ∃ ev ∈ rt.log, ev.childId = id ∧ ev.lineage = lineage ∧
      ∃ generation exit, ev.kind = .exited generation exit ∧ exit.kind = kind := by
  obtain ⟨ev, hev, hn⟩ := List.mem_flatMap.mp h
  unfold ChildEvent.news at hn
  cases hk : ev.kind with
  | exited generation exit =>
    rw [hk] at hn
    cases List.mem_singleton.mp hn
    exact ⟨ev, hev, rfl, rfl, generation, exit, hk, rfl⟩
  | _ =>
    rw [hk] at hn
    simp [ChildEventKind.news] at hn

theorem event_of_removed {id : String} {lineage : Nat} (h : News.removed id lineage ∈ rt.lane.news) :
    ∃ ev ∈ rt.log, ev.childId = id ∧ ev.lineage = lineage ∧ ev.kind = .removed := by
  obtain ⟨ev, hev, hn⟩ := List.mem_flatMap.mp h
  unfold ChildEvent.news at hn
  cases hk : ev.kind with
  | removed =>
    rw [hk] at hn
    cases List.mem_singleton.mp hn
    exact ⟨ev, hev, rfl, rfl, hk⟩
  | _ =>
    rw [hk] at hn
    simp [ChildEventKind.news] at hn

theorem Lane.Passed.hasSettled {s : Seat} (h : rt.lane.Passed s) (hid : s.definition.id = s.id) :
    rt.HasSettled s.definition s.lineage := by
  rcases h with h | ⟨x, h, hx⟩
  · obtain ⟨ev, hev, h1, h2, h3⟩ := event_of_started h
    exact ⟨ev, hev, h1.trans hid.symm, h2, .inl h3⟩
  · obtain ⟨ev, hev, h1, h2, generation, exit, h3, rfl⟩ := event_of_exited h
    exact ⟨ev, hev, h1.trans hid.symm, h2, .inr ⟨generation, exit, h3, hx⟩⟩

/-- The seat of the `i`th declaration. -/
theorem seats_get (c : SupervisorConfig) (b : Binding) (i : Nat) :
    (c.seats b)[i]?.map (fun s => (s.id, s.lineage, s.definition)) =
      c.children[i]?.map fun d => (d.id, b.firstLineage + i, d) := by
  rw [← List.getElem?_map, seats_declared, List.getElem?_map, List.getElem?_zipIdx]
  cases c.children[i]? <;> rfl

theorem seats_static (c : SupervisorConfig) (b : Binding) :
    (c.seats b).map (fun s => (s.id, s.lineage)) = c.static b := by
  have h := congrArg (List.map fun x : String × Nat × ChildDefinition => (x.1, x.2.1)) (seats_declared c b)
  rw [List.map_map, List.map_map] at h
  exact h

/-- A child sits where its lineage says. -/
theorem Lane.Kept.seat_at {c : SupervisorConfig} {b : Binding} (h : Kept (c.seats b) rt.lane) {key : ChildKey} {e : ChildEntry}
    {j : Nat} (he : rt.children.get key = some e) (hl : e.lineage = b.firstLineage + j) :
    (c.seats b)[j]? = some (e.post.seat key) := by
  obtain ⟨n, hn⟩ := List.mem_iff_getElem?.mp (h.seated key e.post (lane_get he))
  have hget := seats_get c b n
  rw [hn] at hget
  obtain ⟨d', -, heq⟩ := Option.map_eq_some_iff.mp hget.symm
  have hlin : b.firstLineage + n = e.lineage := congrArg (fun x => x.2.1) heq
  have hnj : n = j := by omega
  rwa [hnj] at hn

theorem Lane.Settled.stillSettled {c : SupervisorConfig} {b : Binding} {s : Seat} {i : Nat} (h : rt.lane.Settled s)
    (hk : Kept (c.seats b) rt.lane) (hs : (c.seats b)[i]? = some s) (hid : s.definition.id = s.id)
    (hlin : s.lineage = b.firstLineage + i) : rt.StillSettled s.definition (b.firstLineage + i) := by
  rcases h with h | ⟨-, hdone⟩
  · obtain ⟨ev, hev, h1, h2, h3⟩ := event_of_started h
    exact .inl ⟨ev, hev, h1.trans hid.symm, h2.trans hlin, h3⟩
  · refine .inr fun key e he hl => ?_
    have hkey : s = e.post.seat key := Option.some.inj (hs.symm.trans (hk.seat_at he hl))
    have hd := hdone e.post (by rw [hkey]; exact lane_get he)
    exact ⟨hd.1, Option.not_isSome_iff_eq_none.mp (Bool.eq_false_iff.mp hd.2.1)⟩

theorem Lane.Kept.startedInOrder {c : SupervisorConfig} {b : Binding} (h : Kept (c.seats b) rt.lane) :
    rt.StartedInOrder c b := by
  intro i j d key e hij hd hg he hl hst
  have hp := lane_get he
  have hn := h.seat_at he hl
  have hi := seats_get c b i
  rw [hd, Option.map_some] at hi
  obtain ⟨s, hs, heq⟩ := Option.map_eq_some_iff.mp hi
  have hdef : s.definition = d := congrArg (fun x => x.2.2) heq
  have hid : s.id = d.id := congrArg (fun x => x.1) heq
  have hlin : s.lineage = b.firstLineage + i := congrArg (fun x => x.2.1) heq
  have hgated : s.isGated = true := by rw [Seat.isGated, hdef]; exact hg
  obtain ⟨before, after, hsplit, hlen⟩ : ∃ before after, c.seats b = before ++ e.post.seat key :: after ∧ before.length = j := by
    have hlt := (List.getElem?_eq_some_iff.mp hn).1
    refine ⟨(c.seats b).take j, (c.seats b).drop (j + 1), ?_, ?_⟩
    · rw [← (List.getElem?_eq_some_iff.mp hn).2, ← List.drop_eq_getElem_cons hlt, List.take_append_drop]
    · rw [List.length_take]
      omega
  have hmem : s ∈ before := by
    refine List.mem_iff_getElem?.mpr ⟨i, ?_⟩
    rw [hsplit, List.getElem?_append_left (by omega)] at hs
    exact hs
  constructor
  · have hpassed := h.earlier before (e.post.seat key) after e.post hsplit hp hst s hmem hgated
    have := hpassed.hasSettled (by rw [hdef, hid])
    rwa [hdef, hlin] at this
  · intro hgen hup
    have hsettled := h.upheld before (e.post.seat key) after e.post hsplit hp ⟨hgen, hup⟩ s hmem hgated
    have := hsettled.stillSettled h hs (by rw [hdef, hid]) hlin
    rwa [hdef] at this

theorem Lane.Kept.tellsParent {c : SupervisorConfig} {b : Binding} (h : Kept (c.seats b) rt.lane) : rt.TellsParent c b := by
  have htold := h.told
  have hone : rt.notices.countP Notice.tellsParent ≤ 1 ∧
      (0 < rt.notices.countP Notice.tellsParent → ∀ s ∈ c.seats b, rt.lane.Heard s) := by
    show rt.lane.told ≤ 1 ∧ (0 < rt.lane.told → _)
    unfold Told at htold
    split at htold
    · rw [htold.1]
      exact ⟨by omega, by omega⟩
    · rcases htold with h0 | ⟨h1, hall⟩
      · rw [h0]
        exact ⟨by omega, by omega⟩
      · rw [h1]
        exact ⟨by omega, fun _ => hall⟩
  refine ⟨hone.1, fun hm child hchild => ?_⟩
  have hpos : 0 < rt.notices.countP Notice.tellsParent := List.countP_pos_iff.mpr ⟨_, hm, rfl⟩
  rw [← seats_static] at hchild
  obtain ⟨s, hs, rfl⟩ := List.mem_map.mp hchild
  rcases hone.2 hpos s hs with hh | hh
  · obtain ⟨ev, hev, h1, h2, h3⟩ := event_of_started hh
    exact ⟨ev, hev, h1, h2, .inl h3⟩
  · obtain ⟨ev, hev, h1, h2, h3⟩ := event_of_removed hh
    exact ⟨ev, hev, h1, h2, .inr h3⟩

theorem filterMap_sublist_map {α β : Type} {f : α → Option β} {g : α → β} : ∀ as : List α,
    (∀ a ∈ as, ∀ x, f a = some x → x = g a) → (as.filterMap f).Sublist (as.map g)
  | [], _ => List.Sublist.slnil
  | a :: as, h => by
    have ih := filterMap_sublist_map as fun a' ha => h a' (List.mem_cons_of_mem _ ha)
    rw [List.filterMap_cons, List.map_cons]
    split
    · exact ih.cons _
    · rename_i x hx
      rw [h a (List.mem_cons_self ..) x hx]
      exact ih.cons_cons _

theorem Rests.sequenced {c : SupervisorConfig} {b : Binding} (h : Rests (c.seats b) rt.lane) : rt.Sequenced c b := by
  obtain ⟨hk, hs⟩ := h
  have hnodup : (rt.startQueue.map (·.key)).Nodup := by
    show (rt.lane.queue.map (·.key)).Nodup
    rw [hs.queue_eq]
    exact hk.order_nodup.filter _
  have hqueued : ∀ item ∈ rt.startQueue, ∃ e, rt.children.get item.key = some e ∧ e.runtime.state = .startQueued := by
    intro item hi
    have hm : item.key ∈ rt.lane.queue.map (·.key) := List.mem_map.mpr ⟨item, hi, rfl⟩
    rw [hs.queue_eq] at hm
    obtain ⟨p, hp, hst⟩ := (Option.any_eq_true _ _).mp (List.mem_filter.mp hm).2
    obtain ⟨e, he, rfl⟩ := get_of_lane hp
    exact ⟨e, he, of_decide_eq_true hst⟩
  have honly : ∀ item ∈ rt.startQueue, ∃ e, rt.children.get item.key = some e ∧ e.runtime.state = .startQueued ∧
      e.lineage = item.lineage := by
    intro item hi
    obtain ⟨e, he, hst⟩ := hqueued item hi
    exact ⟨e, he, hst, hs.lineage_eq item hi e.post (lane_get he)⟩
  constructor
  case queued =>
    intro key e he hst
    refine ⟨hk.active key e.post (lane_get he), ?_⟩
    have hm : key ∈ rt.lane.queue.map (·.key) := by
      rw [hs.queue_eq]
      refine List.mem_filter.mpr ⟨hk.mem_order.mpr (by rw [lane_get he]; rfl), ?_⟩
      simp [isQueued, lane_get he, ChildEntry.post, hst]
    obtain ⟨item, hi, rfl⟩ := List.mem_map.mp hm
    obtain ⟨e', he', -, hl⟩ := honly item hi
    rw [he] at he'
    cases he'
    refine List.count_eq_one_of_mem ?_ (List.mem_map.mpr ⟨item, hi, by rw [hl]⟩)
    refine List.Nodup.of_map (Prod.fst) ?_
    rwa [List.map_map]
  case only => exact honly
  case declared =>
    -- the queue is a sublist of the seats
    have hsub : (rt.lane.queue.map (·.key)).Sublist ((c.seats b).map (·.key)) := by
      rw [hs.queue_eq]
      refine List.filter_sublist.trans ?_
      rw [hk.order_eq]
      exact List.filter_sublist
    have hmap := hsub.filterMap fun k => (rt.children.get k).map fun e => (e.id, e.lineage)
    rw [List.filterMap_map] at hmap
    refine hmap.trans ?_
    rw [List.filterMap_map, ← seats_static]
    refine filterMap_sublist_map _ fun s hmem x hx => ?_
    obtain ⟨e, he, rfl⟩ := Option.map_eq_some_iff.mp hx
    rw [hk.seat_unique hmem (lane_get he)]
    rfl
  case released =>
    intro hne
    cases hg : rt.startGate with
    | none => exact absurd (hs.opened hg) hne
    | some g =>
      obtain ⟨p, before, after, hG⟩ := hs.gate g hg
      obtain ⟨e, he, rfl⟩ := get_of_lane hG.get_eq
      exact ⟨g, e, rfl, he, hG.lineage_eq, hG.generation_eq, hG.onTheWay⟩

/-- An ordered scope starts its children in order: where it awaits its next wake the
    queue is the queued children in their order, and while it is not empty a child on its
    way holds the gate; nobody is spawned before the gated children declared earlier have
    settled, and these stay settled while its first generation is up; the parent is told
    once at most, when every child has been heard of. -/
theorem ordered_start_sequence (c : SupervisorConfig) (b : Binding) (hc : c.kind = .ordered) (inputs : List Input) :
    let m := run (start c b) inputs
    (m.phase = .main ∨ m.phase = .deadlineYield → m.rt.Sequenced c b) ∧ m.rt.StartedInOrder c b ∧ m.rt.TellsParent c b := by
  obtain ⟨hk, hp⟩ := run_orderly b hc inputs
  refine ⟨?_, hk.startedInOrder, hk.tellsParent⟩
  rintro (hm | hm)
  · rw [hm] at hp
    exact Rests.sequenced ⟨hk, hp⟩
  · rw [hm] at hp
    exact Rests.sequenced ⟨hk, hp⟩

/-- A gated child and, after it, one that is ready at once. -/
def gatedFirst : SupervisorConfig where
  host := pair.host
  strategy := .restForOne
  kind := .ordered
  defaultChildRestart := .default
  defaultChildShutdown := .default
  children := [{ id := "a", readiness := .manual (secs 5) }, { id := "b" }]
  ids_nodup := by decide
  ids_nonempty := by decide

/-- `a` fails before it is ready, and `b` waits for its restart. -/
theorem ordered_start_sequence_waits :
    let m := run (start gatedFirst nestedBinding)
      [.env (.conclude 1 .panicked), .env (.settle 1), .wake (.joined 1)]
    m.rt.startQueue = [⟨2, 1, false⟩] ∧ m.rt.Sequenced gatedFirst nestedBinding ∧
      m.rt.StartedInOrder gatedFirst nestedBinding ∧ m.rt.TellsParent gatedFirst nestedBinding := by
  have h := ordered_start_sequence gatedFirst nestedBinding rfl
    [.env (.conclude 1 .panicked), .env (.settle 1), .wake (.joined 1)]
  exact ⟨by decide +kernel, h.1 (.inl rfl), h.2⟩

end Kokage.Supervisor
