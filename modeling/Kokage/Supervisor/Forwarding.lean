/-
  Kokage.Supervisor.Forwarding — how a nested supervisor's snapshots reach the entry of its
  parent (`snapshot.rs`: `NestedSnapshotState`, `SnapshotCell::forward`; `supervision.rs`:
  `handle_nested_snapshot`), one atomic step at a time.

  A forward replaces the value of its cell, raises the flag and, if the flag was down, sends
  a notification; these are three steps on the nested supervisor's thread. The parent takes
  a notification, checks that it is of the current spawn, lowers the flag and reads the
  value; these are steps on the parent's. Between them the two run in any order, and the
  forwards of spawns that are long gone run on. The parent otherwise adds, spawns, records
  exits and removes, in any order and any number, with the operations of
  `Kokage.Supervisor.Runtime`; a child is removed only when it is not active, as all callers
  of `finalize_removed_child` see to.

  The flag of the current spawn is up exactly while a notification of it is under way, and
  the entry differs from the cell only while something is under way that will set it right
  (`Inv`). So with nothing under way the entry holds what was forwarded last
  (`forwarding_complete`).
-/

import Mathlib.Logic.Function.Iterate
import Mathlib.Logic.Relation
import Kokage.Supervisor.Readiness

namespace Kokage.Supervisor

open Kokage.Lib

inductive ForwardPhase where
  /-- Before `replace_if_changed` -/
  | replacing
  /-- The value was replaced: before `try_queue` -/
  | queuing
  /-- The flag went up: before `send` -/
  | sending
  /-- The receiver was gone: before `mark_dequeued` -/
  | reverting
  deriving DecidableEq

structure ForwardCall where
  snapshot : SupervisorSnapshot
  phase : ForwardPhase

inductive Handling where
  /-- The notification was received. -/
  | checking (n : NestedSnapshotNotification)
  /-- It is of the current spawn: before `mark_dequeued` -/
  | dequeuing (key : ChildKey) (cell : TaskMeta)
  /-- Before `latest` -/
  | reading (key : ChildKey) (cell : TaskMeta)

/-- A parent with the calls in progress. A cell has the name of the spawn it was made for;
    the nested supervisor of a spawn makes one call at a time. -/
structure Forwarding where
  rt : SupervisorRuntime
  /-- The parent's receiver exists. -/
  receiving : Bool
  handling : Option Handling
  calls : TaskMeta → Option ForwardCall
  /-- The spawns of nested supervisors, each with a link to its cell. -/
  links : List TaskMeta
  /-- History: what each spawn has forwarded. -/
  forwarded : TaskMeta → List SupervisorSnapshot

namespace Forwarding

def setCell (s : Forwarding) (t : TaskMeta) (cell : NestedSnapshotState) : Forwarding :=
  { s with rt := { s.rt with snapshotCells := Function.update s.rt.snapshotCells t cell } }

def setCall (s : Forwarding) (t : TaskMeta) (c : Option ForwardCall) : Forwarding :=
  { s with calls := Function.update s.calls t c }

/-- `forward` is called. -/
def begin (s : Forwarding) (t : TaskMeta) (snapshot : SupervisorSnapshot) : Forwarding :=
  { s.setCall t (some ⟨snapshot, .replacing⟩) with
    forwarded := Function.update s.forwarded t (s.forwarded t ++ [snapshot]) }

/-- The next step of the call of a spawn. -/
def advance (s : Forwarding) (t : TaskMeta) : Forwarding :=
  let cell := s.rt.snapshotCells t
  match s.calls t with
  | none => s
  | some ⟨snapshot, .replacing⟩ =>
    if cell.latest = some snapshot then s.setCall t none
    else (s.setCell t { cell with latest := some snapshot }).setCall t (some ⟨snapshot, .queuing⟩)
  | some ⟨snapshot, .queuing⟩ =>
    if cell.queued then s.setCall t none
    else (s.setCell t { cell with queued := true }).setCall t (some ⟨snapshot, .sending⟩)
  | some ⟨snapshot, .sending⟩ =>
    if s.receiving then { s with rt := { s.rt with nestedRx := s.rt.nestedRx ++ [t] } }.setCall t none
    else s.setCall t (some ⟨snapshot, .reverting⟩)
  | some ⟨_, .reverting⟩ => (s.setCell t { cell with queued := false }).setCall t none

def handled (s : Forwarding) : Forwarding := { s with handling := none }

/-- The next step of the parent's `handle_nested_snapshot`, from the receive on. -/
def handle (s : Forwarding) : Forwarding :=
  match s.handling with
  | none =>
    match s.rt.nestedRx with
    | [] => s
    | n :: rest => { s with rt := { s.rt with nestedRx := rest }, handling := some (.checking n) }
  | some (.checking n) =>
    match s.rt.children.get n.key with
    | none => s.handled
    | some entry =>
      if entry.lineage ≠ n.lineage || entry.runtime.generation ≠ n.generation then s.handled
      else match entry.nestedSnapshotState with
        | none => s.handled
        | some cell => { s with handling := some (.dequeuing n.key cell) }
  | some (.dequeuing key cell) =>
    { s.setCell cell { s.rt.snapshotCells cell with queued := false } with handling := some (.reading key cell) }
  | some (.reading key cell) =>
    let latest := (s.rt.snapshotCells cell).latest
    { s.handled with rt := (s.rt.edit key fun e => { e with nestedSnapshot := latest }).publishSnapshot }

/-- The parent's runtime is dropped, with its receiver and its entries. -/
def drop (s : Forwarding) : Forwarding :=
  { s with rt := { s.rt with children := .empty, nestedRx := [] }, receiving := false }

end Forwarding

/-! ## Alone, the steps are the operations -/

namespace Forwarding

variable {s : Forwarding} {t : TaskMeta}

/-- A forward that nothing interrupts. -/
theorem forward_whole (hr : s.receiving = true) (snapshot : SupervisorSnapshot) :
    ((((s.begin t snapshot).advance t).advance t).advance t).rt = s.rt.forwardSnapshot t snapshot := by
  unfold SupervisorRuntime.forwardSnapshot
  by_cases hsame : (s.rt.snapshotCells t).latest = some snapshot
  · simp [begin, advance, setCall, hsame]
  · cases hq : (s.rt.snapshotCells t).queued with
    | true => simp [begin, advance, setCall, setCell, hsame, hq]
    | false => simp [begin, advance, setCall, setCell, hsame, hq, hr]

/-- The handling of a notification that nothing interrupts. -/
theorem handle_whole {n : NestedSnapshotNotification} {rest : List NestedSnapshotNotification} (hh : s.handling = none)
    (hn : s.rt.nestedRx = n :: rest) : ∃ i, (handle^[i] s).handling = none ∧
      (handle^[i] s).rt = ({ s.rt with nestedRx := rest } : SupervisorRuntime).handleNestedSnapshot n := by
  have htake : s.handle = { s with rt := { s.rt with nestedRx := rest }, handling := some (.checking n) } := by
    unfold handle
    rw [hh, hn]
  unfold SupervisorRuntime.handleNestedSnapshot
  cases he : s.rt.children.get n.key with
  | none =>
    refine ⟨2, ?_⟩
    show s.handle.handle.handling = none ∧ s.handle.handle.rt = _
    rw [htake]
    simp [handle, handled, he]
  | some e =>
    simp only
    split
    · rename_i hstale
      refine ⟨2, ?_⟩
      show s.handle.handle.handling = none ∧ s.handle.handle.rt = _
      rw [htake]
      simp only [handle, handled, he]
      rw [if_pos hstale]
      exact ⟨rfl, rfl⟩
    · rename_i hcurrent
      cases hcell : e.nestedSnapshotState with
      | none =>
        refine ⟨2, ?_⟩
        show s.handle.handle.handling = none ∧ s.handle.handle.rt = _
        rw [htake]
        simp only [handle, handled, he]
        rw [if_neg hcurrent, hcell]
        exact ⟨rfl, rfl⟩
      | some cell =>
        refine ⟨4, ?_⟩
        show s.handle.handle.handle.handle.handling = none ∧ s.handle.handle.handle.handle.rt = _
        have hpass : s.handle.handle = { s with
            rt := { s.rt with nestedRx := rest }, handling := some (.dequeuing n.key cell) } := by
          rw [htake]
          simp only [handle, he]
          rw [if_neg hcurrent, hcell]
        rw [hpass]
        simp [handle, handled, setCell]

end Forwarding

/-! ## What the parent does meanwhile -/

/-- What of an entry the forwarding has to do with. -/
structure Nested where
  lineage : Nat
  generation : Nat
  hasStarted : Bool
  active : Bool
  isSupervisor : Bool
  snapshot : Option SupervisorSnapshot
  cell : Option TaskMeta

def ChildEntry.nested (e : ChildEntry) : Nested where
  lineage := e.lineage
  generation := e.runtime.generation
  hasStarted := e.runtime.hasStarted
  active := e.runtime.state.isActive
  isSupervisor := e.runtime.definition.kind.isSupervisor
  snapshot := e.nestedSnapshot
  cell := e.nestedSnapshotState

/-- A spawned entry: the next generation, with an empty cell of its own. -/
def Nested.spawned (key : ChildKey) (n : Nested) : Nested :=
  let generation := if n.hasStarted then n.generation + 1 else n.generation
  { n with
    generation := generation
    hasStarted := true
    active := true
    snapshot := none
    cell := if n.isSupervisor then some ⟨key, n.lineage, generation⟩ else none }

def Nested.exited (n : Nested) : Nested := { n with active := false, snapshot := none, cell := none }

namespace SupervisorRuntime

def nested (rt : SupervisorRuntime) (key : ChildKey) : Option Nested := (rt.children.get key).map ChildEntry.nested

/-- The link a spawn hands to the nested supervisor. -/
def link (rt : SupervisorRuntime) (key : ChildKey) : List TaskMeta := ((rt.nested key).bind Nested.cell).toList

/-- Nothing changes for the forwarding. -/
structure Aside (rt rt' : SupervisorRuntime) : Prop where
  nested_eq : ∀ k, rt'.nested k = rt.nested k
  cells_eq : rt'.snapshotCells = rt.snapshotCells
  rx_eq : rt'.nestedRx = rt.nestedRx
  lineage_eq : rt'.nextLineage = rt.nextLineage

/-- The operations of the parent, with the links they hand out. -/
inductive Parents : SupervisorRuntime → List TaskMeta → SupervisorRuntime → Prop
  | aside {rt rt' : SupervisorRuntime} : Aside rt rt' → Parents rt [] rt'
  | add (rt : SupervisorRuntime) (d : ChildDefinition) (channels : Option StableChannels) : Parents rt [] (rt.insertEntry d channels)
  | spawn {rt rt' : SupervisorRuntime} (key : ChildKey) {generations : Option Nat × Nat} :
      spawnChild key rt = (.ok generations, rt') → Parents rt (rt'.link key) rt'
  | exit (rt : SupervisorRuntime) (key : ChildKey) (generation : Nat) (status : RuntimeExitStatus) :
      Parents rt [] (rt.recordExit key generation status)
  | remove {rt : SupervisorRuntime} (key : ChildKey) (checkElapsedGrace : Bool) :
      (∀ e, rt.children.get key = some e → e.runtime.state.isActive = false) →
      Parents rt [] (rt.finalizeRemovedChild key checkElapsedGrace)

end SupervisorRuntime

namespace Forwarding

inductive Step : Forwarding → Forwarding → Prop
  | begin {s : Forwarding} {t : TaskMeta} (snapshot : SupervisorSnapshot) : t ∈ s.links → s.calls t = none →
      Step s (s.begin t snapshot)
  | advance (s : Forwarding) (t : TaskMeta) : Step s (s.advance t)
  | handle (s : Forwarding) : Step s s.handle
  | parent {s : Forwarding} {links : List TaskMeta} {rt' : SupervisorRuntime} : s.handling = none → s.receiving = true →
      s.rt.Parents links rt' → Step s { s with rt := rt', links := s.links ++ links }
  | drop {s : Forwarding} : s.handling = none → Step s s.drop

/-- A parent that has just been built and has no children yet. -/
def initial (cfg : RuntimeMeta) (b : Binding) : Forwarding :=
  ⟨.blank cfg b, true, none, fun _ => none, [], fun _ => []⟩

inductive Reach (cfg : RuntimeMeta) (b : Binding) : Forwarding → Prop
  | init : Reach cfg b (initial cfg b)
  | step {s s' : Forwarding} : Reach cfg b s → Step s s' → Reach cfg b s'

end Forwarding

/-! ## The operations, seen from the forwarding -/

namespace SupervisorRuntime

variable {rt rt' rt'' : SupervisorRuntime} {key : ChildKey}

theorem Aside.rfl : Aside rt rt := ⟨fun _ => Eq.refl _, Eq.refl _, Eq.refl _, Eq.refl _⟩

theorem Aside.trans (h : Aside rt rt') (h' : Aside rt' rt'') : Aside rt rt'' :=
  ⟨fun k => (h'.nested_eq k).trans (h.nested_eq k), h'.cells_eq.trans h.cells_eq, h'.rx_eq.trans h.rx_eq,
    h'.lineage_eq.trans h.lineage_eq⟩

theorem aside_publish : Aside rt rt.publishSnapshot := ⟨fun _ => rfl, rfl, rfl, rfl⟩

theorem aside_notify (n : Notice) : Aside rt (rt.notify n) := ⟨fun _ => rfl, rfl, rfl, rfl⟩

theorem aside_sendLifecycleDraft (d : LifecycleEventDraft) : Aside rt (rt.sendLifecycleDraft d) := by
  unfold sendLifecycleDraft
  simp only
  split
  · exact ⟨fun _ => rfl, rfl, rfl, rfl⟩
  · exact ⟨fun _ => rfl, rfl, rfl, rfl⟩

theorem aside_sendLifecycle (kind : ChildEventKind) : Aside rt (rt.sendLifecycle key kind) := by
  unfold sendLifecycle
  split
  · exact aside_sendLifecycleDraft _
  · exact .rfl

theorem aside_retireNested (e : ChildEntry) : Aside rt (rt.retireNested e) := by
  unfold retireNested
  split
  · exact aside_notify _
  · exact .rfl

/-- What one operation does to one entry; the rest stays. -/
structure Touches (rt : SupervisorRuntime) (key : ChildKey) (n : Option Nested) (rt' : SupervisorRuntime) : Prop where
  nested_eq : ∀ k, rt'.nested k = Function.update rt.nested key n k
  rx_eq : rt'.nestedRx = rt.nestedRx

theorem Touches.aside {n : Option Nested} (h : Touches rt key n rt') (h' : Aside rt' rt'') : Touches rt key n rt'' :=
  ⟨fun k => (h'.nested_eq k).trans (h.nested_eq k), h'.rx_eq.trans h.rx_eq⟩

theorem nested_edit (f : ChildEntry → ChildEntry) (k : ChildKey) :
    (rt.edit key f).nested k = Function.update rt.nested key ((rt.children.get key).map fun e => (f e).nested) k := by
  by_cases hk : k = key
  · subst hk
    simp only [nested, edit, Slab.get_modify_self, Function.update_self, Option.map_map]
    rfl
  · rw [Function.update_of_ne hk]
    simp [nested, edit, Slab.get_modify_ne _ _ hk]

theorem recordExit_touches (generation : Nat) (status : RuntimeExitStatus) :
    Touches rt key ((rt.nested key).map Nested.exited) (rt.recordExit key generation status) ∧
    (rt.recordExit key generation status).snapshotCells = rt.snapshotCells ∧
    (rt.recordExit key generation status).nextLineage = rt.nextLineage := by
  have hsent : Aside (rt.edit key (recordExitEntry rt.now status)) (rt.recordExit key generation status) :=
    (aside_sendLifecycle _).trans aside_publish
  have hedit : Touches rt key ((rt.nested key).map Nested.exited) (rt.edit key (recordExitEntry rt.now status)) := by
    refine ⟨fun k => ?_, rfl⟩
    rw [nested_edit]
    congr 1
    unfold nested
    cases rt.children.get key with
    | none => rfl
    | some e => rfl
  exact ⟨hedit.aside hsent, hsent.cells_eq, hsent.lineage_eq⟩

theorem finalizeRemovedChild_touches (checkElapsedGrace : Bool) (hcell : ∀ n, rt.nested key = some n → n.cell = none) :
    Touches rt key none (rt.finalizeRemovedChild key checkElapsedGrace) ∧
    (rt.finalizeRemovedChild key checkElapsedGrace).snapshotCells = rt.snapshotCells ∧
    (rt.finalizeRemovedChild key checkElapsedGrace).nextLineage = rt.nextLineage := by
  unfold finalizeRemovedChild
  cases he : rt.children.get key with
  | none =>
    refine ⟨⟨fun k => ?_, rfl⟩, rfl, rfl⟩
    by_cases hk : k = key
    · subst hk
      simp [nested, he]
    · rw [Function.update_of_ne hk]
  | some e =>
    have hnone : e.nestedSnapshotState = none := hcell e.nested (by simp [nested, he])
    have hclear : (rt.dropEntry key e).clearCell e = rt.dropEntry key e := by
      unfold clearCell
      rw [hnone]
    have hdrop : Touches rt key none (rt.dropEntry key e) := by
      refine ⟨fun k => ?_, rfl⟩
      by_cases hk : k = key
      · subst hk
        simp [nested, dropEntry]
      · rw [Function.update_of_ne hk]
        simp [nested, dropEntry, Slab.get_remove_ne _ hk]
    have hd : rt.lifecycleDraft key .removed = some ⟨e.id, e.lineage, rt.totalRestarts,
        e.runtime.restartTracker.totalRestarts, .removed⟩ := by
      simp [lifecycleDraft, he]
    simp only [hclear, hd]
    have hsent : Aside (rt.dropEntry key e) (((rt.dropEntry key e).retireNested e).sendLifecycleDraft ⟨e.id, e.lineage,
        rt.totalRestarts, e.runtime.restartTracker.totalRestarts, .removed⟩).sendChildEvent :=
      (aside_retireNested e).trans ((aside_sendLifecycleDraft _).trans aside_publish)
    cases e.pendingRemoval with
    | none => exact ⟨hdrop.aside hsent, hsent.cells_eq, hsent.lineage_eq⟩
    | some p => exact ⟨(hdrop.aside hsent).aside (aside_notify _), hsent.cells_eq, hsent.lineage_eq⟩

theorem insertEntry_touches (d : ChildDefinition) (channels : Option StableChannels) :
    rt.nested (rt.cfg.host.slabKey rt.children.keys) = none ∧
    Touches rt (rt.cfg.host.slabKey rt.children.keys)
      (some ⟨rt.nextLineage, 0, false, false, d.kind.isSupervisor, none, none⟩) (rt.insertEntry d channels) ∧
    (rt.insertEntry d channels).snapshotCells = rt.snapshotCells ∧
    (rt.insertEntry d channels).nextLineage = rt.nextLineage + 1 := by
  have hfresh := rt.cfg.host.slabKey_fresh rt.children.keys
  generalize hkey : rt.cfg.host.slabKey rt.children.keys = key at hfresh
  have hnone : rt.children.get key = none := by
    cases he : rt.children.get key with
    | none => rfl
    | some e => exact absurd (Slab.mem_keys.mpr ⟨e, he⟩) hfresh
  refine ⟨by simp [nested, hnone], ⟨fun k => ?_, rfl⟩, rfl, rfl⟩
  unfold insertEntry nested
  simp only [hkey]
  by_cases hk : k = key
  · subst hk
    rw [Slab.get_insertAt_self, Function.update_self]
    rfl
  · rw [Function.update_of_ne hk, Slab.get_insertAt_ne _ _ hk]

theorem spawnChild_touches {generations : Option Nat × Nat} (h : spawnChild key rt = (.ok generations, rt')) :
    ∃ n, rt.nested key = some n ∧ Touches rt key (some (n.spawned key)) rt' ∧ rt'.nextLineage = rt.nextLineage ∧
      ∀ t, rt'.snapshotCells t = if (n.spawned key).cell = some t then ⟨none, false⟩ else rt.snapshotCells t := by
  cases he : rt.children.get key with
  | none =>
    simp [spawnChild, he] at h
  | some e =>
    refine ⟨e.nested, by simp [nested, he], ?_⟩
    by_cases hr : e.member.Refuses
    · obtain ⟨err, heq⟩ := spawnChild_refused he hr
      rw [heq] at h
      cases h
    · obtain ⟨old, heq⟩ := spawnChild_eq he hr
      rw [heq] at h
      cases h
      generalize hinstall : ({ rt with spawnedFrom := rt.spawnedFrom ++ [e.runtime.state] } : SupervisorRuntime).installTask key
        (rt.prepareSpawn key e) = rt₁
      have hafter : Aside rt₁ (rt.afterSpawn key e) := by
        unfold afterSpawn
        simp only [hinstall]
        split
        · exact (aside_sendLifecycle _).trans aside_publish
        · exact aside_publish
      have hput : Touches rt key (some (e.nested.spawned key)) rt₁ := by
        subst hinstall
        refine ⟨fun k => ?_, rfl⟩
        by_cases hk : k = key
        · subst hk
          rw [Function.update_self]
          simp only [nested, installTask, Slab.get_insertAt_self, Option.map_some, Option.some.injEq]
          unfold ChildEntry.nested Nested.spawned finishSpawn prepareSpawn
          simp only
          congr 1
          split <;> rfl
        · rw [Function.update_of_ne hk]
          simp [nested, installTask, Slab.get_insertAt_ne _ _ hk]
      refine ⟨hput.aside hafter, ?_, fun t => ?_⟩
      · rw [hafter.lineage_eq]
        subst hinstall
        rfl
      · rw [hafter.cells_eq]
        subst hinstall
        have hkind : (rt.prepareSpawn key e).runtime.definition.kind.isSupervisor = e.nested.isSupervisor := rfl
        unfold installTask Nested.spawned
        simp only [hkind]
        cases e.nested.isSupervisor with
        | false => simp
        | true =>
          simp only [if_true, Option.some.injEq]
          by_cases ht : (⟨key, e.nested.lineage, if e.nested.hasStarted = true then e.nested.generation + 1
              else e.nested.generation⟩ : TaskMeta) = t
          · rw [if_pos ht, ← ht]
            exact Function.update_self ..
          · rw [if_neg ht]
            exact Function.update_of_ne (Ne.symm ht) ..

end SupervisorRuntime

/-! ## One cell -/

/-- What there is of one cell: its value and flag, the call of its spawn, the notifications
    in the channel, where the handling of one is (`true` before the flag goes down), what
    the entry shows if the spawn is the current one, and what was forwarded. -/
structure CellView where
  latest : Option SupervisorSnapshot
  queued : Bool
  call : Option ForwardCall
  noted : Nat
  hand : Option Bool
  entry : Option (Option SupervisorSnapshot)
  forwarded : List SupervisorSnapshot

namespace CellView

/-- A call that has raised the flag. -/
def callTokens : Option ForwardCall → Nat
  | some ⟨_, .sending⟩ | some ⟨_, .reverting⟩ => 1
  | _ => 0

def handTokens : Option Bool → Nat
  | some true => 1
  | _ => 0

/-- The notifications under way. -/
def tokens (v : CellView) : Nat := v.noted + callTokens v.call + handTokens v.hand

/-- Something is under way that ends with a read of the value. -/
def Owed (v : CellView) : Prop :=
  (∃ c, v.call = some c ∧ (c.phase = .queuing ∨ c.phase = .sending)) ∨ 0 < v.noted ∨ v.hand ≠ none

/-- The value is the last forwarded, once the call has replaced it. -/
def Stored (v : CellView) : Prop :=
  match v.call with
  | some ⟨snapshot, .replacing⟩ => ∃ front, v.forwarded = front ++ [snapshot] ∧ v.latest = front.getLast?
  | _ => v.latest = v.forwarded.getLast?

structure Inv (v : CellView) : Prop where
  tokens_le : v.tokens ≤ 1
  raised : v.tokens = 1 → v.queued = true
  lowered : v.entry ≠ none → v.queued = true → v.tokens = 1
  stored : v.Stored
  value : ∀ x, v.entry = some x → x = v.latest ∨ v.Owed
  reverted : ∀ snapshot, v.call = some ⟨snapshot, .reverting⟩ → v.entry = none

variable {v : CellView} {snapshot : SupervisorSnapshot}

theorem Inv.begin (h : v.Inv) (hc : v.call = none) :
    Inv { v with call := some ⟨snapshot, .replacing⟩, forwarded := v.forwarded ++ [snapshot] } := by
  obtain ⟨latest, queued, call, noted, hand, entry, forwarded⟩ := v
  cases hc
  refine ⟨h.tokens_le, h.raised, h.lowered, ⟨forwarded, rfl, h.stored⟩, fun x hx => ?_, nofun⟩
  rcases h.value x hx with heq | ⟨c, hc, -⟩ | hrest
  · exact .inl heq
  · cases hc
  · exact .inr (.inr hrest)

/-- `replace_if_changed` found the same value. -/
theorem Inv.unchanged (h : v.Inv) (hc : v.call = some ⟨snapshot, .replacing⟩) (hsame : v.latest = some snapshot) :
    Inv { v with call := none } := by
  obtain ⟨latest, queued, call, noted, hand, entry, forwarded⟩ := v
  cases hc
  refine ⟨h.tokens_le, h.raised, h.lowered, ?_, fun x hx => ?_, nofun⟩
  · obtain ⟨front, hf, -⟩ := h.stored
    have hf : forwarded = front ++ [snapshot] := hf
    show latest = forwarded.getLast?
    rw [hf, List.getLast?_concat]
    exact hsame
  · rcases h.value x hx with heq | ⟨c, hc, hphase⟩ | hrest
    · exact .inl heq
    · cases hc
      rcases hphase with hp | hp <;> cases hp
    · exact .inr (.inr hrest)

/-- It replaced the value. -/
theorem Inv.replaced (h : v.Inv) (hc : v.call = some ⟨snapshot, .replacing⟩) :
    Inv { v with latest := some snapshot, call := some ⟨snapshot, .queuing⟩ } := by
  obtain ⟨latest, queued, call, noted, hand, entry, forwarded⟩ := v
  cases hc
  refine ⟨h.tokens_le, h.raised, h.lowered, ?_, fun x _ => .inr (.inl ⟨_, rfl, .inl rfl⟩), nofun⟩
  obtain ⟨front, hf, -⟩ := h.stored
  have hf : forwarded = front ++ [snapshot] := hf
  show some snapshot = forwarded.getLast?
  rw [hf, List.getLast?_concat]

/-- The flag was up: somebody else's notification is under way. -/
theorem Inv.alreadyQueued (h : v.Inv) (hc : v.call = some ⟨snapshot, .queuing⟩) (hq : v.queued = true) :
    Inv { v with call := none } := by
  obtain ⟨latest, queued, call, noted, hand, entry, forwarded⟩ := v
  cases hc
  cases hq
  refine ⟨h.tokens_le, h.raised, h.lowered, h.stored, fun x hx => .inr (.inr ?_), nofun⟩
  have hx : entry = some x := hx
  have htok : noted + 0 + handTokens hand = 1 := h.lowered (by simp [hx]) rfl
  rcases Nat.eq_zero_or_pos noted with hzero | hpos
  · refine .inr fun hnone => ?_
    have hnone : hand = none := hnone
    rw [hzero, hnone] at htok
    cases htok
  · exact .inl hpos

/-- It goes up. -/
theorem Inv.queue (h : v.Inv) (hc : v.call = some ⟨snapshot, .queuing⟩) (hq : v.queued = false) :
    Inv { v with queued := true, call := some ⟨snapshot, .sending⟩ } := by
  obtain ⟨latest, queued, call, noted, hand, entry, forwarded⟩ := v
  cases hc
  cases hq
  have hle : noted + 0 + handTokens hand ≤ 1 := h.tokens_le
  have hne : noted + 0 + handTokens hand ≠ 1 := fun he => nomatch h.raised he
  have htok : noted + 1 + handTokens hand = 1 := by omega
  exact ⟨Nat.le_of_eq htok, fun _ => rfl, fun _ _ => htok, h.stored, fun x _ => .inr (.inl ⟨_, rfl, .inr rfl⟩), nofun⟩

theorem Inv.send (h : v.Inv) (hc : v.call = some ⟨snapshot, .sending⟩) :
    Inv { v with noted := v.noted + 1, call := none } := by
  obtain ⟨latest, queued, call, noted, hand, entry, forwarded⟩ := v
  cases hc
  have hle : noted + 1 + handTokens hand ≤ 1 := h.tokens_le
  exact ⟨hle, h.raised, h.lowered, h.stored, fun x _ => .inr (.inr (.inl (Nat.succ_pos _))), nofun⟩

/-- Nobody receives any more, and so no entry is left. -/
theorem Inv.unsent (h : v.Inv) (hc : v.call = some ⟨snapshot, .sending⟩) (he : v.entry = none) :
    Inv { v with call := some ⟨snapshot, .reverting⟩ } := by
  obtain ⟨latest, queued, call, noted, hand, entry, forwarded⟩ := v
  cases hc
  cases he
  exact ⟨h.tokens_le, h.raised, h.lowered, h.stored, nofun, fun _ _ => rfl⟩

theorem Inv.revert (h : v.Inv) (hc : v.call = some ⟨snapshot, .reverting⟩) : Inv { v with queued := false, call := none } := by
  have he := h.reverted snapshot hc
  obtain ⟨latest, queued, call, noted, hand, entry, forwarded⟩ := v
  cases hc
  cases he
  have hle : noted + 1 + handTokens hand ≤ 1 := h.tokens_le
  have htok : noted + 0 + handTokens hand = 0 := by omega
  refine ⟨by show noted + 0 + handTokens hand ≤ 1; omega, fun hone => ?_, fun hne => absurd rfl hne, h.stored, nofun,
    nofun⟩
  have hone : noted + 0 + handTokens hand = 1 := hone
  omega

theorem Inv.receive {n : Nat} (h : v.Inv) (hn : v.noted = n + 1) (hh : v.hand = none) :
    Inv { v with noted := n, hand := some true } := by
  obtain ⟨latest, queued, call, noted, hand, entry, forwarded⟩ := v
  cases hn
  cases hh
  have htok : tokens ⟨latest, queued, call, n, some true, entry, forwarded⟩ =
      tokens ⟨latest, queued, call, n + 1, none, entry, forwarded⟩ := by
    show n + callTokens call + 1 = n + 1 + callTokens call + 0
    omega
  exact ⟨by rw [htok]; exact h.tokens_le, by rw [htok]; exact h.raised, by rw [htok]; exact h.lowered, h.stored,
    fun x _ => .inr (.inr (.inr nofun)), h.reverted⟩

/-- A notification that is not of the current spawn is dropped. -/
theorem Inv.discard (h : v.Inv) (hh : v.hand = some true) (he : v.entry = none) : Inv { v with hand := none } := by
  obtain ⟨latest, queued, call, noted, hand, entry, forwarded⟩ := v
  cases hh
  cases he
  have hle : noted + callTokens call + 1 ≤ 1 := h.tokens_le
  refine ⟨by show noted + callTokens call + 0 ≤ 1; omega, fun hone => ?_, fun hne => absurd rfl hne, h.stored, nofun,
    h.reverted⟩
  have hone : noted + callTokens call + 0 = 1 := hone
  omega

theorem Inv.dequeue (h : v.Inv) (hh : v.hand = some true) : Inv { v with queued := false, hand := some false } := by
  obtain ⟨latest, queued, call, noted, hand, entry, forwarded⟩ := v
  cases hh
  have hle : noted + callTokens call + 1 ≤ 1 := h.tokens_le
  refine ⟨by show noted + callTokens call + 0 ≤ 1; omega, fun hone => ?_, fun _ => nofun, h.stored,
    fun x _ => .inr (.inr (.inr nofun)), h.reverted⟩
  have hone : noted + callTokens call + 0 = 1 := hone
  omega

theorem Inv.read (h : v.Inv) (hh : v.hand = some false) (he : v.entry ≠ none) :
    Inv { v with hand := none, entry := some v.latest } := by
  obtain ⟨latest, queued, call, noted, hand, entry, forwarded⟩ := v
  cases hh
  refine ⟨h.tokens_le, h.raised, fun _ => h.lowered he, h.stored, fun x hx => .inl ?_, fun snapshot hc => ?_⟩
  · cases hx
    rfl
  · exact absurd (h.reverted snapshot hc) he

/-- The spawn is not the current one any more. -/
theorem Inv.close {n : Nat} (h : v.Inv) (hn : n ≤ v.noted) : Inv { v with noted := n, entry := none } := by
  obtain ⟨latest, queued, call, noted, hand, entry, forwarded⟩ := v
  have hle : noted + callTokens call + handTokens hand ≤ 1 := h.tokens_le
  have hn : n ≤ noted := hn
  refine ⟨by show n + callTokens call + handTokens hand ≤ 1; omega, fun hone => h.raised ?_, fun hne => absurd rfl hne, h.stored, nofun,
    fun _ _ => rfl⟩
  have hone : n + callTokens call + handTokens hand = 1 := hone
  show noted + callTokens call + handTokens hand = 1
  omega

theorem fresh_inv {entry : Option (Option SupervisorSnapshot)} (he : ∀ x, entry = some x → x = none) :
    Inv ⟨none, false, none, 0, none, entry, []⟩ :=
  ⟨Nat.zero_le 1, nofun, fun _ => nofun, rfl, fun x hx => .inl (he x hx), nofun⟩

/-- What is stored was forwarded. -/
theorem Stored.mem (h : v.Stored) {x : SupervisorSnapshot} (hx : v.latest = some x) : x ∈ v.forwarded := by
  unfold Stored at h
  split at h
  · obtain ⟨front, hf, hl⟩ := h
    rw [hf]
    exact List.mem_append_left _ (List.mem_of_getLast? (hl.symm.trans hx))
  · exact List.mem_of_getLast? (h.symm.trans hx)

end CellView

/-! ## The invariant -/

/-- The memberships and the links: lineages are not reused, and a spawn has a generation
    that no earlier link of its membership has. -/
structure Linkage (rt : SupervisorRuntime) (links : List TaskMeta) : Prop where
  known : ∀ k n, rt.nested k = some n → n.lineage < rt.nextLineage
  distinct : ∀ k k' n n', rt.nested k = some n → rt.nested k' = some n' → n.lineage = n'.lineage → k = k'
  linked : ∀ t ∈ links, t.lineage < rt.nextLineage ∧
    ∀ k n, rt.nested k = some n → n.lineage = t.lineage → n.hasStarted = true ∧ t.generation ≤ n.generation
  cell_eq : ∀ k n t, rt.nested k = some n → n.cell = some t → t = ⟨k, n.lineage, n.generation⟩ ∧ t ∈ links
  active : ∀ k n, rt.nested k = some n → n.cell.isSome = (n.active && n.isSupervisor)

namespace Forwarding

variable {s s' : Forwarding} {t t' : TaskMeta}

/-- What the entry shows, if `t` is its current spawn. -/
def entryOf (rt : SupervisorRuntime) (t : TaskMeta) : Option (Option SupervisorSnapshot) :=
  (rt.nested t.key).bind fun n => if n.cell = some t then some n.snapshot else none

def handOf (t : TaskMeta) : Option Handling → Option Bool
  | none => none
  | some (.checking n) => if n = t then some true else none
  | some (.dequeuing _ cell) => if cell = t then some true else none
  | some (.reading _ cell) => if cell = t then some false else none

def view (s : Forwarding) (t : TaskMeta) : CellView where
  latest := (s.rt.snapshotCells t).latest
  queued := (s.rt.snapshotCells t).queued
  call := s.calls t
  noted := s.rt.nestedRx.count t
  hand := handOf t s.handling
  entry := entryOf s.rt t
  forwarded := s.forwarded t

/-- While a notification is handled its spawn is the current one. -/
def Handles (s : Forwarding) : Prop :=
  match s.handling with
  | some (.dequeuing key cell) | some (.reading key cell) => ∃ n, s.rt.nested key = some n ∧ n.cell = some cell
  | _ => True

structure Inv (s : Forwarding) : Prop where
  linkage : Linkage s.rt s.links
  cells : ∀ t, (s.view t).Inv
  unlinked : ∀ t, t ∉ s.links → s.calls t = none ∧ t ∉ s.rt.nestedRx ∧ s.forwarded t = []
  handles : s.Handles
  shown : ∀ k n x, s.rt.nested k = some n → n.snapshot = some x → x ∈ s.forwarded ⟨k, n.lineage, n.generation⟩
  blank : ∀ k n, s.rt.nested k = some n → n.cell = none → n.snapshot = none
  gone : s.receiving = false → ∀ k, s.rt.nested k = none

/-! ### Forwards -/

/-- A step that leaves the entries and the links alone. -/
theorem Inv.still (h : s.Inv) (hrt : ∀ k, s'.rt.nested k = s.rt.nested k) (hnext : s'.rt.nextLineage = s.rt.nextLineage)
    (hlinks : s'.links = s.links) (hrecv : s'.receiving = s.receiving) (hcells : ∀ t, (s'.view t).Inv)
    (hun : ∀ t, t ∉ s.links → s'.calls t = none ∧ t ∉ s'.rt.nestedRx ∧ s'.forwarded t = []) (hh : s'.Handles)
    (hgrow : ∀ t, s.forwarded t <+: s'.forwarded t) : s'.Inv where
  linkage := by
    obtain ⟨known, distinct, linked, cell_eq, active⟩ := h.linkage
    refine ⟨?_, ?_, ?_, ?_, ?_⟩
    · simpa only [hrt, hnext] using known
    · simpa only [hrt] using distinct
    · simpa only [hrt, hnext, hlinks] using linked
    · simpa only [hrt, hlinks] using cell_eq
    · simpa only [hrt] using active
  cells := hcells
  unlinked := by
    rw [hlinks]
    exact hun
  handles := hh
  shown k n x hn hx := by
    rw [hrt] at hn
    exact (hgrow _).subset (h.shown k n x hn hx)
  blank := by simpa only [hrt] using h.blank
  gone := by simpa only [hrt, hrecv] using h.gone

/-- One that concerns the cell and the call of `t` alone. -/
theorem Inv.local (h : s.Inv) (hrt : ∀ k, s'.rt.nested k = s.rt.nested k) (hnext : s'.rt.nextLineage = s.rt.nextLineage)
    (hlinks : s'.links = s.links) (hhand : s'.handling = s.handling) (hrecv : s'.receiving = s.receiving)
    (hview : ∀ t', t' ≠ t → s'.view t' = s.view t') (hself : (s'.view t).Inv) (hmem : t ∈ s.links)
    (hgrow : ∀ t', s.forwarded t' <+: s'.forwarded t') : s'.Inv := by
  refine h.still hrt hnext hlinks hrecv (fun t' => ?_) (fun t' ht' => ?_) ?_ hgrow
  · by_cases ht : t' = t
    · rw [ht]
      exact hself
    · rw [hview t' ht]
      exact h.cells t'
  · have hv := hview t' fun he => ht' (he ▸ hmem)
    obtain ⟨hc, hrx, hf⟩ := h.unlinked t' ht'
    refine ⟨(congrArg CellView.call hv).trans hc, List.count_eq_zero.mp ?_, (congrArg CellView.forwarded hv).trans hf⟩
    exact (congrArg CellView.noted hv).trans (List.count_eq_zero.mpr hrx)
  · have hh := h.handles
    unfold Handles at hh ⊢
    rw [hhand]
    simpa only [hrt] using hh

theorem Inv.begin (h : s.Inv) (hmem : t ∈ s.links) (hc : s.calls t = none) (snapshot : SupervisorSnapshot) :
    (s.begin t snapshot).Inv := by
  refine h.local (t := t) (fun _ => rfl) rfl rfl rfl rfl (fun t' ht => ?_) ?_ hmem (fun t' => ?_)
  · simp [view, Forwarding.begin, setCall, Function.update_of_ne ht]
  · have hself : (s.begin t snapshot).view t =
        { s.view t with call := some ⟨snapshot, .replacing⟩, forwarded := (s.view t).forwarded ++ [snapshot] } := by
      simp [view, Forwarding.begin, setCall]
    rw [hself]
    exact (h.cells t).begin hc
  · by_cases ht : t' = t
    · subst ht
      simp [Forwarding.begin]
    · simp [Forwarding.begin, setCall, Function.update_of_ne ht]

/-- Without a receiver there is no current spawn. -/
theorem Inv.entry_gone (h : s.Inv) (hr : s.receiving = false) (t : TaskMeta) : (s.view t).entry = none := by
  show entryOf s.rt t = none
  unfold entryOf
  rw [h.gone hr]
  rfl

theorem Inv.linked_of_call (h : s.Inv) {c : ForwardCall} (hc : s.calls t = some c) : t ∈ s.links := by
  by_contra ht
  rw [(h.unlinked t ht).1] at hc
  cases hc

/-- The call of `t` writes its cell and moves on. -/
theorem Inv.write (h : s.Inv) (hmem : t ∈ s.links) {cell : NestedSnapshotState} {c : Option ForwardCall}
    (hv : CellView.Inv { s.view t with latest := cell.latest, queued := cell.queued, call := c }) :
    ((s.setCell t cell).setCall t c).Inv := by
  refine h.local (t := t) (fun _ => rfl) rfl rfl rfl rfl (fun t' ht => ?_) ?_ hmem fun _ => List.prefix_refl _
  · simp [view, setCall, setCell, Function.update_of_ne ht, entryOf, SupervisorRuntime.nested]
  · have hself : ((s.setCell t cell).setCall t c).view t =
        { s.view t with latest := cell.latest, queued := cell.queued, call := c } := by
      simp [view, setCall, setCell, entryOf, SupervisorRuntime.nested]
    rw [hself]
    exact hv

/-- It moves on without writing. -/
theorem Inv.pass (h : s.Inv) (hmem : t ∈ s.links) {c : Option ForwardCall} (hv : CellView.Inv { s.view t with call := c }) :
    (s.setCall t c).Inv := by
  have hsame : s.setCell t (s.rt.snapshotCells t) = s := by
    unfold setCell
    rw [Function.update_eq_self]
  rw [← hsame]
  exact h.write hmem hv

/-- It sends its notification. -/
theorem Inv.sent (h : s.Inv) (hmem : t ∈ s.links) (hv : CellView.Inv { s.view t with noted := (s.view t).noted + 1, call := none }) :
    ({ s with rt := { s.rt with nestedRx := s.rt.nestedRx ++ [t] } }.setCall t none).Inv := by
  refine h.local (t := t) (fun _ => rfl) rfl rfl rfl rfl (fun t' ht => ?_) ?_ hmem fun _ => List.prefix_refl _
  · simp [view, setCall, Function.update_of_ne ht, entryOf, SupervisorRuntime.nested, Ne.symm ht]
  · have hself : ({ s with rt := { s.rt with nestedRx := s.rt.nestedRx ++ [t] } }.setCall t none).view t =
        { s.view t with noted := (s.view t).noted + 1, call := none } := by
      simp [view, setCall, entryOf, SupervisorRuntime.nested]
    rw [hself]
    exact hv

theorem Inv.advance (h : s.Inv) (t : TaskMeta) : (s.advance t).Inv := by
  have hcell := h.cells t
  unfold Forwarding.advance
  simp only
  cases hc : s.calls t with
  | none => exact h
  | some c =>
    have hmem := h.linked_of_call hc
    obtain ⟨snapshot, phase⟩ := c
    cases phase with
    | replacing =>
      simp only
      by_cases hsame : (s.rt.snapshotCells t).latest = some snapshot
      · rw [if_pos hsame]
        exact h.pass hmem (hcell.unchanged hc hsame)
      · rw [if_neg hsame]
        exact h.write hmem (hcell.replaced hc)
    | queuing =>
      simp only
      by_cases hq : (s.rt.snapshotCells t).queued = true
      · rw [if_pos hq]
        exact h.pass hmem (hcell.alreadyQueued hc hq)
      · rw [if_neg hq]
        exact h.write hmem (hcell.queue hc (Bool.eq_false_iff.mpr hq))
    | sending =>
      simp only
      by_cases hr : s.receiving = true
      · rw [if_pos hr]
        exact h.sent hmem (hcell.send hc)
      · rw [if_neg hr]
        exact h.pass hmem (hcell.unsent hc (h.entry_gone (by simpa using hr) t))
    | reverting => exact h.write hmem (hcell.revert hc)

/-! ### Notifications -/

/-- The current spawn of an entry is the one its name says. -/
theorem Inv.entry_iff (h : s.Inv) {k : ChildKey} {n : Nested} (hn : s.rt.nested k = some n) (hcell : n.cell = some t) :
    t.key = k ∧ entryOf s.rt t = some n.snapshot := by
  have hkey : t.key = k := by rw [(h.linkage.cell_eq k n t hn hcell).1]
  refine ⟨hkey, ?_⟩
  unfold entryOf
  rw [hkey, hn]
  simp [hcell]

/-- The entry has a current spawn when it has this one. -/
theorem entryOf_some {rt : SupervisorRuntime} {x : Option SupervisorSnapshot} (he : entryOf rt t = some x) :
    ∃ n, rt.nested t.key = some n ∧ n.cell = some t ∧ n.snapshot = x := by
  unfold entryOf at he
  obtain ⟨n, hn, hx⟩ := Option.bind_eq_some_iff.mp he
  split at hx
  · cases hx
    exact ⟨n, hn, ‹_›, rfl⟩
  · cases hx

theorem Inv.receive (h : s.Inv) {n : TaskMeta} {rest : List TaskMeta} (hh : s.handling = none) (hrx : s.rt.nestedRx = n :: rest) :
    Inv { s with rt := { s.rt with nestedRx := rest }, handling := some (.checking n) } := by
  refine h.still (fun _ => rfl) rfl rfl rfl (fun t => ?_) (fun t ht => ?_) trivial fun _ => List.prefix_refl _
  · have hv := h.cells t
    by_cases ht : n = t
    · subst ht
      have hself : view { s with rt := { s.rt with nestedRx := rest }, handling := some (.checking n) } n =
          { s.view n with noted := rest.count n, hand := some true } := by
        simp [view, handOf, entryOf, SupervisorRuntime.nested]
      rw [hself]
      refine hv.receive ?_ ?_
      · simp [view, hrx]
      · simp [view, hh, handOf]
    · have hsame : view { s with rt := { s.rt with nestedRx := rest }, handling := some (.checking n) } t = s.view t := by
        simp [view, handOf, hh, ht, hrx, entryOf, SupervisorRuntime.nested]
      rw [hsame]
      exact hv
  · obtain ⟨hc, hnot, hf⟩ := h.unlinked t ht
    refine ⟨hc, fun hin => hnot ?_, hf⟩
    rw [hrx]
    exact List.mem_cons_of_mem _ hin

/-- A notification that is not of the current spawn changes nothing. -/
theorem Inv.discard (h : s.Inv) {n : TaskMeta} (hh : s.handling = some (.checking n)) (hstale : entryOf s.rt n = none) :
    s.handled.Inv := by
  refine h.still (fun _ => rfl) rfl rfl rfl (fun t => ?_) (fun t ht => h.unlinked t ht) trivial fun _ => List.prefix_refl _
  have hv := h.cells t
  have hview : s.handled.view t = { s.view t with hand := none } := rfl
  rw [hview]
  by_cases ht : n = t
  · subst ht
    exact hv.discard (by simp [view, hh, handOf]) hstale
  · have hnone : (s.view t).hand = none := by simp [view, hh, handOf, ht]
    rw [← hnone]
    exact hv

theorem Inv.accept (h : s.Inv) {n : TaskMeta} (hh : s.handling = some (.checking n))
    (hlive : ∃ m, s.rt.nested n.key = some m ∧ m.cell = some n) : Inv { s with handling := some (.dequeuing n.key n) } := by
  refine h.still (fun _ => rfl) rfl rfl rfl (fun t => ?_) (fun t ht => h.unlinked t ht) hlive fun _ => List.prefix_refl _
  have hview : view { s with handling := some (.dequeuing n.key n) } t = s.view t := by
    simp [view, hh, handOf]
  rw [hview]
  exact h.cells t

theorem Inv.dequeue (h : s.Inv) {key : ChildKey} {cell : TaskMeta} (hh : s.handling = some (.dequeuing key cell)) :
    Inv { s.setCell cell { s.rt.snapshotCells cell with queued := false } with handling := some (.reading key cell) } := by
  have hlive : ∃ n, s.rt.nested key = some n ∧ n.cell = some cell := by
    have := h.handles
    unfold Handles at this
    rw [hh] at this
    exact this
  refine h.still (fun _ => rfl) rfl rfl rfl (fun t => ?_) (fun t ht => h.unlinked t ht) hlive fun _ => List.prefix_refl _
  have hv := h.cells t
  by_cases ht : cell = t
  · subst ht
    have hself : view { s.setCell cell { s.rt.snapshotCells cell with queued := false } with handling := some (.reading key cell) } cell =
        { s.view cell with queued := false, hand := some false } := by
      simp [view, setCell, handOf, entryOf, SupervisorRuntime.nested]
    rw [hself]
    exact hv.dequeue (by simp [view, hh, handOf])
  · have hsame : view { s.setCell cell { s.rt.snapshotCells cell with queued := false } with handling := some (.reading key cell) } t =
        s.view t := by
      simp [view, setCell, handOf, hh, ht, Function.update_of_ne (Ne.symm ht), entryOf, SupervisorRuntime.nested]
    rw [hsame]
    exact hv

/-- Entries leave, lose their cell or show something else. -/
theorem linkage_shrink {rt rt' : SupervisorRuntime} {links : List TaskMeta} (h : Linkage rt links)
    (hnext : rt'.nextLineage = rt.nextLineage)
    (hfrom : ∀ k n', rt'.nested k = some n' → ∃ n, rt.nested k = some n ∧ n'.lineage = n.lineage ∧
      n'.generation = n.generation ∧ n'.hasStarted = n.hasStarted ∧ n'.isSupervisor = n.isSupervisor ∧
      (n'.cell = n.cell ∧ n'.active = n.active ∨ n'.cell = none ∧ n'.active = false)) : Linkage rt' links where
  known k n' hn' := by
    obtain ⟨n, hn, hl, -⟩ := hfrom k n' hn'
    rw [hl, hnext]
    exact h.known k n hn
  distinct k k' n₁ n₂ h₁ h₂ hl := by
    obtain ⟨m₁, hm₁, hl₁, -⟩ := hfrom k n₁ h₁
    obtain ⟨m₂, hm₂, hl₂, -⟩ := hfrom k' n₂ h₂
    exact h.distinct k k' m₁ m₂ hm₁ hm₂ (hl₁.symm.trans (hl.trans hl₂))
  linked t ht := by
    obtain ⟨hlt, hlink⟩ := h.linked t ht
    refine ⟨hnext ▸ hlt, fun k n' hn' hl => ?_⟩
    obtain ⟨n, hn, hl', hg, hs, -⟩ := hfrom k n' hn'
    rw [hs, hg]
    exact hlink k n hn (hl'.symm.trans hl)
  cell_eq k n' t hn' hc := by
    obtain ⟨n, hn, hl, hg, -, -, ⟨hcell, -⟩ | ⟨hcell, -⟩⟩ := hfrom k n' hn'
    · rw [hl, hg]
      exact h.cell_eq k n t hn (hcell.symm.trans hc)
    · rw [hcell] at hc
      cases hc
  active k n' hn' := by
    obtain ⟨n, hn, -, -, -, hsup, ⟨hcell, hact⟩ | ⟨hcell, hact⟩⟩ := hfrom k n' hn'
    · rw [hcell, hact, hsup]
      exact h.active k n hn
    · rw [hcell, hact]
      rfl

theorem Inv.read (h : s.Inv) {key : ChildKey} {cell : TaskMeta} (hh : s.handling = some (.reading key cell)) :
    Inv { s.handled with rt := (s.rt.edit key fun e => { e with nestedSnapshot := (s.rt.snapshotCells cell).latest }).publishSnapshot } := by
  generalize hs : ({ s.handled with rt := (s.rt.edit key fun e =>
    { e with nestedSnapshot := (s.rt.snapshotCells cell).latest }).publishSnapshot } : Forwarding) = s'
  obtain ⟨n, hn, hcell⟩ : ∃ n, s.rt.nested key = some n ∧ n.cell = some cell := by
    have := h.handles
    unfold Handles at this
    rw [hh] at this
    exact this
  have hname := (h.linkage.cell_eq key n cell hn hcell).1
  have hstored := (h.cells cell).stored
  -- only this entry changes, and only what it shows
  have hself : s'.rt.nested key = some { n with snapshot := (s.rt.snapshotCells cell).latest } := by
    subst hs
    show (s.rt.edit key _).nested key = _
    rw [SupervisorRuntime.nested_edit, Function.update_self]
    obtain ⟨e, he, rfl⟩ := Option.map_eq_some_iff.mp hn
    rw [he]
    rfl
  have hother : ∀ k, k ≠ key → s'.rt.nested k = s.rt.nested k := by
    intro k hk
    subst hs
    show (s.rt.edit key _).nested k = _
    rw [SupervisorRuntime.nested_edit, Function.update_of_ne hk]
  have hfrom : ∀ k n', s'.rt.nested k = some n' → ∃ m, s.rt.nested k = some m ∧
      n' = { m with snapshot := n'.snapshot } ∧ (n' = m ∨ k = key ∧ n'.snapshot = (s.rt.snapshotCells cell).latest) := by
    intro k n' hn'
    by_cases hk : k = key
    · subst hk
      rw [hself] at hn'
      cases hn'
      exact ⟨n, hn, rfl, .inr ⟨rfl, rfl⟩⟩
    · rw [hother k hk] at hn'
      exact ⟨n', hn', rfl, .inl rfl⟩
  constructor
  case linkage =>
    have hlinks : s'.links = s.links := by subst hs; rfl
    rw [hlinks]
    refine linkage_shrink h.linkage (by subst hs; rfl) fun k n' hn' => ?_
    obtain ⟨m, hm, heq, -⟩ := hfrom k n' hn'
    rw [heq]
    exact ⟨m, hm, rfl, rfl, rfl, rfl, .inl ⟨rfl, rfl⟩⟩
  case cells =>
    intro t
    have hv := h.cells t
    by_cases ht : cell = t
    · subst ht
      obtain ⟨hkey, hentry⟩ := h.entry_iff hn hcell
      have hview : s'.view cell = { s.view cell with hand := none, entry := some (s.view cell).latest } := by
        have hshow : entryOf s'.rt cell = some (s.rt.snapshotCells cell).latest := by
          unfold entryOf
          rw [hkey, hself]
          simp [hcell]
        unfold view
        rw [hshow]
        subst hs
        rfl
      rw [hview]
      refine hv.read (by simp [view, hh, handOf]) ?_
      show entryOf s.rt cell ≠ none
      rw [hentry]
      nofun
    · have hentry : entryOf s'.rt t = entryOf s.rt t := by
        unfold entryOf
        by_cases hk : t.key = key
        · rw [hk, hself, hn]
          simp [hcell, ht]
        · rw [hother _ hk]
      have hview : s'.view t = s.view t := by
        unfold view
        rw [hentry]
        subst hs
        simp [hh, handled, handOf, ht, SupervisorRuntime.publishSnapshot, SupervisorRuntime.edit]
      rw [hview]
      exact hv
  case unlinked =>
    subst hs
    exact h.unlinked
  case handles =>
    subst hs
    exact trivial
  case shown =>
    intro k n' x hn' hx
    have hforwarded : s'.forwarded = s.forwarded := by subst hs; rfl
    rw [hforwarded]
    obtain ⟨m, hm, heq, rfl | ⟨rfl, hlatest⟩⟩ := hfrom k n' hn'
    · exact h.shown k _ x hm hx
    · rw [hn] at hm
      cases hm
      have hmem := hstored.mem (hlatest.symm.trans hx)
      rw [heq, ← hname]
      exact hmem
  case blank =>
    intro k n' hn' hnone
    obtain ⟨m, hm, heq, rfl | ⟨rfl, -⟩⟩ := hfrom k n' hn'
    · exact h.blank k _ hm hnone
    · rw [hn] at hm
      cases hm
      rw [heq, hcell] at hnone
      cases hnone
  case gone =>
    intro hr k
    have hr : s.receiving = false := by subst hs; exact hr
    rw [h.gone hr] at hn
    cases hn

theorem Inv.handle (h : s.Inv) : s.handle.Inv := by
  unfold Forwarding.handle
  cases hh : s.handling with
  | none =>
    simp only
    cases hrx : s.rt.nestedRx with
    | nil => exact h
    | cons n rest => exact h.receive hh hrx
  | some phase =>
    cases phase with
    | checking n =>
      simp only
      -- what fails the check is not a current spawn
      have hstale : (∀ e, s.rt.children.get n.key = some e →
          e.lineage ≠ n.lineage ∨ e.runtime.generation ≠ n.generation ∨ e.nestedSnapshotState = none) →
          s.handled.Inv := by
        intro hfail
        refine h.discard hh ?_
        cases hentry : entryOf s.rt n with
        | none => rfl
        | some x =>
          obtain ⟨m, hm, hcell, -⟩ := entryOf_some hentry
          have hname := (h.linkage.cell_eq _ m n hm hcell).1
          obtain ⟨e, he, rfl⟩ := Option.map_eq_some_iff.mp hm
          rcases hfail e he with hne | hne | hne
          · exact absurd (congrArg TaskMeta.lineage hname).symm hne
          · exact absurd (congrArg TaskMeta.generation hname).symm hne
          · have hcell : e.nestedSnapshotState = some n := hcell
            rw [hne] at hcell
            cases hcell
      cases he : s.rt.children.get n.key with
      | none =>
        refine hstale fun e he' => ?_
        rw [he] at he'
        cases he'
      | some e =>
        simp only
        split
        · rename_i hne
          refine hstale fun e' he' => ?_
          rw [he] at he'
          cases he'
          rcases Bool.or_eq_true _ _ ▸ hne with hne | hne
          · exact .inl (by simpa using hne)
          · exact .inr (.inl (by simpa using hne))
        · rename_i hcurrent
          cases hcell : e.nestedSnapshotState with
          | none =>
            refine hstale fun e' he' => ?_
            rw [he] at he'
            cases he'
            exact .inr (.inr hcell)
          | some cell =>
            have hn : s.rt.nested n.key = some e.nested := by simp [SupervisorRuntime.nested, he]
            have hname : cell = n := by
              rw [(h.linkage.cell_eq _ e.nested cell hn hcell).1]
              simp only [Bool.or_eq_true, decide_eq_true_eq, not_or, Decidable.not_not] at hcurrent
              obtain ⟨key, lineage, generation⟩ := n
              exact congrArg₂ (TaskMeta.mk key) hcurrent.1 hcurrent.2
            subst hname
            exact h.accept hh ⟨e.nested, hn, hcell⟩
    | dequeuing key cell => exact h.dequeue hh
    | reading key cell => exact h.read hh

/-! ### The parent's own steps -/

/-- Entries leave or lose their cell with what they show. -/
theorem Inv.shrink (h : s.Inv) {rt' : SupervisorRuntime} (receiving : Bool) (hh : s.handling = none)
    (hcells : rt'.snapshotCells = s.rt.snapshotCells) (hnext : rt'.nextLineage = s.rt.nextLineage)
    (hrx : ∀ t, rt'.nestedRx.count t ≤ s.rt.nestedRx.count t)
    (hfrom : ∀ k n', rt'.nested k = some n' → ∃ n, s.rt.nested k = some n ∧ (n' = n ∨ n' = n.exited))
    (hsame : ∀ t, entryOf rt' t ≠ none → rt'.nestedRx.count t = s.rt.nestedRx.count t)
    (hgone : receiving = false → ∀ k, rt'.nested k = none) : Inv { s with rt := rt', receiving := receiving } where
  linkage := by
    refine linkage_shrink h.linkage hnext fun k n' hn' => ?_
    obtain ⟨n, hn, rfl | rfl⟩ := hfrom k n' hn'
    · exact ⟨n', hn, rfl, rfl, rfl, rfl, .inl ⟨rfl, rfl⟩⟩
    · exact ⟨n, hn, rfl, rfl, rfl, rfl, .inr ⟨rfl, rfl⟩⟩
  cells t := by
    have hv := h.cells t
    cases hentry : entryOf rt' t with
    | none =>
      have hview : view { s with rt := rt', receiving := receiving } t =
          { s.view t with noted := rt'.nestedRx.count t, entry := none } := by
        unfold view
        rw [hentry, hcells]
      rw [hview]
      exact hv.close (hrx t)
    | some x =>
      -- the entry of a current spawn is the one it was
      obtain ⟨n', hn', hcell, hx⟩ := entryOf_some hentry
      obtain ⟨n, hn, rfl | rfl⟩ := hfrom _ n' hn'
      · have hold : entryOf s.rt t = some x := by
          unfold entryOf
          rw [hn]
          simp [hcell, hx]
        have hview : view { s with rt := rt', receiving := receiving } t = s.view t := by
          unfold view
          rw [hentry, hcells, hsame t (by rw [hentry]; nofun), hold]
        rw [hview]
        exact hv
      · cases hcell
  unlinked t ht := by
    obtain ⟨hc, hnot, hf⟩ := h.unlinked t ht
    refine ⟨hc, List.count_eq_zero.mp ?_, hf⟩
    have := hrx t
    rw [List.count_eq_zero.mpr hnot] at this
    exact Nat.le_zero.mp this
  handles := by
    show Handles _
    unfold Handles
    simp only [hh]
  shown k n' x hn' hx := by
    obtain ⟨n, hn, rfl | rfl⟩ := hfrom k n' hn'
    · exact h.shown k n' x hn hx
    · cases hx
  blank k n' hn' hnone := by
    obtain ⟨n, hn, rfl | rfl⟩ := hfrom k n' hn'
    · exact h.blank k n' hn hnone
    · rfl
  gone := hgone

theorem Inv.touched (h : s.Inv) {rt' : SupervisorRuntime} {key : ChildKey} {n : Option Nested} (hh : s.handling = none)
    (hr : s.receiving = true) (ht : s.rt.Touches key n rt') (hcells : rt'.snapshotCells = s.rt.snapshotCells)
    (hnext : rt'.nextLineage = s.rt.nextLineage) (hn : n = none ∨ n = (s.rt.nested key).map Nested.exited) :
    Inv { s with rt := rt' } := by
  have hrx := ht.rx_eq
  refine h.shrink s.receiving hh hcells hnext (fun t => Nat.le_of_eq (by rw [hrx])) (fun k n' hn' => ?_) (fun t _ => by rw [hrx])
    fun hno => ?_
  · rw [ht.nested_eq] at hn'
    by_cases hk : k = key
    · subst hk
      rw [Function.update_self] at hn'
      rcases hn with rfl | rfl
      · cases hn'
      · obtain ⟨m, hm, rfl⟩ := Option.map_eq_some_iff.mp hn'
        exact ⟨m, hm, .inr rfl⟩
    · rw [Function.update_of_ne hk] at hn'
      exact ⟨n', hn', .inl rfl⟩
  · rw [hr] at hno
    cases hno

/-- A new membership has a lineage of its own and nothing to show. -/
theorem Inv.add (h : s.Inv) (hh : s.handling = none) (hr : s.receiving = true) (d : ChildDefinition)
    (channels : Option StableChannels) : Inv { s with rt := s.rt.insertEntry d channels } := by
  obtain ⟨hvacant, ht, hcells, hnext⟩ := @SupervisorRuntime.insertEntry_touches s.rt d channels
  generalize s.rt.insertEntry d channels = rt' at ht hcells hnext
  generalize s.rt.cfg.host.slabKey s.rt.children.keys = key at hvacant ht
  have hself : rt'.nested key = some ⟨s.rt.nextLineage, 0, false, false, d.kind.isSupervisor, none, none⟩ := by
    rw [ht.nested_eq, Function.update_self]
  have hother : ∀ k, k ≠ key → rt'.nested k = s.rt.nested k := by
    intro k hk
    rw [ht.nested_eq, Function.update_of_ne hk]
  have hcase : ∀ {k n}, rt'.nested k = some n →
      k = key ∧ n = ⟨s.rt.nextLineage, 0, false, false, d.kind.isSupervisor, none, none⟩ ∨ k ≠ key ∧ s.rt.nested k = some n := by
    intro k n hn
    by_cases hk : k = key
    · subst hk
      rw [hself] at hn
      cases hn
      exact .inl ⟨rfl, rfl⟩
    · rw [hother k hk] at hn
      exact .inr ⟨hk, hn⟩
  have hlinkage := h.linkage
  constructor
  case linkage =>
    refine ⟨fun k n hn => ?_, fun k k' n n' hn hn' hl => ?_, fun t htl => ?_, fun k n t hn hc => ?_, fun k n hn => ?_⟩
    · rw [hnext]
      rcases hcase hn with ⟨-, rfl⟩ | ⟨-, hn⟩
      · exact Nat.lt_succ_self _
      · exact Nat.lt_succ_of_lt (hlinkage.known k n hn)
    · rcases hcase hn with ⟨rfl, rfl⟩ | ⟨-, hn⟩
      · rcases hcase hn' with ⟨rfl, rfl⟩ | ⟨-, hn'⟩
        · rfl
        · have hlt := hlinkage.known k' n' hn'
          have hl : s.rt.nextLineage = n'.lineage := hl
          omega
      · rcases hcase hn' with ⟨rfl, rfl⟩ | ⟨-, hn'⟩
        · have hlt := hlinkage.known k n hn
          have hl : n.lineage = s.rt.nextLineage := hl
          omega
        · exact hlinkage.distinct k k' n n' hn hn' hl
    · obtain ⟨hlt, hlink⟩ := hlinkage.linked t htl
      refine ⟨by rw [hnext]; exact Nat.lt_succ_of_lt hlt, fun k n hn hl => ?_⟩
      rcases hcase hn with ⟨-, rfl⟩ | ⟨-, hn⟩
      · have hl : s.rt.nextLineage = t.lineage := hl
        omega
      · exact hlink k n hn hl
    · rcases hcase hn with ⟨-, rfl⟩ | ⟨-, hn⟩
      · cases hc
      · exact hlinkage.cell_eq k n t hn hc
    · rcases hcase hn with ⟨-, rfl⟩ | ⟨-, hn⟩
      · rfl
      · exact hlinkage.active k n hn
  case cells =>
    intro t
    have hentry : entryOf rt' t = entryOf s.rt t := by
      unfold entryOf
      by_cases hk : t.key = key
      · rw [hk, hself, hvacant]
        rfl
      · rw [hother _ hk]
    have hview : view { s with rt := rt' } t = s.view t := by
      unfold view
      rw [hentry, hcells, ht.rx_eq]
    rw [hview]
    exact h.cells t
  case unlinked =>
    intro t htl
    rw [ht.rx_eq]
    exact h.unlinked t htl
  case handles =>
    show Handles _
    unfold Handles
    simp only [hh]
  case shown =>
    intro k n x hn hx
    rcases hcase hn with ⟨-, rfl⟩ | ⟨-, hn⟩
    · cases hx
    · exact h.shown k n x hn hx
  case blank =>
    intro k n hn hnone
    rcases hcase hn with ⟨-, rfl⟩ | ⟨-, hn⟩
    · rfl
    · exact h.blank k n hn hnone
  case gone =>
    intro hno
    have hno : s.receiving = false := hno
    rw [hr] at hno
    cases hno

/-- A spawn has a cell that no call and no notification knows of. -/
theorem Inv.spawn (h : s.Inv) (hh : s.handling = none) (hr : s.receiving = true) {rt' : SupervisorRuntime} {key : ChildKey}
    {n : Nested} (hn : s.rt.nested key = some n) (ht : s.rt.Touches key (some (n.spawned key)) rt')
    (hnext : rt'.nextLineage = s.rt.nextLineage)
    (hcells : ∀ t, rt'.snapshotCells t = if (n.spawned key).cell = some t then ⟨none, false⟩ else s.rt.snapshotCells t) :
    Inv { s with rt := rt', links := s.links ++ (n.spawned key).cell.toList } := by
  have hself : rt'.nested key = some (n.spawned key) := by
    rw [ht.nested_eq, Function.update_self]
  have hother : ∀ k, k ≠ key → rt'.nested k = s.rt.nested k := by
    intro k hk
    rw [ht.nested_eq, Function.update_of_ne hk]
  have hname : ∀ t, (n.spawned key).cell = some t → t = ⟨key, n.lineage, (n.spawned key).generation⟩ := by
    intro t hc
    simp only [Nested.spawned] at hc ⊢
    split at hc
    · exact (Option.some.inj hc).symm
    · cases hc
  have hgrows : n.generation ≤ (n.spawned key).generation ∧
      (n.hasStarted = true → n.generation < (n.spawned key).generation) := by
    simp only [Nested.spawned]
    split
    · exact ⟨Nat.le_succ _, fun _ => Nat.lt_succ_self _⟩
    · exact ⟨Nat.le_refl _, fun hs => absurd hs ‹_›⟩
  have hfresh : ∀ t, (n.spawned key).cell = some t → t ∉ s.links := by
    intro t hc hin
    obtain ⟨-, hlink⟩ := h.linkage.linked t hin
    have heq := hname t hc
    obtain ⟨hs, hle⟩ := hlink key n hn (by rw [heq])
    have hlt := hgrows.2 hs
    rw [heq] at hle
    have hle : (n.spawned key).generation ≤ n.generation := hle
    omega
  have hlinkage := h.linkage
  constructor
  case linkage =>
    refine ⟨fun k m hm => ?_, fun k k' m m' hm hm' hl => ?_, fun t htl => ?_, fun k m t hm hc => ?_, fun k m hm => ?_⟩
    · rw [hnext]
      by_cases hk : k = key
      · subst hk
        rw [hself] at hm
        cases hm
        exact hlinkage.known k n hn
      · rw [hother k hk] at hm
        exact hlinkage.known k m hm
    · by_cases hk : k = key
      · subst hk
        rw [hself] at hm
        cases hm
        by_cases hk' : k' = k
        · exact hk'.symm
        · rw [hother k' hk'] at hm'
          exact hlinkage.distinct k k' n m' hn hm' hl
      · rw [hother k hk] at hm
        by_cases hk' : k' = key
        · subst hk'
          rw [hself] at hm'
          cases hm'
          exact hlinkage.distinct k k' m n hm hn hl
        · rw [hother k' hk'] at hm'
          exact hlinkage.distinct k k' m m' hm hm' hl
    · rw [hnext]
      rcases List.mem_append.mp htl with hold | hnew
      · obtain ⟨hlt, hlink⟩ := hlinkage.linked t hold
        refine ⟨hlt, fun k m hm hl => ?_⟩
        by_cases hk : k = key
        · subst hk
          rw [hself] at hm
          cases hm
          exact ⟨rfl, Nat.le_trans (hlink k n hn hl).2 hgrows.1⟩
        · rw [hother k hk] at hm
          exact hlink k m hm hl
      · have heq := hname t (Option.mem_toList.mp hnew)
        rw [heq]
        refine ⟨hlinkage.known key n hn, fun k m hm hl => ?_⟩
        by_cases hk : k = key
        · subst hk
          rw [hself] at hm
          cases hm
          exact ⟨rfl, Nat.le_refl _⟩
        · rw [hother k hk] at hm
          exact absurd (hlinkage.distinct k key m n hm hn hl) hk
    · by_cases hk : k = key
      · subst hk
        rw [hself] at hm
        cases hm
        exact ⟨hname t hc, List.mem_append_right _ (Option.mem_toList.mpr hc)⟩
      · rw [hother k hk] at hm
        obtain ⟨heq, hin⟩ := hlinkage.cell_eq k m t hm hc
        exact ⟨heq, List.mem_append_left _ hin⟩
    · by_cases hk : k = key
      · subst hk
        rw [hself] at hm
        cases hm
        simp only [Nested.spawned, Bool.true_and]
        split
        · rename_i hsup
          rw [hsup]
          rfl
        · rename_i hsup
          rw [Bool.eq_false_iff.mpr hsup]
          rfl
      · rw [hother k hk] at hm
        exact hlinkage.active k m hm
  case cells =>
    intro t
    by_cases hc : (n.spawned key).cell = some t
    · -- the new cell
      obtain ⟨hcall, hnot, hf⟩ := h.unlinked t (hfresh t hc)
      have hview : view { s with rt := rt', links := s.links ++ (n.spawned key).cell.toList } t =
          ⟨none, false, none, 0, none, entryOf rt' t, []⟩ := by
        simp only [view, hcells, if_pos hc, hcall, ht.rx_eq, List.count_eq_zero.mpr hnot, hh, handOf, hf]
      rw [hview]
      refine CellView.fresh_inv fun x hx => ?_
      obtain ⟨m, hm, -, hx⟩ := entryOf_some hx
      rw [hname t hc] at hm
      rw [hself] at hm
      cases hm
      exact hx.symm
    · have hv := h.cells t
      cases hentry : entryOf rt' t with
      | none =>
        have hview : view { s with rt := rt', links := s.links ++ (n.spawned key).cell.toList } t =
            { s.view t with noted := (s.view t).noted, entry := none } := by
          simp only [view, hcells, if_neg hc, hentry, ht.rx_eq]
        rw [hview]
        exact hv.close (Nat.le_refl _)
      | some x =>
        obtain ⟨m, hm, hcell, -⟩ := entryOf_some hentry
        have hk : t.key ≠ key := by
          intro hk
          rw [hk, hself] at hm
          cases hm
          exact hc hcell
        have hold : entryOf rt' t = entryOf s.rt t := by
          unfold entryOf
          rw [hother _ hk]
        have hview : view { s with rt := rt', links := s.links ++ (n.spawned key).cell.toList } t = s.view t := by
          simp only [view, hcells, if_neg hc, hold, ht.rx_eq]
        rw [hview]
        exact hv
  case unlinked =>
    intro t htl
    rw [ht.rx_eq]
    exact h.unlinked t fun hin => htl (List.mem_append_left _ hin)
  case handles =>
    show Handles _
    unfold Handles
    simp only [hh]
  case shown =>
    intro k m x hm hx
    by_cases hk : k = key
    · subst hk
      rw [hself] at hm
      cases hm
      cases hx
    · rw [hother k hk] at hm
      exact h.shown k m x hm hx
  case blank =>
    intro k m hm hnone
    by_cases hk : k = key
    · subst hk
      rw [hself] at hm
      cases hm
      rfl
    · rw [hother k hk] at hm
      exact h.blank k m hm hnone
  case gone =>
    intro hno
    have hno : s.receiving = false := hno
    rw [hr] at hno
    cases hno

theorem Inv.parent (h : s.Inv) (hh : s.handling = none) (hr : s.receiving = true) {links : List TaskMeta}
    {rt' : SupervisorRuntime} (hp : s.rt.Parents links rt') : Inv { s with rt := rt', links := s.links ++ links } := by
  have hnil : ∀ rt', Inv { s with rt := rt' } → Inv { s with rt := rt', links := s.links ++ [] } := by
    intro rt' hi
    rw [List.append_nil]
    exact hi
  cases hp with
  | aside ha =>
    refine hnil rt' (h.shrink s.receiving hh ha.cells_eq ha.lineage_eq (fun t => ?_) (fun k n' hn' => ?_) (fun t _ => ?_) fun hno => ?_)
    · exact Nat.le_of_eq (by rw [ha.rx_eq])
    · exact ⟨n', (ha.nested_eq k).symm.trans hn', .inl rfl⟩
    · rw [ha.rx_eq]
    · rw [hr] at hno
      cases hno
  | add d channels => exact hnil _ (h.add hh hr d channels)
  | spawn key hspawn =>
    obtain ⟨n, hn, ht, hnext, hcells⟩ := SupervisorRuntime.spawnChild_touches hspawn
    have hlink : rt'.link key = (n.spawned key).cell.toList := by
      unfold SupervisorRuntime.link
      rw [ht.nested_eq, Function.update_self]
      rfl
    rw [hlink]
    exact h.spawn hh hr hn ht hnext hcells
  | exit key generation status =>
    obtain ⟨ht, hcells, hnext⟩ := @SupervisorRuntime.recordExit_touches s.rt key generation status
    exact hnil _ (h.touched hh hr ht hcells hnext (.inr rfl))
  | remove key checkElapsedGrace hidle =>
    have hcell : ∀ n, s.rt.nested key = some n → n.cell = none := by
      intro n hn
      have hact := h.linkage.active key n hn
      obtain ⟨e, he, rfl⟩ := Option.map_eq_some_iff.mp hn
      have hno : e.nested.active = false := hidle e he
      rw [hno] at hact
      exact Option.isSome_eq_false_iff.mp hact |> Option.isNone_iff_eq_none.mp
    obtain ⟨ht, hcells, hnext⟩ := SupervisorRuntime.finalizeRemovedChild_touches checkElapsedGrace hcell
    exact hnil _ (h.touched hh hr ht hcells hnext (.inl rfl))

theorem Inv.drop (h : s.Inv) (hh : s.handling = none) : s.drop.Inv := by
  refine h.shrink false hh rfl rfl (fun t => Nat.zero_le _) (fun k n hn => ?_) (fun t hne => absurd ?_ hne) fun _ _ => rfl
  · cases hn
  · rfl

theorem step_inv (h : s.Inv) (hs : Step s s') : s'.Inv := by
  cases hs with
  | begin snapshot hmem hc => exact h.begin hmem hc snapshot
  | advance t => exact h.advance t
  | handle => exact h.handle
  | parent hh hr hp => exact h.parent hh hr hp
  | drop hh => exact h.drop hh

theorem reach_inv {cfg : RuntimeMeta} {b : Binding} (h : Reach cfg b s) : s.Inv := by
  induction h with
  | init =>
    exact ⟨⟨nofun, nofun, nofun, nofun, nofun⟩, fun t => CellView.fresh_inv nofun, fun t _ => ⟨rfl, List.not_mem_nil, rfl⟩, trivial,
      nofun, nofun, nofun⟩
  | step _ hs ih => exact step_inv ih hs

/-! ## What the entry shows -/

/-- With nothing under way the entry shows what the cell holds, and the cell the last
    forward. -/
theorem Inv.settled (h : s.Inv) (hrx : s.rt.nestedRx = []) (hcalls : ∀ t, s.calls t = none) (hh : s.handling = none)
    {k : ChildKey} {e : ChildEntry} (he : s.rt.children.get k = some e) (hact : e.runtime.state.isActive = true)
    (hsup : e.runtime.definition.kind.isSupervisor = true) :
    e.nestedSnapshot = (s.forwarded ⟨k, e.lineage, e.runtime.generation⟩).getLast? := by
  have hn : s.rt.nested k = some e.nested := by simp [SupervisorRuntime.nested, he]
  have hsome := h.linkage.active k e.nested hn
  rw [show e.nested.active = true from hact, show e.nested.isSupervisor = true from hsup] at hsome
  obtain ⟨t, hcell⟩ := Option.isSome_iff_exists.mp hsome
  obtain ⟨hkey, hentry⟩ := h.entry_iff hn hcell
  have hname := (h.linkage.cell_eq k e.nested t hn hcell).1
  have hv := h.cells t
  have hlatest : e.nestedSnapshot = (s.view t).latest := by
    rcases hv.value e.nestedSnapshot hentry with heq | ⟨c, hc, -⟩ | hnoted | hhand
    · exact heq
    · rw [show (s.view t).call = none from hcalls t] at hc
      cases hc
    · rw [show (s.view t).noted = 0 by simp [view, hrx]] at hnoted
      cases hnoted
    · exact absurd (by simp [view, hh, handOf]) hhand
  have hstored := hv.stored
  unfold CellView.Stored at hstored
  rw [show (s.view t).call = none from hcalls t] at hstored
  rw [hlatest, hstored, hname]
  rfl

/-- An entry changes under a notification only in the last step, and only if the
    notification is of its current spawn. -/
theorem Inv.changed (h : s.Inv) {k : ChildKey} {e : ChildEntry} (he : s.rt.children.get k = some e)
    (hne : s.handle.rt.children.get k ≠ some e) :
    s.handling = some (.reading k ⟨k, e.lineage, e.runtime.generation⟩) ∧
    s.handle.rt.children.get k =
      some { e with nestedSnapshot := (s.rt.snapshotCells ⟨k, e.lineage, e.runtime.generation⟩).latest } := by
  have hhandles := h.handles
  unfold Handles at hhandles
  unfold Forwarding.handle at hne ⊢
  cases hh : s.handling with
  | none =>
    rw [hh] at hne
    cases hrx : s.rt.nestedRx <;> simp only [hrx] at hne <;> exact absurd he hne
  | some phase =>
    rw [hh] at hne hhandles
    cases phase with
    | checking n =>
      simp only at hne
      split at hne
      · exact absurd he hne
      · split at hne
        · exact absurd he hne
        · split at hne <;> exact absurd he hne
    | dequeuing key cell => exact absurd he hne
    | reading key cell =>
      obtain ⟨n, hn, hcell⟩ := hhandles
      by_cases hk : k = key
      · subst hk
        have hname := (h.linkage.cell_eq k n cell hn hcell).1
        have hne : n = e.nested := by
          rw [SupervisorRuntime.nested, he] at hn
          exact (Option.some.inj hn).symm
        rw [hne] at hname
        subst hname
        refine ⟨rfl, ?_⟩
        show (s.rt.children.modify k _).get k = _
        rw [Slab.get_modify_self, he]
        rfl
      · refine absurd ?_ hne
        show (s.rt.children.modify key _).get k = _
        rw [Slab.get_modify_ne _ _ hk]
        exact he

/-- In every interleaving: with nothing under way, the entry of an active nested supervisor
    shows what its current generation forwarded last; at most one notification of a
    generation is in the channel; and an entry changes only under a notification of its
    current spawn, and only ever shows what that spawn forwarded. -/
theorem forwarding_complete {cfg : RuntimeMeta} {b : Binding} (h : Reach cfg b s) :
    (s.rt.nestedRx = [] → (∀ t, s.calls t = none) → s.handling = none →
      ∀ k e, s.rt.children.get k = some e → e.runtime.state.isActive = true →
        e.runtime.definition.kind.isSupervisor = true →
        e.nestedSnapshot = (s.forwarded ⟨k, e.lineage, e.runtime.generation⟩).getLast?) ∧
    (∀ t, s.rt.nestedRx.count t ≤ 1) ∧
    (∀ t, (s.advance t).rt.children = s.rt.children) ∧
    (∀ k e, s.rt.children.get k = some e → s.handle.rt.children.get k ≠ some e →
      s.handling = some (.reading k ⟨k, e.lineage, e.runtime.generation⟩) ∧
      s.handle.rt.children.get k =
        some { e with nestedSnapshot := (s.rt.snapshotCells ⟨k, e.lineage, e.runtime.generation⟩).latest }) ∧
    (∀ k e x, s.rt.children.get k = some e → e.nestedSnapshot = some x →
      x ∈ s.forwarded ⟨k, e.lineage, e.runtime.generation⟩) := by
  have hinv := reach_inv h
  refine ⟨?_, fun t => ?_, fun t => ?_, fun k e he hne => hinv.changed he hne, fun k e x he hx => ?_⟩
  · intro hrx hcalls hh k e he hact hsup
    exact hinv.settled hrx hcalls hh he hact hsup
  · have hle := (hinv.cells t).tokens_le
    unfold CellView.tokens at hle
    show (s.view t).noted ≤ 1
    omega
  · unfold Forwarding.advance
    simp only
    split <;> first | rfl | (split <;> rfl)
  · exact hinv.shown k e.nested x (by simp [SupervisorRuntime.nested, he]) hx

def scopeMeta : RuntimeMeta := ⟨pair.host, .oneForOne, .dynamic, .default, .default, false⟩

/-- A scope with a nested supervisor that has been spawned. -/
def withNested : Forwarding :=
  let rt := (SupervisorRuntime.blank scopeMeta nestedBinding).insertEntry { id := "n", kind := .supervisor 7 } (some ⟨7, true⟩)
  let rt' := (SupervisorRuntime.spawnChild 1 rt).2
  { initial scopeMeta nestedBinding with rt := rt', links := [] ++ rt'.link 1 }

theorem withNested_reach : Reach scopeMeta nestedBinding withNested := by
  refine (Reach.init.step (.parent rfl rfl (.add _ { id := "n", kind := .supervisor 7 } (some ⟨7, true⟩)))).step ?_
  have hspawn : ∃ generations, SupervisorRuntime.spawnChild 1 ((SupervisorRuntime.blank scopeMeta nestedBinding).insertEntry
      { id := "n", kind := .supervisor 7 } (some ⟨7, true⟩)) = (.ok generations, withNested.rt) := ⟨(none, 0), rfl⟩
  obtain ⟨generations, hspawn⟩ := hspawn
  exact .parent rfl rfl (.spawn 1 hspawn)

/-- The first spawn of the nested supervisor. -/
def firstSpawn : TaskMeta := ⟨1, 0, 0⟩

def viewAt (seq : Nat) : SupervisorSnapshot := ⟨.running, .ordered, .oneForOne, 0, seq, []⟩

/-- A second forward finds the flag up while the notification of the first is handled. -/
def coalesced : Forwarding :=
  let sent := (((withNested.begin firstSpawn (viewAt 1)).advance firstSpawn).advance firstSpawn).advance firstSpawn
  let again := ((sent.handle.handle.begin firstSpawn (viewAt 2)).advance firstSpawn).advance firstSpawn
  again.handle.handle

theorem coalesced_reach : Reach scopeMeta nestedBinding coalesced := by
  have hsent := (((withNested_reach.step (.begin (t := firstSpawn) (viewAt 1) (by decide) rfl)).step (.advance _ firstSpawn)).step
    (.advance _ firstSpawn)).step (.advance _ firstSpawn)
  have hagain := ((((hsent.step (.handle _)).step (.handle _)).step (.begin (t := firstSpawn) (viewAt 2) (by decide) rfl)).step
    (.advance _ firstSpawn)).step (.advance _ firstSpawn)
  exact (hagain.step (.handle _)).step (.handle _)

theorem coalesced_quiet : coalesced.rt.nestedRx = [] ∧ coalesced.handling.isNone = true ∧ ∀ t, coalesced.calls t = none := by
  refine ⟨by decide +kernel, by decide +kernel, fun t => ?_⟩
  by_cases ht : t = firstSpawn
  · rw [ht]
    have hnone : (coalesced.calls firstSpawn).isNone = true := by decide +kernel
    exact Option.isNone_iff_eq_none.mp hnone
  · have hlinks : coalesced.links = [firstSpawn] := by decide +kernel
    refine ((reach_inv coalesced_reach).unlinked t ?_).1
    rw [hlinks]
    simpa using ht

theorem forwarding_complete_coalesced :
    coalesced.rt.nestedRx = [] ∧ (coalesced.rt.children.get 1).map (·.nestedSnapshot) = some (some (viewAt 2)) ∧
    coalesced.rt.nestedRx.count firstSpawn ≤ 1 := by
  obtain ⟨hlast, hone, -⟩ := forwarding_complete coalesced_reach
  obtain ⟨hrx, hh, hcalls⟩ := coalesced_quiet
  refine ⟨hrx, ?_, hone firstSpawn⟩
  have hmeta : (coalesced.rt.children.get 1).map (fun e => (e.runtime.state.isActive, e.runtime.definition.kind.isSupervisor,
      e.lineage, e.runtime.generation)) = some (true, true, 0, 0) := by decide +kernel
  have hforwarded : (coalesced.forwarded firstSpawn).getLast? = some (viewAt 2) := by decide +kernel
  obtain ⟨e, he, hmeta⟩ := Option.map_eq_some_iff.mp hmeta
  simp only [Prod.mk.injEq] at hmeta
  obtain ⟨hact, hsup, hl, hg⟩ := hmeta
  rw [he, Option.map_some, hlast hrx hcalls (Option.isNone_iff_eq_none.mp hh) 1 e he hact hsup, hl, hg]
  exact congrArg some hforwarded

end Forwarding

end Kokage.Supervisor
