/-
  Kokage.Lifecycle.Hub — the lifecycle hub that all incarnations of one supervisor
  identity share, and the watches registered on it (`supervisor/lifecycle.rs`:
  `LifecycleHub`, `LifecycleTreeSink`, `LifecycleWatcher`, `ChildObservationWatch`;
  `supervisor/handle.rs`: `bind_prepared`, `publish_snapshot`, `observe_children`).

  `ι` names the incarnations. Every `Action` is one critical section or one atomic read,
  so a list of actions is an interleaving:
  - a child transition is `emit` (the sequence is assigned and the aligned snapshot
    published under the hub lock), then the forward's three steps: `chain` and `own` read
    the watcher counts, `stage` pushes under a second acquisition of the lock;
  - a plain publication is `view` (the runtime builds its snapshot, with the sequence it
    reads) and `publish`;
  - a registration is `register` (the count) and then `observe` or `watch` (the lock);
  - `ChildObservationWatch::next` pops (`next`) and, for a reset, reads the latest
    snapshot in a step of its own (`recoveryReset`).

  A snapshot is accepted only from the incarnation that owns the binding (`owner`). What
  an ancestor's watches receive is not part of this hub: whether the chain above has
  watchers is an argument of `chain`, and an event that comes up from a nested scope is
  the action `nested`. A bind reads the sequence and stores its baseline in one step.
  Sequences are unbounded.
-/

import Mathlib.Logic.Function.Basic
import Kokage.Supervisor.Types
import Kokage.Lifecycle.Queue

namespace Kokage.Lifecycle

open Kokage.Lib Kokage.Supervisor

/-! ## Events -/

structure ScopePathSegment where
  id : String
  lineage : Nat
  generation : Nat
  deriving DecidableEq, Repr

inductive LifecycleEventKind where
  | supervisor (kind : SupervisorEventKind)
  | child (event : ChildEvent)
  deriving DecidableEq, Repr

structure LifecycleEvent where
  scopePath : List ScopePathSegment
  kind : LifecycleEventKind
  deriving DecidableEq, Repr

def LifecycleEventKind.childIdentity : LifecycleEventKind → Option (String × Nat)
  | child event => some (event.childId, event.lineage)
  | supervisor _ => none

/-- The event a draft becomes under the sequence `seq`. -/
def childEvent (draft : LifecycleEventDraft) (seq : Nat) : ChildEvent where
  seq := seq
  childId := draft.childId
  lineage := draft.lineage
  totalRestarts := draft.totalRestarts
  childRestartCount := draft.childRestartCount
  kind := draft.kind

structure DirectChildFilter where
  id : String
  lineage : Option Nat
  deriving DecidableEq, Repr

namespace DirectChildFilter

def isPending (f : DirectChildFilter) : Bool := f.lineage.isNone

/-- `matches`: an event of the watched scope itself, of the child the filter names. -/
def accepts (f : DirectChildFilter) (e : LifecycleEvent) : Bool :=
  e.scopePath.isEmpty && e.kind.childIdentity.any fun c => c.1 = f.id && f.lineage.all (c.2 = ·)

/-- The same on a queued item: a lag marker has no child identity. -/
def acceptsItem (f : DirectChildFilter) (i : Item LifecycleEvent) : Bool := i.event?.any f.accepts

end DirectChildFilter

/-! ## Watches -/

inductive ChildObservationUpdate where
  | transition (event : ChildEvent)
  | reset (snapshot : SupervisorSnapshot) (dropped : Nat)

/-- A `ChildObservationWatch` beside the raw watch it reads from. -/
structure Observation where
  /-- The snapshot `observe_children` returned with the watch. -/
  initial : SupervisorSnapshot
  minimumSequence : Nat
  /-- The count of a reset that is due: its event is popped, the snapshot not yet read. -/
  resetting : Option Nat
  /-- Ghost: every update returned. -/
  updates : List ChildObservationUpdate

namespace Observation

/-- What `next` makes of the event it popped. -/
def take (o : Observation) : Item LifecycleEvent → Observation
  | .event ⟨_, .child event⟩ =>
    if o.minimumSequence < event.seq then { o with updates := o.updates ++ [.transition event] } else o
  | .lagged dropped => { o with resetting := some dropped }
  | .event ⟨_, .supervisor _⟩ => { o with resetting := some 0 }

def recoveryReset (o : Observation) (latest : SupervisorSnapshot) : Observation :=
  match o.resetting with
  | none => o
  | some dropped =>
    { o with
      minimumSequence := max o.minimumSequence latest.lifecycleSeq
      resetting := none
      updates := o.updates ++ [.reset latest dropped] }

end Observation

structure Watcher where
  recursive : EventQueue LifecycleEvent
  direct : EventQueue LifecycleEvent
  directChild : Option DirectChildFilter
  directOnly : Bool
  observation : Option Observation
  /-- Ghost: what the watch has popped since it took its present projection. -/
  received : List (Item LifecycleEvent)

namespace Watcher

/-- A raw watch, as `LifecycleHub::watch` returns it. -/
def new : Watcher := ⟨[], [], none, false, none, []⟩

/-- The watch `observe_children` returns with `snapshot`. -/
def observing (snapshot : SupervisorSnapshot) : Watcher :=
  { new with directOnly := true, observation := some ⟨snapshot, snapshot.lifecycleSeq, none, []⟩ }

/-- `push`: local events enter the direct queue, if its filter lets them; a filter that
    waits for its lineage takes them without a bound. Every event enters the recursive one. -/
def push (w : Watcher) (e : LifecycleEvent) : Watcher :=
  { w with
    direct :=
      if e.scopePath.isEmpty && w.directChild.all (·.accepts e) then
        if w.directChild.any (·.isPending) then w.direct.pushUnbounded e else w.direct.push e
      else w.direct
    recursive := w.recursive.push e }

/-- The queue the watch reads. -/
def queue (w : Watcher) : EventQueue LifecycleEvent := if w.directOnly then w.direct else w.recursive

def setQueue (w : Watcher) (q : EventQueue LifecycleEvent) : Watcher :=
  if w.directOnly then { w with direct := q } else { w with recursive := q }

/-- A pop of `next`. A call whose reset is due does not pop. -/
def next (w : Watcher) : Watcher :=
  if w.observation.any (·.resetting.isSome) then w
  else
    match w.queue with
    | [] => w
    | i :: rest => { w.setQueue rest with observation := w.observation.map (·.take i), received := w.received ++ [i] }

/-- The projections of a raw watch: `direct_children`, and `direct_child` or
    `pending_direct_child` with their filter. Each takes the watch and returns another. -/
def directChildren (w : Watcher) : Watcher := { w with directOnly := true, received := [] }

def retainDirectChild (w : Watcher) (f : DirectChildFilter) : Watcher :=
  let kept := w.direct.filter f.acceptsItem
  { w with
    direct := if f.isPending then kept else EventQueue.enforceCapacity kept
    directChild := some f
    directOnly := true
    received := [] }

end Watcher

/-! ## The hub -/

/-- Where an incarnation stands between two critical sections. -/
inductive Phase where
  | unbound
  | idle
  | viewed (snapshot : SupervisorSnapshot)
  | emitted (event : ChildEvent)
  | chained (event : ChildEvent)
  | routed (event : ChildEvent)
  | finished

/-- The event an incarnation has sequenced and not yet forwarded. -/
def Phase.pending : Phase → Option ChildEvent
  | .emitted event => some event
  | .chained event => some event
  | .routed event => some event
  | _ => none

structure Hub (ι : Type) where
  seq : Nat
  terminal : Bool
  bindingTerminal : Bool
  owner : Option ι
  latest : SupervisorSnapshot
  /-- Registrations that have raised the count and not yet taken the lock. -/
  registering : Nat
  watchers : List Watcher
  phase : ι → Phase

inductive HubAction (ι : Type) where
  | bind (i : ι) (baseline : SupervisorSnapshot)
  | release (i : ι)
  | emit (i : ι) (draft : LifecycleEventDraft) (view : SupervisorSnapshot)
  | chain (i : ι) (ancestors : Bool)
  | own (i : ι)
  | stage (i : ι)
  | aligned (i : ι) (kind : SupervisorEventKind) (view : SupervisorSnapshot)
  | view (i : ι) (view : SupervisorSnapshot)
  | publish (i : ι)
  | nested (segment : ScopePathSegment) (event : LifecycleEvent)
  | register
  | observe
  | watch
  | directChildren (w : Nat)
  | retainDirectChild (w : Nat) (f : DirectChildFilter)
  | intoInner (w : Nat)
  | next (w : Nat)
  | recoveryReset (w : Nat)
  | currentReset (w : Nat)
  | drop (w : Nat)
  | unbind
  | terminal

namespace Hub

variable {ι : Type} [DecidableEq ι]

/-- An identity at rest: `seq` transitions have been sequenced and published, nobody is
    bound and nobody watches. A reserved identity is one, with `seq = 0`. -/
def resting (seq : Nat) (snapshot : SupervisorSnapshot) : Hub ι where
  seq := seq
  terminal := false
  bindingTerminal := false
  owner := none
  latest := { snapshot with lifecycleSeq := seq }
  registering := 0
  watchers := []
  phase := fun _ => .unbound

def enter (h : Hub ι) (i : ι) (p : Phase) : Hub ι := { h with phase := Function.update h.phase i p }

/-- `StableSupervisorChannels::publish_snapshot`. -/
def accept (h : Hub ι) (i : ι) (snapshot : SupervisorSnapshot) : Hub ι :=
  if h.owner = some i then { h with latest := snapshot } else h

/-- `has_recursive_watchers`: every watch and every registration under way is counted. -/
def hasRecursiveWatchers (h : Hub ι) : Bool := 0 < h.watchers.length + h.registering

/-- The loop of `emit_recursive` and `emit_aligned`. -/
def pushAll (h : Hub ι) (e : LifecycleEvent) : Hub ι :=
  if h.terminal then h else { h with watchers := h.watchers.map (·.push e) }

/-- A registration takes the lock; a terminal hub keeps no watcher. -/
def enroll (h : Hub ι) (w : Watcher) : Hub ι :=
  if 0 < h.registering then
    { h with
      registering := h.registering - 1
      watchers := if h.terminal then h.watchers else h.watchers ++ [w] }
  else h

def onWatcher (h : Hub ι) (w : Nat) (f : Watcher → Watcher) : Hub ι := { h with watchers := h.watchers.modify w f }

/-- A projection is taken of a raw watch only. -/
def onRaw (f : Watcher → Watcher) (w : Watcher) : Watcher := if w.observation.isNone then f w else w

def step (h : Hub ι) : HubAction ι → Hub ι
  | .bind i baseline =>
    match h.phase i with
    | .unbound =>
      if h.bindingTerminal then h
      else { h.enter i .idle with owner := some i, latest := { baseline with lifecycleSeq := h.seq } }
    | _ => h
  | .release i =>
    match h.phase i with
    | .idle => { h.enter i .finished with owner := if h.owner = some i then none else h.owner }
    | _ => h
  | .emit i draft view =>
    match h.phase i with
    | .idle =>
      let h := { h with seq := h.seq + 1 }.enter i (.emitted (childEvent draft (h.seq + 1)))
      if h.terminal then h else h.accept i { view with lifecycleSeq := h.seq }
    | _ => h
  | .chain i ancestors =>
    match h.phase i with
    | .emitted event => h.enter i (if h.hasRecursiveWatchers || ancestors then .chained event else .idle)
    | _ => h
  | .own i =>
    match h.phase i with
    | .chained event => h.enter i (if h.hasRecursiveWatchers then .routed event else .idle)
    | _ => h
  | .stage i =>
    match h.phase i with
    | .routed event => (h.pushAll ⟨[], .child event⟩).enter i .idle
    | _ => h
  | .aligned i kind view =>
    match h.phase i with
    | .idle => (h.accept i { view with lifecycleSeq := h.seq }).pushAll ⟨[], .supervisor kind⟩
    | _ => h
  | .view i view =>
    match h.phase i with
    | .idle => h.enter i (.viewed { view with lifecycleSeq := h.seq })
    | _ => h
  | .publish i =>
    match h.phase i with
    | .viewed snapshot => (h.accept i snapshot).enter i .idle
    | _ => h
  | .nested segment event => h.pushAll { event with scopePath := segment :: event.scopePath }
  | .register => { h with registering := h.registering + 1 }
  | .observe => h.enroll (.observing h.latest)
  | .watch => h.enroll .new
  | .directChildren w => h.onWatcher w (onRaw Watcher.directChildren)
  | .retainDirectChild w f => h.onWatcher w (onRaw (·.retainDirectChild f))
  | .intoInner w => h.onWatcher w fun w => { w with observation := none }
  | .next w => h.onWatcher w Watcher.next
  | .recoveryReset w => h.onWatcher w fun x => { x with observation := x.observation.map (·.recoveryReset h.latest) }
  | .currentReset w =>
    h.onWatcher w fun x => { x with observation := x.observation.map fun o => { o with resetting := o.resetting.or (some 0) } }
  | .drop w => { h with watchers := h.watchers.eraseIdx w }
  | .unbind => { h with bindingTerminal := true, owner := none }
  | .terminal => { h with terminal := true }

def run (h : Hub ι) (actions : List (HubAction ι)) : Hub ι := actions.foldl step h

end Hub

/-- A scope with no children yet, and a first transition. -/
def bare : SupervisorSnapshot := ⟨.running, .ordered, .oneForOne, 0, 0, []⟩

def addedDraft : LifecycleEventDraft := ⟨"a", 0, 0, 0, .added⟩

theorem Hub.mem_onWatcher {ι : Type} {h : Hub ι} {n : Nat} {f : Watcher → Watcher} {w : Watcher}
    (hw : w ∈ (h.onWatcher n f).watchers) : w ∈ h.watchers ∨ ∃ w' ∈ h.watchers, f w' = w := by
  obtain ⟨k, hk⟩ := List.mem_iff_getElem?.mp hw
  unfold onWatcher at hk
  rw [List.getElem?_modify] at hk
  split at hk
  · obtain ⟨w', hw', hf⟩ := Option.map_eq_some_iff.mp hk
    exact .inr ⟨w', List.mem_of_getElem? hw', hf⟩
  · exact .inl (List.mem_of_getElem? (by simpa using hk))

/-! ## The sequences a queue holds -/

/-- The sequence of a direct child event. -/
def directSeq : Item LifecycleEvent → Option Nat
  | .event ⟨[], .child event⟩ => some event.seq
  | _ => none

def directSeqs (items : List (Item LifecycleEvent)) : List Nat := items.filterMap directSeq

@[simp] theorem directSeqs_nil : directSeqs [] = [] := rfl

@[simp] theorem directSeqs_append (xs ys : List (Item LifecycleEvent)) :
    directSeqs (xs ++ ys) = directSeqs xs ++ directSeqs ys := List.filterMap_append

@[simp] theorem directSeqs_child (event : ChildEvent) : directSeqs [.event ⟨[], .child event⟩] = [event.seq] := rfl

@[simp] theorem directSeqs_supervisor (kind : SupervisorEventKind) (path : List ScopePathSegment) :
    directSeqs [.event ⟨path, .supervisor kind⟩] = [] := by
  cases path <;> rfl

@[simp] theorem directSeqs_nested (segment : ScopePathSegment) (path : List ScopePathSegment)
    (kind : LifecycleEventKind) : directSeqs [.event ⟨segment :: path, kind⟩] = [] := rfl

namespace EventQueue

variable {E : Type}

/-- The front of the queue is a marker. -/
def Lags (q : EventQueue E) : Prop := q.head?.any (·.isLagged) = true

theorem recordDrop_eq_or_lags (q : EventQueue E) : recordDrop q = q ∨ Lags (recordDrop q) := by
  unfold recordDrop
  split
  · exact .inr rfl
  · exact .inr rfl
  · exact .inl rfl

/-- A queue that a push had to shrink starts with a marker. -/
theorem shrink_eq_or_lags (limit : Nat) : ∀ (fuel : Nat) (q : EventQueue E),
    shrink limit fuel q = q ∨ Lags (shrink limit fuel q)
  | 0, _ => .inl rfl
  | fuel + 1, q => by
    unfold shrink
    split
    · rcases shrink_eq_or_lags limit fuel (recordDrop q) with heq | hlags
      · rw [heq]
        exact recordDrop_eq_or_lags q
      · exact .inr hlags
    · exact .inl rfl

theorem recordDrop_directSeqs (q : EventQueue LifecycleEvent) : directSeqs (recordDrop q) <:+ directSeqs q := by
  have hcons : ∀ (i j : Item LifecycleEvent) (rest : EventQueue LifecycleEvent), directSeq j = none →
      directSeqs (j :: rest) <:+ directSeqs (i :: rest) := by
    intro i j rest hj
    have hj' : directSeqs (j :: rest) = directSeqs rest := by simp [directSeqs, hj]
    have hi : directSeqs (i :: rest) = directSeqs [i] ++ directSeqs rest := directSeqs_append [i] rest
    rw [hj', hi]
    exact List.suffix_append ..
  unfold recordDrop
  split
  · rename_i dropped second rest
    exact hcons second (.lagged (dropped + 1)) rest rfl
  · rename_i e rest
    exact hcons (.event e) (.lagged 1) rest rfl
  · exact List.suffix_refl _

theorem shrink_directSeqs (limit fuel : Nat) (q : EventQueue LifecycleEvent) :
    directSeqs (shrink limit fuel q) <:+ directSeqs q :=
  shrink_keeps (P := fun q' => directSeqs q' <:+ directSeqs q)
    (fun q' hq => (recordDrop_directSeqs q').trans hq) limit fuel (List.suffix_refl _)

end EventQueue

end Kokage.Lifecycle
