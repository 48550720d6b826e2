/-
  Kokage.Lifecycle.Chain — lifecycle events on their way up a tree of scopes
  (`supervisor/lifecycle.rs`: `LifecycleTreeSink`, and of `LifecycleHub` its recursive
  watchers and their count).

  `H` names the hubs, `I` the incarnations that emit and `W` the watches. A pass up the
  chain reads watcher counts to leave out hubs, and the rest of the chain, on which nobody
  watches. Each read and each critical section is one `TreeAction`, so that registrations,
  drops and the passes of other incarnations fall between any two of them:
  - a registration is `register` (the count goes up) and `enlist` (the lock: the watcher
    enters the hub's list);
  - a drop of a watch is `dropWatch` (the count goes down) and `release` (the last strong
    reference goes);
  - an emission is `emitAligned` or `forwardChild`, and then as many `advance` as it takes.

  `forwarding_faithful`: a watch receives what it would receive if every event were pushed
  on every hub above its emitter (`unconditional`). A watch is here the list of what was
  pushed on it; `Kokage.Lifecycle.Queue` says what its queue makes of that.
-/

import Mathlib.Logic.Function.Basic
import Mathlib.Data.Finset.Card
import Mathlib.Data.List.Basic
import Kokage.Lifecycle.Hub

namespace Kokage.Lifecycle

variable {H I W : Type}

/-! ## The chain -/

inductive LifecycleTreeSink (H : Type) where
  | root (hub : H)
  | nested (hub : H) (parent : LifecycleTreeSink H) (segment : ScopePathSegment)

namespace LifecycleTreeSink

def hub : LifecycleTreeSink H → H
  | root hub => hub
  | nested hub _ _ => hub

/-- The hubs of the chain, innermost first. -/
def hubs : LifecycleTreeSink H → List H
  | root hub => [hub]
  | nested hub parent _ => hub :: parent.hubs

end LifecycleTreeSink

def prependPath (event : LifecycleEvent) (segment : ScopePathSegment) : LifecycleEvent :=
  { event with scopePath := segment :: event.scopePath }

/-- Forwarding without any test: the event of a scope, on every hub of its chain. -/
def unconditional : LifecycleTreeSink H → LifecycleEvent → List (H × LifecycleEvent)
  | .root hub, event => [(hub, event)]
  | .nested hub parent segment, event => (hub, event) :: unconditional parent (prependPath event segment)

/-! ## Hubs, watches and passes -/

structure TreeHub (W : Type) where
  recursiveWatcherCount : Nat
  recursiveWatchers : List W
  terminal : Bool

/-- An event on a watch, with its emitter and its number among that emitter's. -/
structure Staged (I : Type) where
  emitter : I
  serial : Nat
  event : LifecycleEvent

structure TreeWatch (H I : Type) where
  hub : H
  /-- The watch is in its hub's count: `watcher_count` is not yet taken. -/
  counted : Bool
  strong : Bool
  enlisted : Bool
  /-- Ghost: how many events each incarnation had emitted when the watch was enlisted. -/
  since : I → Nat
  staged : List (Staged I)

/-- Where an incarnation stands in its pass. In `checking site event scan` it evaluates
    `has_recursive_watchers_in_chain` of `site`, with the hub of `scan` the next it reads;
    `event` is what it forwards to `site` if that is true. -/
inductive Pass (H : Type) where
  | idle
  | aligning (event : LifecycleEvent)
  | checking (site : LifecycleTreeSink H) (event : LifecycleEvent) (scan : LifecycleTreeSink H)
  | visiting (site : LifecycleTreeSink H) (event : LifecycleEvent)
  | staging (site : LifecycleTreeSink H) (event : LifecycleEvent)

structure ScopeTree (H I W : Type) where
  hubs : H → TreeHub W
  watches : W → Option (TreeWatch H I)
  /-- Ghost: what each incarnation has emitted. -/
  emitted : I → List LifecycleEventKind
  pass : I → Pass H

inductive TreeAction (H I W : Type) where
  | register (w : W) (h : H)
  | enlist (w : W)
  | dropWatch (w : W)
  | release (w : W)
  | terminal (h : H)
  | emitAligned (i : I) (kind : LifecycleEventKind)
  | forwardChild (i : I) (kind : LifecycleEventKind)
  | advance (i : I)

namespace ScopeTree

variable [DecidableEq H] [DecidableEq I] [DecidableEq W]

def start : ScopeTree H I W where
  hubs _ := ⟨0, [], false⟩
  watches _ := none
  emitted _ := []
  pass _ := .idle

def onHub (T : ScopeTree H I W) (h : H) (f : TreeHub W → TreeHub W) : ScopeTree H I W :=
  { T with hubs := Function.update T.hubs h (f (T.hubs h)) }

def setWatch (T : ScopeTree H I W) (w : W) (t : TreeWatch H I) : ScopeTree H I W :=
  { T with watches := Function.update T.watches w (some t) }

def enter (T : ScopeTree H I W) (i : I) (p : Pass H) : ScopeTree H I W := { T with pass := Function.update T.pass i p }

/-- A weak reference that can still be upgraded. -/
def strong (T : ScopeTree H I W) (w : W) : Bool := (T.watches w).any (·.strong)

/-- The `retain` of `watch` and of the two `emit`s. -/
def retain (T : ScopeTree H I W) (h : H) : ScopeTree H I W :=
  T.onHub h fun hub => { hub with recursiveWatchers := hub.recursiveWatchers.filter T.strong }

/-- `emit_recursive`, and the watchers' part of `emit_aligned`: each reference of the list
    that can be upgraded gets a copy. -/
def emitRecursive (T : ScopeTree H I W) (h : H) (i : I) (event : LifecycleEvent) : ScopeTree H I W :=
  if (T.hubs h).terminal then T
  else
    let item : Staged I := ⟨i, (T.emitted i).length - 1, event⟩
    { T.retain h with
      watches := fun w => (T.watches w).map fun t =>
        { t with staged := t.staged ++ List.replicate (((T.hubs h).recursiveWatchers.filter T.strong).count w) item } }

/-- The way on from a site: the parent, if there is one and its chain has watchers. -/
def climb (T : ScopeTree H I W) (i : I) (event : LifecycleEvent) : LifecycleTreeSink H → ScopeTree H I W
  | .root _ => T.enter i .idle
  | .nested _ parent segment => T.enter i (.checking parent (prependPath event segment) parent)

def hasRecursiveWatchers (T : ScopeTree H I W) (h : H) : Bool := 0 < (T.hubs h).recursiveWatcherCount

def advance (sink : I → LifecycleTreeSink H) (T : ScopeTree H I W) (i : I) : ScopeTree H I W :=
  match T.pass i with
  | .idle => T
  | .aligning event => (T.emitRecursive (sink i).hub i event).climb i event (sink i)
  | .checking site event scan =>
    if T.hasRecursiveWatchers scan.hub then T.enter i (.visiting site event)
    else
      match scan with
      | .root _ => T.enter i .idle
      | .nested _ parent _ => T.enter i (.checking site event parent)
  | .visiting site event =>
    if T.hasRecursiveWatchers site.hub then T.enter i (.staging site event) else T.climb i event site
  | .staging site event => (T.emitRecursive site.hub i event).climb i event site

/-- An emission begins, if the incarnation is not in the middle of another. -/
def emit (T : ScopeTree H I W) (i : I) (kind : LifecycleEventKind) (p : Pass H) : ScopeTree H I W :=
  match T.pass i with
  | .idle => { T.enter i p with emitted := Function.update T.emitted i (T.emitted i ++ [kind]) }
  | _ => T

def step (sink : I → LifecycleTreeSink H) (T : ScopeTree H I W) : TreeAction H I W → ScopeTree H I W
  | .register w h =>
    match T.watches w with
    | some _ => T
    | none =>
      (T.onHub h fun hub => { hub with recursiveWatcherCount := hub.recursiveWatcherCount + 1 }).setWatch w
        { hub := h, counted := true, strong := true, enlisted := false, since := fun _ => 0, staged := [] }
  | .enlist w =>
    match T.watches w with
    | none => T
    | some t =>
      if t.enlisted || !t.counted then T
      else if (T.hubs t.hub).terminal then
        ((T.retain t.hub).onHub t.hub fun hub =>
          { hub with recursiveWatcherCount := hub.recursiveWatcherCount - 1 }).setWatch w { t with counted := false }
      else
        ((T.retain t.hub).onHub t.hub fun hub =>
          { hub with recursiveWatchers := hub.recursiveWatchers ++ [w] }).setWatch w
          { t with enlisted := true, since := fun i => (T.emitted i).length }
  | .dropWatch w =>
    match T.watches w with
    | none => T
    | some t =>
      if t.enlisted && t.counted then
        (T.onHub t.hub fun hub => { hub with recursiveWatcherCount := hub.recursiveWatcherCount - 1 }).setWatch w
          { t with counted := false }
      else T
  | .release w =>
    match T.watches w with
    | none => T
    | some t => if t.counted then T else T.setWatch w { t with strong := false }
  | .terminal h => T.onHub h fun hub => { hub with terminal := true, recursiveWatchers := [] }
  | .emitAligned i kind => T.emit i kind (.aligning ⟨[], kind⟩)
  | .forwardChild i kind => T.emit i kind (.checking (sink i) ⟨[], kind⟩ (sink i))
  | .advance i => T.advance sink i

def run (sink : I → LifecycleTreeSink H) (actions : List (TreeAction H I W)) : ScopeTree H I W :=
  actions.foldl (step sink) start

end ScopeTree

/-! ## Paths -/

namespace LifecycleTreeSink

/-- The segments from the scope of hub `h` down to this one, outermost first. -/
def pathFrom [DecidableEq H] : LifecycleTreeSink H → H → Option (List ScopePathSegment)
  | root hub, h => if h = hub then some [] else none
  | nested hub parent segment, h => if h = hub then some [] else (parent.pathFrom h).map (· ++ [segment])

/-- `site` is this scope or one above it, and `path` what an event has gathered on its way
    there. -/
inductive Reaches (own : LifecycleTreeSink H) : LifecycleTreeSink H → List ScopePathSegment → Prop
  | self : Reaches own own []
  | up {hub : H} {parent : LifecycleTreeSink H} {segment : ScopePathSegment} {path : List ScopePathSegment} :
      Reaches own (.nested hub parent segment) path → Reaches own parent (segment :: path)

theorem hub_mem (s : LifecycleTreeSink H) : s.hub ∈ s.hubs := by
  cases s with
  | root hub => exact List.mem_singleton_self hub
  | nested hub parent segment => exact List.mem_cons_self ..

theorem Reaches.suffix {own site : LifecycleTreeSink H} {path : List ScopePathSegment} (h : Reaches own site path) :
    site.hubs <:+ own.hubs := by
  induction h with
  | self => exact List.suffix_rfl
  | up _ ih => exact (List.suffix_cons _ _).trans ih

variable [DecidableEq H]

theorem pathFrom_none {own : LifecycleTreeSink H} {h : H} : own.pathFrom h = none ↔ h ∉ own.hubs := by
  induction own with
  | root hub =>
    by_cases hh : h = hub
    · simp [pathFrom, hubs, hh]
    · simp [pathFrom, hubs, hh]
  | nested hub parent segment ih =>
    by_cases hh : h = hub
    · simp [pathFrom, hubs, hh]
    · simp [pathFrom, hubs, hh, ih]

/-- Above a site, the segments gathered so far are the lower end of every path. -/
theorem Reaches.pathFrom_eq {own site : LifecycleTreeSink H} {path : List ScopePathSegment} (hnd : own.hubs.Nodup)
    (hr : Reaches own site path) : ∀ h ∈ site.hubs, own.pathFrom h = (site.pathFrom h).map (· ++ path) := by
  induction hr with
  | self =>
    intro h _
    simp
  | @up hub parent segment path hr ih =>
    intro h hh
    have hne : h ≠ hub := by
      have hnd' : (hub :: parent.hubs).Nodup := hnd.sublist hr.suffix.sublist
      exact fun heq => (List.nodup_cons.mp hnd').1 (heq ▸ hh)
    rw [ih h (List.mem_cons_of_mem _ hh)]
    simp [pathFrom, hne, Function.comp_def]

theorem Reaches.pathFrom_hub {own site : LifecycleTreeSink H} {path : List ScopePathSegment} (hnd : own.hubs.Nodup)
    (hr : Reaches own site path) : own.pathFrom site.hub = some path := by
  rw [hr.pathFrom_eq hnd _ site.hub_mem]
  cases site with
  | root hub => simp [pathFrom, LifecycleTreeSink.hub]
  | nested hub parent segment => simp [pathFrom, LifecycleTreeSink.hub]

/-- Unconditional forwarding leaves one copy on each hub of the chain. -/
theorem unconditional_at {own : LifecycleTreeSink H} (hnd : own.hubs.Nodup) (event : LifecycleEvent) (h : H) :
    (unconditional own event).filterMap (fun d => if d.1 = h then some d.2 else none) =
      ((own.pathFrom h).map fun path => (⟨path ++ event.scopePath, event.kind⟩ : LifecycleEvent)).toList := by
  induction own generalizing event with
  | root hub =>
    by_cases hh : h = hub
    · simp [unconditional, pathFrom, hh]
    · simp [unconditional, pathFrom, hh, Ne.symm hh]
  | nested hub parent segment ih =>
    obtain ⟨hfresh, hnd'⟩ := List.nodup_cons.mp hnd
    have hup := ih hnd' (prependPath event segment)
    by_cases hh : h = hub
    · subst hh
      rw [pathFrom_none.mpr hfresh] at hup
      simp [unconditional, pathFrom, hup]
    · simp only [unconditional, List.filterMap_cons, if_neg (Ne.symm hh), hup]
      cases hp : parent.pathFrom h with
      | none => simp [pathFrom, hh, hp]
      | some path => simp [pathFrom, hh, hp, prependPath]

end LifecycleTreeSink

/-! ## The counts cover the watches -/

/-- `c` counts what `p` holds of. -/
def Tally (p : H → W → Prop) (c : H → Nat) : Prop := ∀ h, ∃ s : Finset W, s.card = c h ∧ ∀ w, w ∈ s ↔ p h w

namespace Tally

variable {p p' : H → W → Prop} {c c' : H → Nat}

theorem pos (ht : Tally p c) {h : H} {w : W} (hp : p h w) : 0 < c h := by
  obtain ⟨s, hcard, hmem⟩ := ht h
  rw [← hcard]
  exact Finset.card_pos.mpr ⟨w, (hmem w).mpr hp⟩

theorem join [DecidableEq W] (ht : Tally p c) (h₀ : H) (w₀ : W) (hnew : ¬ p h₀ w₀)
    (hp : ∀ h w, p' h w ↔ p h w ∨ h = h₀ ∧ w = w₀) (hc : c' h₀ = c h₀ + 1) (hne : ∀ h, h ≠ h₀ → c' h = c h) :
    Tally p' c' := by
  intro h
  obtain ⟨s, hcard, hmem⟩ := ht h
  by_cases hh : h = h₀
  · subst hh
    have hout : w₀ ∉ s := fun hin => hnew ((hmem w₀).mp hin)
    refine ⟨insert w₀ s, by rw [Finset.card_insert_of_notMem hout, hcard, hc], fun w => ?_⟩
    rw [Finset.mem_insert, hmem, hp]
    exact ⟨fun h => h.elim (fun h => .inr ⟨rfl, h⟩) .inl, fun h => h.elim .inr fun h => .inl h.2⟩
  · refine ⟨s, hcard.trans (hne h hh).symm, fun w => ?_⟩
    rw [hmem, hp]
    exact ⟨.inl, fun h => h.elim id fun h => absurd h.1 hh⟩

theorem leave [DecidableEq W] (ht : Tally p c) (h₀ : H) (w₀ : W) (hold : p h₀ w₀) (honly : ∀ h, p h w₀ → h = h₀)
    (hp : ∀ h w, p' h w ↔ p h w ∧ w ≠ w₀) (hc : c' h₀ = c h₀ - 1) (hne : ∀ h, h ≠ h₀ → c' h = c h) :
    Tally p' c' := by
  intro h
  obtain ⟨s, hcard, hmem⟩ := ht h
  by_cases hh : h = h₀
  · subst hh
    refine ⟨s.erase w₀, by rw [Finset.card_erase_of_mem ((hmem w₀).mpr hold), hcard, hc], fun w => ?_⟩
    rw [Finset.mem_erase, hmem, hp]
    exact and_comm
  · refine ⟨s, hcard.trans (hne h hh).symm, fun w => ?_⟩
    rw [hmem, hp]
    exact ⟨fun hw => ⟨hw, fun heq => hh (honly h (heq ▸ hw))⟩, And.left⟩

end Tally

namespace ScopeTree

variable {T T' : ScopeTree H I W}

/-- Watch `w` is in the count of hub `h`. -/
def Holds (T : ScopeTree H I W) (h : H) (w : W) : Prop := ∃ t, T.watches w = some t ∧ t.hub = h ∧ t.counted = true

/-- The counts and the lists are kept apart from each other; both agree with the watches. -/
structure Counted (T : ScopeTree H I W) : Prop where
  tally : Tally T.Holds fun h => (T.hubs h).recursiveWatcherCount
  held : ∀ w t, T.watches w = some t → t.counted = true → t.strong = true
  nodup : ∀ h, (T.hubs h).recursiveWatchers.Nodup
  listed : ∀ h, ∀ w ∈ (T.hubs h).recursiveWatchers, ∃ t, T.watches w = some t ∧ t.hub = h ∧ t.enlisted = true
  present : ∀ w t, T.watches w = some t → t.enlisted = true → t.counted = true →
    (T.hubs t.hub).terminal = false → w ∈ (T.hubs t.hub).recursiveWatchers

namespace Counted

theorem start : (start : ScopeTree H I W).Counted :=
  ⟨fun _ => ⟨∅, rfl, fun _ => ⟨nofun, nofun⟩⟩, nofun, fun _ => List.nodup_nil, nofun, nofun⟩

theorem watched (hc : T.Counted) {w : W} {t : TreeWatch H I} (hw : T.watches w = some t) (ht : t.counted = true) :
    T.hasRecursiveWatchers t.hub = true :=
  decide_eq_true (hc.tally.pos ⟨t, hw, rfl, ht⟩)

variable [DecidableEq H]

theorem mem_retain {h h' : H} {w : W} :
    w ∈ ((T.retain h).hubs h').recursiveWatchers ↔
      w ∈ (T.hubs h').recursiveWatchers ∧ (h' = h → T.strong w = true) := by
  by_cases hh : h' = h
  · subst hh
    simp [retain, onHub]
  · simp [retain, onHub, hh]

theorem retain (hc : T.Counted) (h : H) : (T.retain h).Counted := by
  have hcount : ∀ h', ((T.retain h).hubs h').recursiveWatcherCount = (T.hubs h').recursiveWatcherCount ∧
      ((T.retain h).hubs h').terminal = (T.hubs h').terminal := by
    intro h'
    by_cases hh : h' = h
    · subst hh
      simp [ScopeTree.retain, onHub]
    · simp [ScopeTree.retain, onHub, hh]
  refine ⟨?_, hc.held, fun h' => ?_, fun h' w hw => hc.listed h' w (mem_retain.mp hw).1, fun w t hw he ht hlive => ?_⟩
  · have hsame : (fun h' => ((T.retain h).hubs h').recursiveWatcherCount) = fun h' => (T.hubs h').recursiveWatcherCount :=
      funext fun h' => (hcount h').1
    rw [hsame]
    exact hc.tally
  · by_cases hh : h' = h
    · subst hh
      simpa [ScopeTree.retain, onHub] using (hc.nodup h').filter _
    · simpa [ScopeTree.retain, onHub, hh] using hc.nodup h'
  · rw [(hcount _).2] at hlive
    refine mem_retain.mpr ⟨hc.present w t hw he ht hlive, fun _ => ?_⟩
    have hs : (T.watches w).any (·.strong) = true := by
      rw [show T.watches w = some t from hw]
      exact hc.held w t hw ht
    exact hs

theorem terminal (hc : T.Counted) (h : H) :
    (T.onHub h fun hub => { hub with terminal := true, recursiveWatchers := [] }).Counted := by
  have hsame : (fun h' => ((T.onHub h fun hub => { hub with terminal := true, recursiveWatchers := [] }).hubs
      h').recursiveWatcherCount) = fun h' => (T.hubs h').recursiveWatcherCount := by
    funext h'
    by_cases hh : h' = h
    · subst hh
      simp [onHub]
    · simp [onHub, hh]
  refine ⟨?_, hc.held, fun h' => ?_, fun h' w hw => ?_, fun w t hw he ht hlive => ?_⟩
  · rw [hsame]
    exact hc.tally
  · by_cases hh : h' = h
    · simp [onHub, hh]
    · simpa [onHub, hh] using hc.nodup h'
  · by_cases hh : h' = h
    · simp [onHub, hh] at hw
    · exact hc.listed h' w (by simpa [onHub, hh] using hw)
  · by_cases hh : t.hub = h
    · simp [onHub, hh] at hlive
    · simpa [onHub, hh] using hc.present w t hw he ht (by simpa [onHub, hh] using hlive)

variable {w : W} {t : TreeWatch H I}

omit [DecidableEq H] in
/-- One watch changes, and no list of watchers. -/
theorem edit (hc : T.Counted) (hlists : ∀ h, (T'.hubs h).recursiveWatchers = (T.hubs h).recursiveWatchers ∧
      (T'.hubs h).terminal = (T.hubs h).terminal)
    (hother : ∀ v, v ≠ w → T'.watches v = T.watches v) (hself : T'.watches w = some t)
    (htally : Tally T'.Holds fun h => (T'.hubs h).recursiveWatcherCount) (hstrong : t.counted = true → t.strong = true)
    (hkept : ∀ t', T.watches w = some t' → t'.enlisted = true → t.hub = t'.hub ∧ t.enlisted = true)
    (hcame : t.enlisted = true → t.counted = true →
      ∃ t', T.watches w = some t' ∧ t'.hub = t.hub ∧ t'.enlisted = true ∧ t'.counted = true) : T'.Counted := by
  refine ⟨htally, fun v t' hv ht' => ?_, fun h => ?_, fun h v hv => ?_, fun v t' hv he' ht' hlive => ?_⟩
  · by_cases hvw : v = w
    · subst hvw
      rw [hself] at hv
      cases hv
      exact hstrong ht'
    · exact hc.held v t' (hother v hvw ▸ hv) ht'
  · rw [(hlists h).1]
    exact hc.nodup h
  · rw [(hlists h).1] at hv
    obtain ⟨t', hv', hh, he'⟩ := hc.listed h v hv
    by_cases hvw : v = w
    · subst hvw
      obtain ⟨hsame, he⟩ := hkept t' hv' he'
      exact ⟨t, hself, hsame.trans hh, he⟩
    · exact ⟨t', (hother v hvw).trans hv', hh, he'⟩
  · rw [(hlists _).2] at hlive
    rw [(hlists _).1]
    by_cases hvw : v = w
    · subst hvw
      rw [hself] at hv
      cases hv
      obtain ⟨t₀, h₀, hhub, he₀, hc₀⟩ := hcame he' ht'
      rw [← hhub] at hlive ⊢
      exact hc.present v t₀ h₀ he₀ hc₀ hlive
    · exact hc.present v t' (hother v hvw ▸ hv) he' ht' hlive

variable [DecidableEq W]

theorem register (hc : T.Counted) (hw : T.watches w = none) (hs : t.strong = true) (ht : t.counted = true)
    (he : t.enlisted = false) :
    ((T.onHub t.hub fun hub => { hub with recursiveWatcherCount := hub.recursiveWatcherCount + 1 }).setWatch w
      t).Counted := by
  refine hc.edit (w := w) (t := t) (fun h => ?_) (fun v hv => ?_) ?_ (hc.tally.join t.hub w ?_
    (fun h v => ?_) ?_ fun h hh => ?_) (fun _ => hs) (fun t' hw' _ => ?_) (fun he' _ => ?_)
  · by_cases hh : h = t.hub
    · simp [onHub, setWatch, hh]
    · simp [onHub, setWatch, hh]
  · simp [onHub, setWatch, hv]
  · simp [setWatch]
  · intro ⟨t', hw', _⟩
    rw [hw] at hw'
    cases hw'
  · by_cases hv : v = w
    · subst hv
      simp only [Holds, setWatch, onHub, hw, Function.update_self]
      constructor
      · intro ⟨t', heq, hh, _⟩
        cases heq
        exact .inr ⟨hh.symm, trivial⟩
      · intro hh
        rcases hh with ⟨t', heq, _⟩ | ⟨hh, _⟩
        · cases heq
        · exact ⟨t, rfl, hh.symm, ht⟩
    · simp [Holds, setWatch, onHub, hv]
  · simp [setWatch, onHub]
  · simp [setWatch, onHub, hh]
  · rw [hw] at hw'
    cases hw'
  · rw [he] at he'
    cases he'

theorem uncount (hc : T.Counted) (hw : T.watches w = some t) (ht : t.counted = true) :
    ((T.onHub t.hub fun hub => { hub with recursiveWatcherCount := hub.recursiveWatcherCount - 1 }).setWatch w
      { t with counted := false }).Counted := by
  refine hc.edit (w := w) (t := { t with counted := false }) (fun h => ?_) (fun v hv => ?_) ?_
    (hc.tally.leave t.hub w ⟨t, hw, rfl, ht⟩ (fun h hp => ?_) (fun h v => ?_) ?_ fun h hh => ?_)
    nofun (fun t' hw' he' => ?_) (fun _ => nofun)
  · by_cases hh : h = t.hub
    · simp [onHub, setWatch, hh]
    · simp [onHub, setWatch, hh]
  · simp [onHub, setWatch, hv]
  · simp [setWatch]
  · obtain ⟨t', hw', hh, _⟩ := hp
    rw [hw] at hw'
    cases hw'
    exact hh.symm
  · by_cases hv : v = w
    · subst hv
      simp [Holds, setWatch]
    · simp [Holds, setWatch, onHub, hv]
  · simp [setWatch, onHub]
  · simp [setWatch, onHub, hh]
  · rw [hw] at hw'
    cases hw'
    exact ⟨rfl, he'⟩

omit [DecidableEq H] in
theorem release (hc : T.Counted) (hw : T.watches w = some t) (ht : t.counted = false) :
    (T.setWatch w { t with strong := false }).Counted := by
  have hholds : (T.setWatch w { t with strong := false }).Holds = T.Holds := by
    funext h v
    by_cases hv : v = w
    · subst hv
      simp [Holds, setWatch, hw, ht]
    · simp [Holds, setWatch, hv]
  refine hc.edit (w := w) (t := { t with strong := false }) (fun h => ⟨rfl, rfl⟩) (fun v hv => ?_) ?_
    (hholds ▸ hc.tally) (fun h => ?_) (fun t' hw' he' => ?_) (fun _ h => ?_)
  · simp [setWatch, hv]
  · simp [setWatch]
  · rw [ht] at h
    cases h
  · rw [hw] at hw'
    cases hw'
    exact ⟨rfl, he'⟩
  · rw [ht] at h
    cases h

theorem enlist (hc : T.Counted) (hw : T.watches w = some t) (ht : t.counted = true) (he : t.enlisted = false)
    (since : I → Nat) :
    ((T.onHub t.hub fun hub => { hub with recursiveWatchers := hub.recursiveWatchers ++ [w] }).setWatch w
      { t with enlisted := true, since }).Counted := by
  generalize hT' : (T.onHub t.hub fun hub => { hub with recursiveWatchers := hub.recursiveWatchers ++ [w] }).setWatch w
      { t with enlisted := true, since } = T'
  have hother : ∀ v, v ≠ w → T'.watches v = T.watches v := fun v hv => by simp [← hT', setWatch, onHub, hv]
  have hself : T'.watches w = some { t with enlisted := true, since } := by simp [← hT', setWatch]
  have hhubs : ∀ h, (T'.hubs h).recursiveWatchers = (T.hubs h).recursiveWatchers ++ (if h = t.hub then [w] else []) ∧
      (T'.hubs h).terminal = (T.hubs h).terminal ∧
      (T'.hubs h).recursiveWatcherCount = (T.hubs h).recursiveWatcherCount := by
    intro h
    rw [← hT']
    by_cases hh : h = t.hub
    · simp [onHub, setWatch, hh]
    · simp [onHub, setWatch, hh]
  have hout : ∀ h, w ∉ (T.hubs h).recursiveWatchers := by
    intro h hin
    obtain ⟨t', hw', _, he'⟩ := hc.listed h w hin
    rw [hw] at hw'
    cases hw'
    rw [he] at he'
    cases he'
  have hholds : T'.Holds = T.Holds := by
    funext h v
    by_cases hv : v = w
    · subst hv
      simp [Holds, hself, hw]
    · simp [Holds, hother v hv]
  refine ⟨?_, fun v t' hv ht' => ?_, fun h => ?_, fun h v hv => ?_, fun v t' hv he' ht' hlive => ?_⟩
  · rw [hholds, show (fun h => (T'.hubs h).recursiveWatcherCount) = fun h => (T.hubs h).recursiveWatcherCount from
      funext fun h => (hhubs h).2.2]
    exact hc.tally
  · by_cases hvw : v = w
    · subst hvw
      rw [hself] at hv
      cases hv
      exact hc.held v t hw ht
    · exact hc.held v t' (hother v hvw ▸ hv) ht'
  · rw [(hhubs h).1]
    refine List.nodup_append.mpr ⟨hc.nodup h, by split <;> simp, fun a ha b hb heq => ?_⟩
    have hb' : b = w := by
      split at hb
      · exact List.mem_singleton.mp hb
      · cases hb
    exact hout h (hb' ▸ heq ▸ ha)
  · rw [(hhubs h).1] at hv
    by_cases hvw : v = w
    · subst hvw
      refine ⟨_, hself, ?_, rfl⟩
      by_contra hh
      rw [if_neg (Ne.symm hh), List.append_nil] at hv
      exact hout h hv
    · have hv' : v ∈ (T.hubs h).recursiveWatchers := by
        rcases List.mem_append.mp hv with hv | hv
        · exact hv
        · split at hv
          · exact absurd (List.mem_singleton.mp hv) hvw
          · cases hv
      obtain ⟨t', h₁, h₂, h₃⟩ := hc.listed h v hv'
      exact ⟨t', (hother v hvw).trans h₁, h₂, h₃⟩
  · rw [(hhubs _).2.1] at hlive
    rw [(hhubs _).1]
    by_cases hvw : v = w
    · subst hvw
      rw [hself] at hv
      cases hv
      simp
    · exact List.mem_append_left _ (hc.present v t' (hother v hvw ▸ hv) he' ht' hlive)

omit [DecidableEq H] [DecidableEq W] in
theorem staged (hc : T.Counted) (f : W → TreeWatch H I → List (Staged I)) (watches : W → Option (TreeWatch H I))
    (hw : ∀ v, watches v = (T.watches v).map fun t => { t with staged := f v t }) : Counted { T with watches } := by
  have hget : ∀ v t, watches v = some t → ∃ t', T.watches v = some t' ∧ t'.hub = t.hub ∧ t'.counted = t.counted ∧
      t'.strong = t.strong ∧ t'.enlisted = t.enlisted := by
    intro v t hv
    rw [hw] at hv
    obtain ⟨t', ht', heq⟩ := Option.map_eq_some_iff.mp hv
    exact ⟨t', ht', by rw [← heq], by rw [← heq], by rw [← heq], by rw [← heq]⟩
  have hholds : Holds { T with watches } = T.Holds := by
    funext h v
    simp [Holds, hw, Option.map_eq_some_iff]
  refine ⟨?_, fun v t hv ht => ?_, hc.nodup, fun h v hv => ?_, fun v t hv he ht hlive => ?_⟩
  · rw [hholds]
    exact hc.tally
  · obtain ⟨t', h₁, _, h₃, h₄, _⟩ := hget v t hv
    rw [← h₄]
    exact hc.held v t' h₁ (h₃.trans ht)
  · obtain ⟨t, h₁, h₂, h₃⟩ := hc.listed h v hv
    exact ⟨{ t with staged := f v t }, (hw v).trans (by rw [h₁]; rfl), h₂, h₃⟩
  · obtain ⟨t', h₁, h₂, h₃, _, h₅⟩ := hget v t hv
    have hlive' : (T.hubs t'.hub).terminal = false := h₂ ▸ hlive
    have hin := hc.present v t' h₁ (h₅.trans he) (h₃.trans ht) hlive'
    rw [h₂] at hin
    exact hin

end Counted

end ScopeTree

/-! ## What a watch has been told -/

section Told

variable [DecidableEq I] [DecidableEq H]

/-- The events of one incarnation on a watch, with their numbers. -/
def TreeWatch.stagedBy (t : TreeWatch H I) (i : I) : List (Nat × LifecycleEvent) :=
  (t.staged.filter (·.emitter = i)).map fun s => (s.serial, s.event)

/-- The hub a pass has come to, and the event as it stands there. -/
def Pass.site? (own : LifecycleTreeSink H) : Pass H → Option (LifecycleTreeSink H × LifecycleEvent)
  | .idle => none
  | .aligning event => some (own, event)
  | .checking site event _ => some (site, event)
  | .visiting site event => some (site, event)
  | .staging site event => some (site, event)

/-- The hubs the pass has not yet been to. -/
def Pass.ahead (own : LifecycleTreeSink H) (p : Pass H) : List H := (p.site? own).elim [] (·.1.hubs)

/-- What an incarnation has emitted and finished with hub `h`. -/
def settled (own : LifecycleTreeSink H) (emitted : List LifecycleEventKind) (p : Pass H) (h : H) :
    List LifecycleEventKind :=
  if h ∈ p.ahead own then emitted.dropLast else emitted

/-- A copy of each event from number `since` on, as it is seen from hub `h`. -/
def copies (own : LifecycleTreeSink H) (h : H) (kinds : List LifecycleEventKind) (since : Nat) :
    List (Nat × LifecycleEvent) :=
  (own.pathFrom h).elim [] fun path => (kinds.zipIdx.drop since).map fun k => (k.2, ⟨path, k.1⟩)

def Fits (own : LifecycleTreeSink H) (emitted : List LifecycleEventKind) (p : Pass H) : Prop :=
  ∀ site event, p.site? own = some (site, event) →
    ∃ init kind path, emitted = init ++ [kind] ∧ event = ⟨path, kind⟩ ∧ own.Reaches site path

structure Told (own : LifecycleTreeSink H) (emitted : List LifecycleEventKind) (p : Pass H) (t : TreeWatch H I) (i : I)
    (live : Prop) : Prop where
  since_le : t.since i ≤ emitted.length
  ordered : (t.stagedBy i).Pairwise (·.1 < ·.1)
  bounded : ∀ s ∈ t.stagedBy i, s.1 < (settled own emitted p t.hub).length
  numbered : ∀ s ∈ t.stagedBy i, emitted[s.1]? = some s.2.kind
  elsewhere : t.hub ∉ own.hubs → t.stagedBy i = []
  exact : live → (t.stagedBy i).filter (t.since i ≤ ·.1) = copies own t.hub (settled own emitted p t.hub) (t.since i)
  /-- A search of the chain has not gone past a watch of it. -/
  scanned : live → t.since i < emitted.length → ∀ site event scan, p = .checking site event scan →
    t.hub ∈ site.hubs → t.hub ∈ scan.hubs

variable {own : LifecycleTreeSink H} {emitted : List LifecycleEventKind} {p p' : Pass H} {t : TreeWatch H I} {i : I}
  {live live' : Prop}

theorem settled_length_le (h : H) : (settled own emitted p h).length ≤ emitted.length := by
  unfold settled
  split
  · rw [List.length_dropLast]
    omega
  · exact Nat.le_refl _

theorem copies_late {h : H} {kinds : List LifecycleEventKind} {since : Nat} (hle : kinds.length ≤ since) :
    copies own h kinds since = [] := by
  unfold copies
  cases own.pathFrom h with
  | none => rfl
  | some path =>
    rw [List.drop_eq_nil_of_le (by rw [List.length_zipIdx]; exact hle)]
    rfl

theorem copies_snoc {h : H} {kinds : List LifecycleEventKind} {since : Nat} {kind : LifecycleEventKind}
    {path : List ScopePathSegment} (hpath : own.pathFrom h = some path) (hle : since ≤ kinds.length) :
    copies own h (kinds ++ [kind]) since = copies own h kinds since ++ [(kinds.length, ⟨path, kind⟩)] := by
  unfold copies
  rw [hpath, List.zipIdx_append, List.drop_append_of_le_length (by rw [List.length_zipIdx]; exact hle)]
  simp

namespace Told

theorem weaken (h : Told own emitted p t i live) (hl : live' → live) : Told own emitted p t i live' :=
  ⟨h.since_le, h.ordered, h.bounded, h.numbered, h.elsewhere, fun hl' => h.exact (hl hl'), fun hl' => h.scanned (hl hl')⟩

theorem move (p' : Pass H) (h : Told own emitted p t i live) (hsub : ∀ x ∈ p'.ahead own, x ∈ p.ahead own)
    (hpast : live → t.since i < emitted.length → t.hub ∈ p.ahead own → t.hub ∈ p'.ahead own)
    (hscan : live → t.since i < emitted.length → ∀ site event scan, p' = .checking site event scan →
      t.hub ∈ site.hubs → t.hub ∈ scan.hubs) : Told own emitted p' t i live := by
  refine ⟨h.since_le, h.ordered, fun s hs => ?_, h.numbered, h.elsewhere, fun hl => ?_, hscan⟩
  · have hlt := h.bounded s hs
    unfold settled at hlt ⊢
    by_cases hp' : t.hub ∈ p'.ahead own
    · rw [if_pos (hsub _ hp')] at hlt
      rw [if_pos hp']
      exact hlt
    · rw [if_neg hp']
      exact Nat.lt_of_lt_of_le hlt (settled_length_le t.hub)
  · rw [h.exact hl]
    by_cases hnew : t.since i < emitted.length
    · have hiff : t.hub ∈ p'.ahead own ↔ t.hub ∈ p.ahead own := ⟨hsub _, hpast hl hnew⟩
      simp only [settled, hiff]
    · have hlate : ∀ q : Pass H, (settled own emitted q t.hub).length ≤ t.since i :=
        fun q => Nat.le_trans (settled_length_le _) (by omega)
      rw [copies_late (hlate p), copies_late (hlate p')]

theorem push (p' : Pass H) (h : Told own emitted p t i live) {init : List LifecycleEventKind} {kind : LifecycleEventKind}
    {path : List ScopePathSegment} (hem : emitted = init ++ [kind]) (hpath : own.pathFrom t.hub = some path)
    (hin : t.hub ∈ p.ahead own) (hout : t.hub ∉ p'.ahead own)
    (hscan : ∀ site event scan, p' = .checking site event scan → scan = site) :
    Told own emitted p' { t with staged := t.staged ++ [⟨i, emitted.length - 1, ⟨path, kind⟩⟩] } i live := by
  have hlen : emitted.length - 1 = init.length := by simp [hem]
  have hmine : TreeWatch.stagedBy { t with staged := t.staged ++ [⟨i, emitted.length - 1, ⟨path, kind⟩⟩] } i =
      t.stagedBy i ++ [(init.length, ⟨path, kind⟩)] := by
    simp [TreeWatch.stagedBy, hlen]
  have hbefore : settled own emitted p t.hub = init := by simp [settled, hin, hem]
  have hafter : settled own emitted p' t.hub = init ++ [kind] := by simp [settled, hout, hem]
  have hbound := h.bounded
  rw [hbefore] at hbound
  refine ⟨h.since_le, ?_, fun s hs => ?_, fun s hs => ?_, fun hne => ?_, fun hl => ?_, fun _ _ site event scan hp' hh => ?_⟩
  · rw [hmine, List.pairwise_append]
    refine ⟨h.ordered, List.pairwise_singleton .., fun a ha b hb => ?_⟩
    rw [List.mem_singleton.mp hb]
    exact hbound a ha
  · rw [hmine] at hs
    show s.1 < (settled own emitted p' t.hub).length
    rw [hafter, List.length_append, List.length_singleton]
    rcases List.mem_append.mp hs with hs | hs
    · have := hbound s hs
      omega
    · rw [List.mem_singleton.mp hs]
      exact Nat.lt_succ_self _
  · rw [hmine] at hs
    rcases List.mem_append.mp hs with hs | hs
    · exact h.numbered s hs
    · rw [List.mem_singleton.mp hs, hem]
      exact List.getElem?_concat_length ..
  · rw [LifecycleTreeSink.pathFrom_none.mpr hne] at hpath
    cases hpath
  · rw [hmine, List.filter_append]
    show _ = copies own t.hub (settled own emitted p' t.hub) (t.since i)
    have hex := h.exact hl
    rw [hbefore] at hex
    rw [hafter]
    by_cases hle : t.since i ≤ init.length
    · rw [copies_snoc hpath hle, ← hex]
      simp [hle]
    · have hlong : (init ++ [kind]).length ≤ t.since i := by
        rw [List.length_append, List.length_singleton]
        omega
      rw [copies_late hlong]
      rw [copies_late (by omega)] at hex
      simp only [hex, List.nil_append]
      simp [hle]
  · rw [hscan site event scan hp']
    exact hh

theorem other (h : Told own emitted p t i live) {s : Staged I} (hne : s.emitter ≠ i) :
    Told own emitted p { t with staged := t.staged ++ [s] } i live := by
  have hmine : TreeWatch.stagedBy { t with staged := t.staged ++ [s] } i = t.stagedBy i := by
    simp [TreeWatch.stagedBy, hne]
  refine ⟨h.since_le, ?_, ?_, ?_, ?_, ?_, h.scanned⟩
  · rw [hmine]
    exact h.ordered
  · rw [hmine]
    exact h.bounded
  · rw [hmine]
    exact h.numbered
  · rw [hmine]
    exact h.elsewhere
  · rw [hmine]
    exact h.exact

theorem emit (h : Told own emitted .idle t i live) (kind : LifecycleEventKind) (hahead : p.ahead own = own.hubs)
    (hscan : ∀ site event scan, p = .checking site event scan → scan = site) :
    Told own (emitted ++ [kind]) p t i live := by
  have hidle : settled own emitted .idle t.hub = emitted := by simp [settled, Pass.ahead, Pass.site?]
  have hbound := h.bounded
  rw [hidle] at hbound
  have hsince := h.since_le
  refine ⟨?_, h.ordered, fun s hs => ?_, fun s hs => ?_, h.elsewhere, fun hl => ?_, fun _ _ site event scan hp hh => ?_⟩
  · rw [List.length_append]
    omega
  · have hlt := hbound s hs
    unfold settled
    split
    · rw [List.dropLast_concat]
      exact hlt
    · rw [List.length_append]
      omega
  · rw [List.getElem?_append_left (hbound s hs)]
    exact h.numbered s hs
  · rw [h.exact hl, hidle]
    unfold settled
    rw [hahead]
    by_cases hin : t.hub ∈ own.hubs
    · rw [if_pos hin, List.dropLast_concat]
    · unfold copies
      rw [LifecycleTreeSink.pathFrom_none.mpr hin]
      rfl
  · rw [hscan site event scan hp]
    exact hh

/-- A watch is enlisted: it has been told nothing, and is owed nothing yet. -/
theorem enlisted (hs : t.staged = []) (hsince : t.since i = emitted.length) : Told own emitted p t i live := by
  have hmine : t.stagedBy i = [] := by simp [TreeWatch.stagedBy, hs]
  refine ⟨Nat.le_of_eq hsince, ?_, ?_, ?_, fun _ => hmine, fun _ => ?_, fun _ hlt => ?_⟩
  · rw [hmine]
    exact .nil
  · rw [hmine]
    nofun
  · rw [hmine]
    nofun
  · rw [hmine, copies_late (by rw [hsince]; exact settled_length_le _)]
    rfl
  · omega

end Told

end Told

/-! ## Every run -/

/-- A watch that is registered and not dropped, on a hub that is not terminal. -/
def TreeWatch.Live (hubs : H → TreeHub W) (t : TreeWatch H I) : Prop := t.counted = true ∧ (hubs t.hub).terminal = false

/-- Where a pass goes from a site. -/
def beyond (event : LifecycleEvent) : LifecycleTreeSink H → Pass H
  | .root _ => .idle
  | .nested _ parent segment => .checking parent (prependPath event segment) parent

section Beyond

variable {own site : LifecycleTreeSink H} {event : LifecycleEvent}

theorem beyond_ahead (event : LifecycleEvent) (site : LifecycleTreeSink H) : (beyond event site).ahead own = site.hubs.tail := by
  cases site with
  | root hub => rfl
  | nested hub parent segment => rfl

theorem beyond_scan : ∀ s e scan, beyond event site = .checking s e scan → scan = s := by
  intro s e scan h
  cases site with
  | root hub => cases h
  | nested hub parent segment =>
    cases h
    rfl

theorem mem_tail {h : H} (hin : h ∈ site.hubs) (hne : h ≠ site.hub) : h ∈ site.hubs.tail := by
  cases site with
  | root hub => exact absurd (List.mem_singleton.mp hin) hne
  | nested hub parent segment => exact (List.mem_cons.mp hin).resolve_left hne

theorem hub_not_mem_tail (hnd : site.hubs.Nodup) : site.hub ∉ site.hubs.tail := by
  cases site with
  | root hub => exact List.not_mem_nil
  | nested hub parent segment => exact (List.nodup_cons.mp hnd).1

theorem Fits.beyond {emitted : List LifecycleEventKind} {p : Pass H} (h : Fits own emitted p)
    (hp : p.site? own = some (site, event)) : Fits own emitted (beyond event site) := by
  obtain ⟨init, kind, path, hem, hev, hr⟩ := h site event hp
  intro site' event' hs
  cases site with
  | root hub => cases hs
  | nested hub parent segment =>
    cases hs
    exact ⟨init, kind, segment :: path, hem, by rw [hev]; rfl, hr.up⟩

end Beyond

namespace ScopeTree

variable [DecidableEq I]

theorem climb_eq {T : ScopeTree H I W} (i : I) (event : LifecycleEvent) (site : LifecycleTreeSink H) :
    T.climb i event site = T.enter i (beyond event site) := by
  cases site with
  | root hub => rfl
  | nested hub parent segment => rfl

variable [DecidableEq H] {sink : I → LifecycleTreeSink H} {T T' : ScopeTree H I W}

structure Inv (sink : I → LifecycleTreeSink H) (T : ScopeTree H I W) : Prop where
  counted : T.Counted
  fits : ∀ i, Fits (sink i) (T.emitted i) (T.pass i)
  fresh : ∀ w t, T.watches w = some t → t.enlisted = false → t.staged = []
  told : ∀ w t i, T.watches w = some t → t.enlisted = true →
    Told (sink i) (T.emitted i) (T.pass i) t i (t.Live T.hubs)

omit [DecidableEq I] [DecidableEq H] in
theorem Counted.congr (hc : T.Counted) (hhubs : T'.hubs = T.hubs) (hwatches : T'.watches = T.watches) : T'.Counted := by
  cases T
  cases T'
  cases hhubs
  cases hwatches
  exact ⟨hc.tally, hc.held, hc.nodup, hc.listed, hc.present⟩

namespace Inv

theorem enter (hi : T.Inv sink) (i : I) {p : Pass H} (hfits : Fits (sink i) (T.emitted i) p)
    (hsub : ∀ x ∈ p.ahead (sink i), x ∈ (T.pass i).ahead (sink i))
    (hpast : ∀ w t, T.watches w = some t → t.enlisted = true → t.Live T.hubs → t.since i < (T.emitted i).length →
      t.hub ∈ (T.pass i).ahead (sink i) → t.hub ∈ p.ahead (sink i))
    (hscan : ∀ w t, T.watches w = some t → t.enlisted = true → t.Live T.hubs → t.since i < (T.emitted i).length →
      ∀ site event scan, p = .checking site event scan → t.hub ∈ site.hubs → t.hub ∈ scan.hubs) :
    (T.enter i p).Inv sink := by
  refine ⟨hi.counted.congr rfl rfl, fun j => ?_, hi.fresh, fun w t j hw he => ?_⟩
  · by_cases hj : j = i
    · subst hj
      simpa [ScopeTree.enter] using hfits
    · simpa [ScopeTree.enter, hj] using hi.fits j
  · by_cases hj : j = i
    · subst hj
      have h := (hi.told w t j hw he).move _ hsub (hpast w t hw he) (hscan w t hw he)
      simpa [ScopeTree.enter] using h
    · simpa [ScopeTree.enter, hj] using hi.told w t j hw he

theorem fits_site (hi : T.Inv sink) {i : I} {site : LifecycleTreeSink H} {event : LifecycleEvent}
    (hp : (T.pass i).site? (sink i) = some (site, event)) :
    (T.pass i).ahead (sink i) = site.hubs ∧ ∃ init kind path, T.emitted i = init ++ [kind] ∧ event = ⟨path, kind⟩ ∧
      (sink i).Reaches site path := by
  refine ⟨?_, hi.fits i site event hp⟩
  unfold Pass.ahead
  rw [hp]
  rfl

theorem skip (hi : T.Inv sink) {i : I} {site : LifecycleTreeSink H} {event : LifecycleEvent}
    (hp : (T.pass i).site? (sink i) = some (site, event))
    (hnone : ∀ w t, T.watches w = some t → t.Live T.hubs → t.hub ≠ site.hub) : (T.climb i event site).Inv sink := by
  rw [climb_eq]
  obtain ⟨hahead, _⟩ := hi.fits_site hp
  refine hi.enter i ((hi.fits i).beyond hp) (fun x hx => ?_) (fun w t hw _ hl _ hin => ?_) fun w t _ _ _ _ s e scan hs hh => ?_
  · rw [beyond_ahead] at hx
    rw [hahead]
    exact List.mem_of_mem_tail hx
  · rw [hahead] at hin
    rw [beyond_ahead]
    exact mem_tail hin (hnone w t hw hl)
  · rw [beyond_scan s e scan hs]
    exact hh

theorem start (sink : I → LifecycleTreeSink H) : (start : ScopeTree H I W).Inv sink :=
  ⟨.start, fun _ => nofun, nofun, nofun⟩

theorem emit (hi : T.Inv sink) (i : I) (kind : LifecycleEventKind) {p : Pass H}
    (hp : p.site? (sink i) = some (sink i, ⟨[], kind⟩))
    (hscan : ∀ site event scan, p = .checking site event scan → scan = site) : (T.emit i kind p).Inv sink := by
  unfold ScopeTree.emit
  cases hidle : T.pass i with
  | idle =>
    have hahead : p.ahead (sink i) = (sink i).hubs := by
      unfold Pass.ahead
      rw [hp]
      rfl
    refine ⟨hi.counted.congr rfl rfl, fun j => ?_, hi.fresh, fun w t j hw he => ?_⟩
    · by_cases hj : j = i
      · subst hj
        have hfits : Fits (sink j) (T.emitted j ++ [kind]) p := by
          intro site event hs
          rw [hp] at hs
          cases hs
          exact ⟨T.emitted j, kind, [], rfl, rfl, .self⟩
        simpa [ScopeTree.enter] using hfits
      · simpa [ScopeTree.enter, hj] using hi.fits j
    · have htold := hi.told w t j hw he
      by_cases hj : j = i
      · subst hj
        rw [hidle] at htold
        simpa [ScopeTree.enter] using htold.emit kind hahead hscan
      · simpa [ScopeTree.enter, hj] using htold
  | aligning event => exact hi
  | checking site event scan => exact hi
  | visiting site event => exact hi
  | staging site event => exact hi

/-- Steps of the hubs and the watches: what is staged stays, and no watch becomes live by
    them but one that is enlisted now. -/
theorem watch (hi : T.Inv sink) (hc : T'.Counted) (hem : T'.emitted = T.emitted) (hpass : T'.pass = T.pass)
    (hw : ∀ w t, T'.watches w = some t →
      (∃ t', T.watches w = some t' ∧ t'.hub = t.hub ∧ t'.enlisted = t.enlisted ∧ t'.since = t.since ∧
        t'.staged = t.staged ∧ (t.Live T'.hubs → t'.Live T.hubs)) ∨
      t.staged = [] ∧ (t.enlisted = true → ∀ i, t.since i = (T.emitted i).length)) : T'.Inv sink := by
  refine ⟨hc, fun i => ?_, fun w t ht he => ?_, fun w t i ht he => ?_⟩
  · rw [hem, hpass]
    exact hi.fits i
  · rcases hw w t ht with ⟨t', h₁, _, h₃, _, h₅, _⟩ | ⟨hs, _⟩
    · rw [← h₅]
      exact hi.fresh w t' h₁ (h₃.trans he)
    · exact hs
  · rw [hem, hpass]
    rcases hw w t ht with ⟨t', h₁, h₂, h₃, h₄, h₅, h₆⟩ | ⟨hs, hsince⟩
    · have htold := (hi.told w t' i h₁ (h₃.trans he)).weaken h₆
      cases t
      cases t'
      cases h₂
      cases h₄
      cases h₅
      exact ⟨htold.since_le, htold.ordered, htold.bounded, htold.numbered, htold.elsewhere, htold.exact, htold.scanned⟩
    · exact .enlisted hs (hsince he i)

/-- One watch changes, and no hub becomes terminal. -/
theorem edit (hi : T.Inv sink) {w : W} {t : TreeWatch H I} (hc : T'.Counted) (hem : T'.emitted = T.emitted)
    (hpass : T'.pass = T.pass) (hother : ∀ v, v ≠ w → T'.watches v = T.watches v) (hself : T'.watches w = some t)
    (hterm : ∀ h, (T'.hubs h).terminal = (T.hubs h).terminal)
    (hkept : (∃ t', T.watches w = some t' ∧ t'.hub = t.hub ∧ t'.enlisted = t.enlisted ∧ t'.since = t.since ∧
        t'.staged = t.staged ∧ (t.counted = true → t'.counted = true)) ∨
      t.staged = [] ∧ (t.enlisted = true → ∀ i, t.since i = (T.emitted i).length)) : T'.Inv sink := by
  refine hi.watch hc hem hpass fun v t' ht' => ?_
  by_cases hv : v = w
  · subst hv
    rw [hself] at ht'
    cases ht'
    refine hkept.imp (fun ⟨t', h₁, h₂, h₃, h₄, h₅, h₆⟩ => ⟨t', h₁, h₂, h₃, h₄, h₅, fun hl => ⟨h₆ hl.1, ?_⟩⟩) id
    rw [h₂, ← hterm]
    exact hl.2
  · rw [hother v hv] at ht'
    refine .inl ⟨t', ht', rfl, rfl, rfl, rfl, fun hl => ⟨hl.1, ?_⟩⟩
    rw [← hterm]
    exact hl.2

theorem terminal (hi : T.Inv sink) (h : H) :
    (T.onHub h fun hub => { hub with terminal := true, recursiveWatchers := [] }).Inv sink := by
  refine hi.watch (hi.counted.terminal h) rfl rfl fun w t ht => .inl ⟨t, ht, rfl, rfl, rfl, rfl, fun hl => ⟨hl.1, ?_⟩⟩
  have h₂ := hl.2
  by_cases hh : t.hub = h
  · simp [onHub, hh] at h₂
  · simpa [onHub, hh] using h₂

omit [DecidableEq I] in
theorem update_terminal {hubs : H → TreeHub W} {h₀ : H} {hub : TreeHub W} (hsame : hub.terminal = (hubs h₀).terminal)
    (h : H) : (Function.update hubs h₀ hub h).terminal = (hubs h).terminal := by
  by_cases hh : h = h₀
  · subst hh
    simpa using hsame
  · simp [hh]

theorem retain (hi : T.Inv sink) (h : H) : (T.retain h).Inv sink := by
  refine hi.watch (hi.counted.retain h) rfl rfl fun w t ht => .inl ⟨t, ht, rfl, rfl, rfl, rfl, fun hl => ⟨hl.1, ?_⟩⟩
  exact (update_terminal (by rfl) t.hub).symm.trans hl.2

variable [DecidableEq W]

theorem stage (hsink : ∀ i, (sink i).hubs.Nodup) (hi : T.Inv sink) {i : I} {site : LifecycleTreeSink H}
    {event : LifecycleEvent} (hp : (T.pass i).site? (sink i) = some (site, event)) :
    ((T.emitRecursive site.hub i event).climb i event site).Inv sink := by
  obtain ⟨hahead, init, kind, path, hem, hev, hr⟩ := hi.fits_site hp
  have hnd : site.hubs.Nodup := (hsink i).sublist hr.suffix.sublist
  by_cases hterm : (T.hubs site.hub).terminal = true
  · have hsame : T.emitRecursive site.hub i event = T := by simp [emitRecursive, hterm]
    rw [hsame]
    refine hi.skip hp fun w t _ hl heq => ?_
    have hl₂ := hl.2
    rw [heq, hterm] at hl₂
    cases hl₂
  · generalize hitem : (⟨i, (T.emitted i).length - 1, event⟩ : Staged I) = item
    generalize hlist : (T.hubs site.hub).recursiveWatchers.filter T.strong = list
    have hemit : T.emitRecursive site.hub i event = { T.retain site.hub with
        watches := fun w => (T.watches w).map fun t =>
          { t with staged := t.staged ++ List.replicate (list.count w) item } } := by
      simp only [emitRecursive, hterm, hitem, hlist]
      rfl
    have hlnd : list.Nodup := hlist ▸ (hi.counted.nodup _).filter _
    rw [climb_eq, hemit]
    refine ⟨((hi.counted.retain site.hub).staged (fun w t => t.staged ++ List.replicate (list.count w) item) _
      fun _ => rfl).congr rfl rfl, fun j => ?_, fun w t hw he => ?_, fun w t j hw he => ?_⟩
    · by_cases hj : j = i
      · subst hj
        simpa [ScopeTree.enter, ScopeTree.retain, onHub] using (hi.fits j).beyond hp
      · simpa [ScopeTree.enter, ScopeTree.retain, onHub, hj] using hi.fits j
    · obtain ⟨t', ht', heq⟩ := Option.map_eq_some_iff.mp hw
      subst heq
      have hout : w ∉ list := by
        intro hin
        rw [← hlist] at hin
        obtain ⟨t'', h₁, _, h₃⟩ := hi.counted.listed _ w (List.mem_of_mem_filter hin)
        rw [ht'] at h₁
        cases h₁
        rw [he] at h₃
        cases h₃
      show t'.staged ++ List.replicate (list.count w) item = []
      rw [List.count_eq_zero_of_not_mem hout, List.replicate_zero, List.append_nil]
      exact hi.fresh w t' ht' he
    · obtain ⟨t', ht', heq⟩ := Option.map_eq_some_iff.mp hw
      subst heq
      have hlive : ∀ staged, TreeWatch.Live (T.retain site.hub).hubs { t' with staged } → t'.Live T.hubs := by
        intro staged hl
        refine ⟨hl.1, ?_⟩
        have h₂ := hl.2
        by_cases hh : t'.hub = site.hub
        · simpa [ScopeTree.retain, onHub, hh] using h₂
        · simpa [ScopeTree.retain, onHub, hh] using h₂
      have htold := hi.told w t' j ht' he
      by_cases hin : w ∈ list
      · have hone : List.replicate (list.count w) item = [item] := by
          rw [List.count_eq_one_of_mem hlnd hin]
          rfl
        rw [hone]
        have hhub : t'.hub = site.hub := by
          rw [← hlist] at hin
          obtain ⟨t'', h₁, h₂, _⟩ := hi.counted.listed _ w (List.mem_of_mem_filter hin)
          rw [ht'] at h₁
          cases h₁
          exact h₂
        by_cases hj : j = i
        · subst hj
          have hpush := htold.push (beyond event site) hem (hhub ▸ hr.pathFrom_hub (hsink j))
            (by rw [hahead, hhub]; exact site.hub_mem) (by rw [beyond_ahead, hhub]; exact hub_not_mem_tail hnd) beyond_scan
          rw [← hev, hitem] at hpush
          simpa [ScopeTree.enter, ScopeTree.retain, onHub] using hpush.weaken (hlive _)
        · have hpush := htold.other (s := item) (by rw [← hitem]; exact Ne.symm hj)
          simpa [ScopeTree.enter, ScopeTree.retain, onHub, hj] using hpush.weaken (hlive _)
      · have hnone : List.replicate (list.count w) item = [] := by
          rw [List.count_eq_zero_of_not_mem hin]
          rfl
        rw [hnone, List.append_nil]
        by_cases hj : j = i
        · subst hj
          have hmove := htold.move (beyond event site) (fun x hx => ?_) (fun hl _ hh => ?_)
            fun _ _ s e scan hs hh => ?_
          · simpa [ScopeTree.enter, ScopeTree.retain, onHub] using hmove.weaken (hlive _)
          · rw [beyond_ahead] at hx
            rw [hahead]
            exact List.mem_of_mem_tail hx
          · rw [hahead] at hh
            rw [beyond_ahead]
            refine mem_tail hh fun heq => hin ?_
            rw [← hlist, ← heq]
            refine List.mem_filter.mpr ⟨hi.counted.present w t' ht' he hl.1 hl.2, ?_⟩
            show (T.watches w).any (·.strong) = true
            rw [ht']
            exact hi.counted.held w t' ht' hl.1
          · rw [beyond_scan s e scan hs]
            exact hh
        · simpa [ScopeTree.enter, ScopeTree.retain, onHub, hj] using htold.weaken (hlive _)

theorem advance (hsink : ∀ i, (sink i).hubs.Nodup) (hi : T.Inv sink) (i : I) : (T.advance sink i).Inv sink := by
  unfold ScopeTree.advance
  -- a live watch that an event is owed to is in its hub's count, which is what each test reads
  have hwatched : ∀ {h : H}, T.hasRecursiveWatchers h = false → ∀ w t, T.watches w = some t → t.Live T.hubs → t.hub ≠ h := by
    intro h hno w t hw hl heq
    rw [← heq, hi.counted.watched hw hl.1] at hno
    cases hno
  cases hp : T.pass i with
  | idle => exact hi
  | aligning event => exact hi.stage hsink (by rw [hp]; rfl)
  | staging site event => exact hi.stage hsink (by rw [hp]; rfl)
  | visiting site event =>
    have hsite : (T.pass i).site? (sink i) = some (site, event) := by
      rw [hp]
      rfl
    cases hno : T.hasRecursiveWatchers site.hub with
    | false =>
      simp only [hno]
      exact hi.skip hsite (hwatched hno)
    | true =>
      simp only [hno, if_true]
      refine hi.enter i (fun s e hs => hi.fits i s e ?_) (fun x hx => ?_) (fun _ _ _ _ _ _ hx => ?_) fun _ _ _ _ _ _ => nofun
      · rw [hsite]
        exact hs
      · rw [(hi.fits_site hsite).1]
        exact hx
      · rw [(hi.fits_site hsite).1] at hx
        exact hx
  | checking site event scan =>
    have hsite : (T.pass i).site? (sink i) = some (site, event) := by
      rw [hp]
      rfl
    have hahead := (hi.fits_site hsite).1
    cases hno : T.hasRecursiveWatchers scan.hub with
    | true =>
      simp only [hno, if_true]
      refine hi.enter i (fun s e hs => hi.fits i s e ?_) (fun x hx => ?_) (fun _ _ _ _ _ _ hx => ?_) fun _ _ _ _ _ _ => nofun
      · rw [hsite]
        exact hs
      · rw [hahead]
        exact hx
      · rw [hahead] at hx
        exact hx
    | false =>
      simp only [hno]
      -- the search goes past a hub nobody watches: whoever is owed the event is further up
      have hfurther : ∀ w t, T.watches w = some t → t.enlisted = true → t.Live T.hubs →
          t.since i < (T.emitted i).length → t.hub ∈ site.hubs → t.hub ∈ scan.hubs.tail := fun w t hw he hl hs hin =>
        mem_tail ((hi.told w t i hw he).scanned hl hs site event scan hp hin) (hwatched hno w t hw hl)
      cases scan with
      | root hub =>
        refine hi.enter i nofun nofun (fun w t hw he hl hs hin => ?_) fun _ _ _ _ _ _ => nofun
        rw [hahead] at hin
        cases hfurther w t hw he hl hs hin
      | nested hub parent segment =>
        refine hi.enter i (fun s e hs => hi.fits i s e ?_) (fun x hx => ?_) (fun _ _ _ _ _ _ hx => ?_)
          fun w t hw he hl hs s e sc heq hin => ?_
        · rw [hsite]
          exact hs
        · rw [hahead]
          exact hx
        · rw [hahead] at hx
          exact hx
        · cases heq
          exact hfurther w t hw he hl hs hin

theorem uncount (hi : T.Inv sink) {w : W} {t : TreeWatch H I} (hw : T.watches w = some t) (ht : t.counted = true) :
    ((T.onHub t.hub fun hub => { hub with recursiveWatcherCount := hub.recursiveWatcherCount - 1 }).setWatch w
      { t with counted := false }).Inv sink := by
  refine hi.edit (w := w) (t := { t with counted := false }) (hi.counted.uncount hw ht) rfl rfl (fun v hv => ?_) ?_
    (fun h => update_terminal (by rfl) h) (.inl ⟨t, hw, rfl, rfl, rfl, rfl, nofun⟩)
  · simp [setWatch, onHub, hv]
  · simp [setWatch]

theorem step (hsink : ∀ i, (sink i).hubs.Nodup) (hi : T.Inv sink) (a : TreeAction H I W) : (T.step sink a).Inv sink := by
  cases a with
  | emitAligned i kind => exact hi.emit i kind rfl nofun
  | forwardChild i kind =>
    refine hi.emit i kind rfl fun site event scan h => ?_
    cases h
    rfl
  | advance i => exact hi.advance hsink i
  | terminal h => exact hi.terminal h
  | register w h =>
    unfold ScopeTree.step
    cases hw : T.watches w with
    | some t => simpa only [hw] using hi
    | none =>
      simp only [hw]
      refine hi.edit (w := w) (hi.counted.register (t := ⟨h, true, true, false, fun _ => 0, []⟩) hw rfl rfl rfl) rfl rfl
        (fun v hv => ?_) (Function.update_self ..) (fun _ => update_terminal (by rfl) _) (.inr ⟨rfl, nofun⟩)
      simp [setWatch, onHub, hv]
  | enlist w =>
    unfold ScopeTree.step
    cases hw : T.watches w with
    | none => simpa only [hw] using hi
    | some t =>
      simp only [hw]
      by_cases hdone : (t.enlisted || !t.counted) = true
      · rw [if_pos hdone]
        exact hi
      · rw [if_neg hdone]
        simp only [Bool.or_eq_true, Bool.not_eq_true', not_or, Bool.not_eq_true, Bool.not_eq_false] at hdone
        have hi' := hi.retain t.hub
        by_cases hterm : (T.hubs t.hub).terminal = true
        · rw [if_pos hterm]
          exact hi'.uncount hw hdone.2
        · rw [if_neg hterm]
          refine hi'.edit (w := w) (hi'.counted.enlist hw hdone.2 hdone.1 _) rfl rfl (fun v hv => ?_)
            (Function.update_self ..) (fun _ => update_terminal (by rfl) _) (.inr ⟨hi.fresh w t hw hdone.1, fun _ _ => rfl⟩)
          simp [setWatch, onHub, hv]
  | dropWatch w =>
    unfold ScopeTree.step
    cases hw : T.watches w with
    | none => simpa only [hw] using hi
    | some t =>
      simp only [hw]
      by_cases hdrop : (t.enlisted && t.counted) = true
      · rw [if_pos hdrop]
        exact hi.uncount hw (Bool.and_eq_true_iff.mp hdrop).2
      · rw [if_neg hdrop]
        exact hi
  | release w =>
    unfold ScopeTree.step
    cases hw : T.watches w with
    | none => simpa only [hw] using hi
    | some t =>
      simp only [hw]
      by_cases hcount : t.counted = true
      · rw [if_pos hcount]
        exact hi
      · rw [if_neg hcount]
        refine hi.edit (w := w) (hi.counted.release hw (Bool.not_eq_true _ ▸ hcount)) rfl rfl (fun v hv => ?_)
          (Function.update_self ..) (fun _ => rfl) (.inl ⟨t, hw, rfl, rfl, rfl, rfl, id⟩)
        simp [setWatch, hv]

theorem run (hsink : ∀ i, (sink i).hubs.Nodup) (actions : List (TreeAction H I W)) : (run sink actions).Inv sink := by
  unfold ScopeTree.run
  generalize hT : (ScopeTree.start : ScopeTree H I W) = T
  have hi : T.Inv sink := hT ▸ start sink
  clear hT
  induction actions generalizing T with
  | nil => exact hi
  | cons a actions ih => exact ih _ (hi.step hsink a)

end Inv

/-! ## Every pass ends -/

/-- The steps of a pass that has `n` hubs before it: it reads each of their counts, and then
    that of the first once more, and pushes there. -/
def rounds : Nat → Nat
  | 0 => 0
  | n + 1 => (n + 1) + 2 + rounds n

def left (own : LifecycleTreeSink H) : Pass H → Nat
  | .idle => 0
  | .aligning _ => 1 + rounds (own.hubs.length - 1)
  | .checking site _ scan => scan.hubs.length + 2 + rounds (site.hubs.length - 1)
  | .visiting site _ => 2 + rounds (site.hubs.length - 1)
  | .staging site _ => 1 + rounds (site.hubs.length - 1)

omit [DecidableEq H] in
theorem beyond_left {own : LifecycleTreeSink H} (event : LifecycleEvent) (site : LifecycleTreeSink H) :
    left own (beyond event site) = rounds (site.hubs.length - 1) := by
  cases site with
  | root hub => rfl
  | nested hub parent segment =>
    have hpos : 0 < parent.hubs.length := List.length_pos_of_mem parent.hub_mem
    obtain ⟨n, hn⟩ : ∃ n, parent.hubs.length = n + 1 := ⟨parent.hubs.length - 1, by omega⟩
    simp [beyond, left, LifecycleTreeSink.hubs, hn, rounds]

variable [DecidableEq W]

theorem advance_left (sink : I → LifecycleTreeSink H) (i : I) (h : T.pass i ≠ .idle) :
    left (sink i) ((T.advance sink i).pass i) < left (sink i) (T.pass i) := by
  unfold advance
  cases hp : T.pass i with
  | idle => exact absurd hp h
  | aligning event =>
    simp only [climb_eq, ScopeTree.enter, Function.update_self, beyond_left]
    simp [left]
  | staging site event =>
    simp only [climb_eq, ScopeTree.enter, Function.update_self, beyond_left]
    simp [left]
  | visiting site event =>
    cases hno : T.hasRecursiveWatchers site.hub with
    | true => simp [hno, ScopeTree.enter, left]
    | false =>
      simp only [hno, climb_eq, ScopeTree.enter, Function.update_self, Bool.false_eq_true, if_false, beyond_left]
      simp [left]
  | checking site event scan =>
    have hpos : 0 < scan.hubs.length := List.length_pos_of_mem scan.hub_mem
    cases hno : T.hasRecursiveWatchers scan.hub with
    | true =>
      simp only [hno, if_true, ScopeTree.enter, Function.update_self, left]
      omega
    | false =>
      cases scan with
      | root hub =>
        simp only [hno, ScopeTree.enter, Bool.false_eq_true, if_false, Function.update_self, left]
        omega
      | nested hub parent segment => simp [hno, ScopeTree.enter, left, LifecycleTreeSink.hubs]

theorem advance_ends (sink : I → LifecycleTreeSink H) (i : I) (n : Nat) : ∀ T : ScopeTree H I W, left (sink i) (T.pass i) ≤ n →
    ∃ k, ((List.replicate k (.advance i)).foldl (step sink) T).pass i = .idle := by
  induction n with
  | zero =>
    intro T hle
    have hidle : T.pass i = .idle := by
      by_contra hne
      have hlt := advance_left sink i hne
      omega
    exact ⟨0, hidle⟩
  | succ n ih =>
    intro T hle
    by_cases hidle : T.pass i = .idle
    · exact ⟨0, hidle⟩
    · have hlt := advance_left sink i hidle
      obtain ⟨k, hk⟩ := ih (T.advance sink i) (by omega)
      exact ⟨k + 1, hk⟩

theorem copies_some {own : LifecycleTreeSink H} {h : H} {path : List ScopePathSegment}
    (hpath : own.pathFrom h = some path) (kinds : List LifecycleEventKind) (since : Nat) :
    (copies own h kinds since).map (·.2) = (kinds.drop since).map (⟨path, ·⟩) := by
  have hdrop : kinds.drop since = (kinds.zipIdx.drop since).map (·.1) := by
    rw [List.map_drop, List.zipIdx_map_fst]
  unfold copies
  rw [hdrop, hpath, List.map_map]
  exact List.map_map

theorem copies_events {own : LifecycleTreeSink H} (hnd : own.hubs.Nodup) (h : H) (kinds : List LifecycleEventKind)
    (since : Nat) :
    (copies own h kinds since).map (·.2) = (kinds.drop since).flatMap fun kind =>
      (unconditional own ⟨[], kind⟩).filterMap fun d => if d.1 = h then some d.2 else none := by
  simp only [LifecycleTreeSink.unconditional_at hnd]
  cases hpath : own.pathFrom h with
  | none => simp [copies, hpath]
  | some path =>
    rw [copies_some hpath, List.map_eq_flatMap]
    simp

/-- Whatever is registered, dropped and emitted at the same time: on every watch the events
    of one incarnation stand in the order of their emission, and there are none on a watch
    off its chain; a live watch has, of all that was emitted since it was enlisted, what
    unconditional forwarding would have given it, each with the path from its scope down to
    the emitter; and every pass comes to its end. No scope is nested in itself, so a hub
    stands on a chain once (`hsink`). -/
theorem forwarding_faithful (sink : I → LifecycleTreeSink H) (hsink : ∀ i, (sink i).hubs.Nodup)
    (actions : List (TreeAction H I W)) (w : W) (t : TreeWatch H I) (hw : (run sink actions).watches w = some t) (i : I) :
    ((t.stagedBy i).Pairwise (·.1 < ·.1) ∧
      ∀ s ∈ t.stagedBy i, ((run sink actions).emitted i)[s.1]? = some s.2.kind) ∧
    (t.hub ∉ (sink i).hubs → t.stagedBy i = []) ∧
    (t.enlisted = true → t.Live (run sink actions).hubs → (run sink actions).pass i = .idle →
      ((t.stagedBy i).filter (t.since i ≤ ·.1)).map (·.2) =
        (((run sink actions).emitted i).drop (t.since i)).flatMap (fun kind =>
          (unconditional (sink i) ⟨[], kind⟩).filterMap fun d => if d.1 = t.hub then some d.2 else none) ∧
      ∀ path, (sink i).pathFrom t.hub = some path →
        ((t.stagedBy i).filter (t.since i ≤ ·.1)).map (·.2) =
          (((run sink actions).emitted i).drop (t.since i)).map (⟨path, ·⟩)) ∧
    ∃ n, (run sink (actions ++ List.replicate n (.advance i))).pass i = .idle := by
  have hi := Inv.run hsink actions
  have hends : ∃ n, (run sink (actions ++ List.replicate n (.advance i))).pass i = .idle := by
    obtain ⟨k, hk⟩ := advance_ends sink i _ (run sink actions) (Nat.le_refl _)
    refine ⟨k, ?_⟩
    unfold run
    rw [List.foldl_append]
    exact hk
  by_cases he : t.enlisted = true
  · have htold := hi.told w t i hw he
    refine ⟨⟨htold.ordered, htold.numbered⟩, htold.elsewhere, fun _ hl hidle => ?_, hends⟩
    have hsettled : settled (sink i) ((run sink actions).emitted i) ((run sink actions).pass i) t.hub =
        (run sink actions).emitted i := by
      rw [hidle]
      simp [settled, Pass.ahead, Pass.site?]
    have hexact := htold.exact hl
    rw [hsettled] at hexact
    rw [hexact]
    exact ⟨copies_events (hsink i) _ _ _, fun path hpath => copies_some hpath _ _⟩
  · have hs : t.stagedBy i = [] := by
      have hfresh := hi.fresh w t hw (Bool.not_eq_true _ ▸ he)
      simp [TreeWatch.stagedBy, hfresh]
    refine ⟨⟨?_, ?_⟩, fun _ => hs, fun h => absurd h he, hends⟩
    · rw [hs]
      exact .nil
    · rw [hs]
      nofun

/-- A scope nested twice over, watched at the root only: the event of the innermost gets there
    past two hubs that are left out, and the watch of a scope beside them gets nothing. -/
theorem forwarding_faithful_nested :
    ∃ (t : TreeWatch Nat Bool),
      (run (W := Nat) (fun _ : Bool => .nested 2 (.nested 1 (.root 0) ⟨"a", 0, 0⟩) ⟨"b", 0, 0⟩)
        ([.register 0 0, .enlist 0, .register 1 9, .enlist 1, .forwardChild true (.supervisor .supervisorStopping)] ++
          List.replicate 12 (.advance true))).watches 0 = some t ∧
      ((t.stagedBy true).filter (t.since true ≤ ·.1)).map (·.2) =
        [⟨[⟨"a", 0, 0⟩, ⟨"b", 0, 0⟩], .supervisor .supervisorStopping⟩] := by
  refine ⟨_, rfl, ?_⟩
  have h := (forwarding_faithful (W := Nat)
    (fun _ : Bool => .nested 2 (.nested 1 (.root 0) ⟨"a", 0, 0⟩) ⟨"b", 0, 0⟩) (fun _ => by decide)
    ([.register 0 0, .enlist 0, .register 1 9, .enlist 1, .forwardChild true (.supervisor .supervisorStopping)] ++
      List.replicate 12 (.advance true)) 0 _ rfl true).2.2.1 (by decide +kernel) (by constructor <;> decide +kernel)
      (by rfl)
  exact h.2 [⟨"a", 0, 0⟩, ⟨"b", 0, 0⟩] (by decide +kernel)

end ScopeTree

end Kokage.Lifecycle
