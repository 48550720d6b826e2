/-
  Kokage.Lifecycle.Handoff — a watch that follows one membership of a child
  (`lifecycle.rs`: `pending_direct_child`, `direct_child`; `runtime.rs`: `add_task_spec`).

  A task that is added at run time is watched from before its add command is sent, when its
  lineage is not yet known. The watch is first unfiltered and bounded, then takes the events
  of the id without a bound, and once the command has returned the lineage it keeps those of
  the membership, within the bound again. `retain_direct_child` and `push` hold the filter's
  lock, so each is one step and emissions come before, between and after the two.

  What the watch had staged before the id was known goes with the first filter or the
  second, markers included; nothing is dropped in between, and the second filter drops into
  a marker what does not fit. So what the watch hands out from then on accounts for the
  events of the membership, in order (`handoff_lossless`).
-/

import Kokage.Lifecycle.Hub

namespace Kokage.Lifecycle

open Kokage.Lib Kokage.Supervisor

/-! ## Drops and filters -/

namespace EventQueue

variable {E : Type}

theorem recordDrop_sub {q : EventQueue E} {e : E} (h : .event e ∈ q.recordDrop) : .event e ∈ q := by
  unfold recordDrop at h
  split at h
  · rcases List.mem_cons.mp h with h | h
    · cases h
    · exact List.mem_cons_of_mem _ (List.mem_cons_of_mem _ h)
  · rcases List.mem_cons.mp h with h | h
    · cases h
    · exact List.mem_cons_of_mem _ h
  · exact h

theorem shrink_sub {limit fuel : Nat} {q : EventQueue E} {e : E} (h : .event e ∈ q.shrink limit fuel) : .event e ∈ q := by
  have hkeep := shrink_keeps (P := fun q' => Item.event e ∈ q' → Item.event e ∈ q) (fun q' hq' hin => hq' (recordDrop_sub hin)) limit
    fuel (q := q) id
  exact hkeep h

theorem push_sub {q : EventQueue E} {e x : E} (h : .event e ∈ q.push x) : .event e ∈ q ∨ e = x := by
  rcases List.mem_append.mp h with h | h
  · exact .inl (shrink_sub h)
  · cases List.mem_singleton.mp h
    exact .inr rfl

theorem covers_events (es : List E) : Covers es (es.map .event) := by
  induction es with
  | nil => exact .nil
  | cons e es ih => exact .event e ih

theorem fronted_events (es : List E) : Fronted (es.map Item.event) := by
  intro i hi
  obtain ⟨e, -, rfl⟩ := List.mem_map.mp (List.mem_of_mem_tail hi)
  rfl

/-- Fitting a queue to its capacity changes what it accounts for as little as a push does. -/
theorem enforceCapacity_covers {q : EventQueue E} {es : List E} (hf : Fronted q) (h : Covers es q) :
    Fronted q.enforceCapacity ∧ Covers es q.enforceCapacity ∧ q.enforceCapacity.length ≤ lifecycleBufferCapacity := by
  obtain ⟨hf', hc'⟩ := shrink_keeps (P := fun q => Fronted q ∧ Covers es q)
    (fun q hq => ⟨recordDrop_fronted hq.1, recordDrop_covers hq.1 hq.2⟩) lifecycleBufferCapacity (2 * q.length) ⟨hf, h⟩
  exact ⟨hf', hc', shrink_length _ (by decide) _ q (rounds_le q)⟩

end EventQueue

namespace DirectChildFilter

/-- `DirectChildFilter::pending` and `DirectChildFilter::exact`. -/
def pending (id : String) : DirectChildFilter := ⟨id, none⟩

def exact (id : String) (lineage : Nat) : DirectChildFilter := ⟨id, some lineage⟩

variable {id : String} {lineage : Nat} {e : LifecycleEvent}

theorem exact_pending (h : (exact id lineage).accepts e = true) : (pending id).accepts e = true := by
  unfold accepts exact pending at *
  simp only [Bool.and_eq_true, Option.any_eq_true] at h ⊢
  obtain ⟨hpath, c, hc, hid, -⟩ := h
  exact ⟨hpath, c, hc, hid, rfl⟩

theorem accepts_path {f : DirectChildFilter} (h : f.accepts e = true) : e.scopePath.isEmpty = true :=
  (Bool.and_eq_true _ _ ▸ h).1

end DirectChildFilter

/-! ## The three phases of the direct queue -/

namespace Watcher

open DirectChildFilter

variable {w : Watcher} {id : String} {lineage : Nat}

/-- An unfiltered watch stages only what is emitted. -/
theorem direct_before (events : List LifecycleEvent) :
    ∀ e, .event e ∈ (events.foldl push new).direct → e ∈ events := by
  suffices h : ∀ w : Watcher, w.directChild = none → ∀ e, .event e ∈ (events.foldl push w).direct → .event e ∈ w.direct ∨ e ∈ events by
    intro e he
    rcases h new rfl e he with hnew | hin
    · cases hnew
    · exact hin
  induction events with
  | nil => exact fun w _ e he => .inl he
  | cons x events ih =>
    intro w hw e he
    rcases ih (w.push x) hw e he with hin | hin
    · unfold push at hin
      simp only [hw, Option.all_none, Option.any_none, Bool.and_true, Bool.false_eq_true, if_false] at hin
      split at hin
      · rcases EventQueue.push_sub hin with hin | rfl
        · exact .inl hin
        · exact .inr (List.mem_cons_self ..)
      · exact .inl hin
    · exact .inr (List.mem_cons_of_mem _ hin)

/-- While the lineage is awaited, every event of the id is staged. -/
theorem direct_between (hw : w.directChild = some (pending id)) (events : List LifecycleEvent) :
    (events.foldl push w).direct = w.direct ++ (events.filter (pending id).accepts).map .event := by
  induction events generalizing w with
  | nil => simp
  | cons e events ih =>
    rw [List.foldl_cons, ih (w := w.push e) hw]
    have hpush : (w.push e).direct = w.direct ++ ([e].filter (pending id).accepts).map .event := by
      unfold push
      simp only [hw, Option.all_some, Option.any_some]
      cases ha : (pending id).accepts e with
      | true =>
        rw [accepts_path ha]
        simp [pending, isPending, EventQueue.pushUnbounded, show (⟨id, none⟩ : DirectChildFilter).accepts e = true from ha]
      | false => simp [ha]
    rw [hpush, List.append_assoc, ← List.map_append, ← List.filter_append]
    rfl

/-- What is left when the exact filter comes: the events of the membership. -/
theorem direct_exact {before : List LifecycleEvent} (between : List LifecycleEvent)
    (hfirst : ∀ e ∈ before, (exact id lineage).accepts e = false) :
    ((between.foldl push ((before.foldl push new).retainDirectChild (pending id))).direct.filter (exact id lineage).acceptsItem) =
      ((before ++ between).filter (exact id lineage).accepts).map .event := by
  rw [direct_between rfl, List.filter_append]
  have hold : ((before.foldl push new).retainDirectChild (pending id)).direct.filter (exact id lineage).acceptsItem = [] := by
    refine List.filter_eq_nil_iff.mpr fun i hi => ?_
    have hin : i ∈ (before.foldl push new).direct := (List.mem_filter.mp hi).1
    cases i with
    | lagged dropped => simp [acceptsItem, Item.event?]
    | event e => simp [acceptsItem, Item.event?, hfirst e (direct_before before e hin)]
  have hnone : before.filter (exact id lineage).accepts = [] :=
    List.filter_eq_nil_iff.mpr fun e he => by simp [hfirst e he]
  rw [hold, List.nil_append, List.filter_append, hnone, List.nil_append]
  clear hold hnone hfirst
  induction between with
  | nil => rfl
  | cons e between ih =>
    cases ha : (exact id lineage).accepts e with
    | true => simp [ha, exact_pending ha, acceptsItem, Item.event?, ih]
    | false =>
      cases hp : (pending id).accepts e with
      | true => simp [ha, hp, acceptsItem, Item.event?, ih]
      | false => simp [ha, hp, ih]

/-! ## From the exact filter on -/

inductive WatchOp where
  | push (e : LifecycleEvent)
  | next

def apply (w : Watcher) : WatchOp → Watcher
  | .push e => w.push e
  | .next => w.next

def WatchOp.event? : WatchOp → Option LifecycleEvent
  | push e => some e
  | next => none

/-- A watch that has told `es` of one membership, or will. -/
structure Follows (f : DirectChildFilter) (es : List LifecycleEvent) (w : Watcher) : Prop where
  filter_eq : w.directChild = some f
  only : w.directOnly = true
  raw : w.observation = none
  fronted : w.direct.Fronted
  bounded : w.direct.length ≤ lifecycleBufferCapacity
  covers : Covers (es.filter f.accepts) (w.received ++ w.direct)
  own : ∀ e, .event e ∈ w.received ++ w.direct → f.accepts e = true

variable {f : DirectChildFilter} {es : List LifecycleEvent}

theorem Follows.push (hf : f.isPending = false) (h : Follows f es w) (e : LifecycleEvent) : Follows f (es ++ [e]) (w.push e) := by
  have hdirect : (w.push e).direct = if f.accepts e then w.direct.push e else w.direct := by
    unfold Watcher.push
    simp only [h.filter_eq, Option.all_some, Option.any_some, hf, Bool.false_eq_true, if_false]
    cases ha : f.accepts e with
    | true => simp [accepts_path ha]
    | false => simp
  cases ha : f.accepts e with
  | true =>
    rw [ha, if_pos rfl] at hdirect
    refine ⟨h.filter_eq, h.only, h.raw, ?_, ?_, ?_, fun x hx => ?_⟩
    · rw [hdirect]
      exact EventQueue.push_fronted h.fronted e
    · rw [hdirect]
      exact EventQueue.push_length _ e
    · rw [hdirect, List.filter_append, List.filter_cons_of_pos ha]
      exact h.covers.replace_right fun hback => EventQueue.push_covers h.fronted hback e
    · rw [hdirect] at hx
      rcases List.mem_append.mp hx with hx | hx
      · exact h.own x (List.mem_append_left _ hx)
      · rcases EventQueue.push_sub hx with hx | rfl
        · exact h.own x (List.mem_append_right _ hx)
        · exact ha
  | false =>
    rw [ha, if_neg (by simp)] at hdirect
    refine ⟨h.filter_eq, h.only, h.raw, ?_, ?_, ?_, fun x hx => ?_⟩
    · rw [hdirect]
      exact h.fronted
    · rw [hdirect]
      exact h.bounded
    · rw [hdirect, List.filter_append, List.filter_cons_of_neg (by simp [ha]), List.filter_nil, List.append_nil]
      exact h.covers
    · rw [hdirect] at hx
      exact h.own x hx

theorem Follows.next (h : Follows f es w) : Follows f es w.next := by
  unfold Watcher.next queue setQueue
  simp only [h.raw, h.only, Option.any_none, Bool.false_eq_true, if_false, if_true, Option.map_none]
  cases hq : w.direct with
  | nil => exact h
  | cons i rest =>
    have hsame : w.received ++ [i] ++ rest = w.received ++ w.direct := by rw [hq, List.append_assoc, List.singleton_append]
    refine ⟨h.filter_eq, rfl, rfl, ?_, ?_, ?_, fun e he => ?_⟩
    · have hf := h.fronted.tail
      rw [hq] at hf
      exact hf
    · have hle := h.bounded
      rw [hq, List.length_cons] at hle
      exact Nat.le_of_succ_le hle
    · show Covers _ (w.received ++ [i] ++ rest)
      rw [hsame]
      exact h.covers
    · have he : .event e ∈ w.received ++ [i] ++ rest := he
      rw [hsame] at he
      exact h.own e he

theorem Follows.run (hf : f.isPending = false) (h : Follows f es w) (ops : List WatchOp) :
    Follows f (es ++ ops.filterMap WatchOp.event?) (ops.foldl apply w) := by
  induction ops generalizing w es with
  | nil => simpa using h
  | cons op ops ih =>
    cases op with
    | push e =>
      have hgo := ih (h.push hf e)
      rw [List.append_assoc] at hgo
      exact hgo
    | next => exact ih h.next

/-- The watch of a task from its subscription on: `before` is emitted while it is unfiltered,
    `between` while only the id is known. -/
def handedOff (id : String) (lineage : Nat) (before between : List LifecycleEvent) : Watcher :=
  (between.foldl push ((before.foldl push new).retainDirectChild (pending id))).retainDirectChild (exact id lineage)

theorem pushes_observation (events : List LifecycleEvent) : (events.foldl push w).observation = w.observation := by
  induction events generalizing w with
  | nil => rfl
  | cons e events ih => exact ih

theorem handedOff_follows {before : List LifecycleEvent} (between : List LifecycleEvent)
    (hfirst : ∀ e ∈ before, (exact id lineage).accepts e = false) :
    Follows (exact id lineage) (before ++ between) (handedOff id lineage before between) := by
  have hkept := direct_exact between hfirst
  obtain ⟨hfront, hcover, hlen⟩ := EventQueue.enforceCapacity_covers
    (EventQueue.fronted_events ((before ++ between).filter (exact id lineage).accepts)) (EventQueue.covers_events _)
  have hdirect : (handedOff id lineage before between).direct =
      EventQueue.enforceCapacity (((before ++ between).filter (exact id lineage).accepts).map .event) := by
    unfold handedOff
    generalize hw : between.foldl push ((before.foldl push new).retainDirectChild (pending id)) = w at hkept
    unfold retainDirectChild
    simp only [hkept]
    rfl
  refine ⟨rfl, rfl, ?_, ?_, ?_, ?_, fun e he => ?_⟩
  · show (between.foldl push ((before.foldl push new).retainDirectChild (pending id))).observation = none
    rw [pushes_observation]
    exact pushes_observation before
  · rw [hdirect]
    exact hfront
  · rw [hdirect]
    exact hlen
  · rw [hdirect]
    exact hcover
  · rw [hdirect] at he
    have hin := EventQueue.shrink_sub (show .event e ∈ EventQueue.shrink _ _ _ from he)
    obtain ⟨e', he', heq⟩ := List.mem_map.mp hin
    cases heq
    exact (List.mem_filter.mp he').2

/-- Whatever is emitted before, between and after the two filters: once the exact filter is
    set, what was popped and what is staged account for the events of the membership, in
    order, with none of another, within the capacity. -/
theorem handoff_lossless (id : String) (lineage : Nat) (before between : List LifecycleEvent) (after : List WatchOp)
    (hfirst : ∀ e ∈ before, (exact id lineage).accepts e = false) :
    let w := after.foldl apply (handedOff id lineage before between)
    Covers ((before ++ between ++ after.filterMap WatchOp.event?).filter (exact id lineage).accepts) (w.received ++ w.direct) ∧
    (∀ e, .event e ∈ w.received ++ w.direct → (exact id lineage).accepts e = true) ∧
    w.direct.length ≤ lifecycleBufferCapacity := by
  intro w
  have h := (handedOff_follows between hfirst).run rfl after
  exact ⟨h.covers, h.own, h.bounded⟩

/-- An earlier membership of the id is staged first, and goes when the lineage is known. -/
theorem handoff_lossless_readded :
    let old : LifecycleEvent := ⟨[], .child (childEvent ⟨"a", 0, 0, 0, .removed⟩ 1)⟩
    let added : LifecycleEvent := ⟨[], .child (childEvent ⟨"a", 1, 0, 0, .added⟩ 2)⟩
    let started : LifecycleEvent := ⟨[], .child (childEvent ⟨"a", 1, 0, 0, .started 0⟩ 3)⟩
    let w := [WatchOp.push started, .next].foldl apply (handedOff "a" 1 [old] [old, added])
    w.received ++ w.direct = [.event added, .event started] ∧ Covers [added, started] (w.received ++ w.direct) := by
  intro old added started w
  have hall := handoff_lossless "a" 1 [old] [old, added] [.push started, .next] (by decide)
  exact ⟨by decide +kernel, hall.1⟩

end Watcher

end Kokage.Lifecycle
