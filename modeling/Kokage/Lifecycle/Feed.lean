/-
  Kokage.Lifecycle.Feed — what a running scope lets those see who follow it.

  A follower reads the scope's latest snapshot and pops a watch on its hub. The runtime
  publishes and emits in one order, and the follower looks whenever it likes: a `Feed`
  says how far the scope's `History` has become visible, and each of its actions is one
  step of the scope. `LifecycleHub::emit` publishes the aligned snapshot of an event before
  the forward stages it, so a snapshot that is read after an event was popped is not older
  than the event (`Feed.Aligned`).

  The watch follows one membership or all direct children. Events of nested scopes enter
  no queue such a watch reads, and are left out.

  A queue that drops keeps its last 126 events at least, so the end of a membership's
  events is told without a gap however far behind the follower is
  (`Watcher.FollowsClosely`).
-/

import Kokage.Lifecycle.Handoff

namespace Kokage.Lifecycle

open Kokage.Lib Kokage.Supervisor

/-! ## Queues that drop late -/

namespace EventQueue

variable {E : Type} {q : EventQueue E}

theorem recordDrop_length (q : EventQueue E) : q.length ≤ q.recordDrop.length + 1 := by
  unfold recordDrop
  split
  · simp
  · simp
  · omega

theorem shrink_of_le {limit : Nat} (h : q.length ≤ limit) (fuel : Nat) : shrink limit fuel q = q := by
  cases fuel with
  | zero => rfl
  | succ fuel =>
    unfold shrink
    rw [if_neg (by omega)]

theorem le_shrink {limit : Nat} (h : limit ≤ q.length) (fuel : Nat) : limit ≤ (shrink limit fuel q).length := by
  induction fuel generalizing q with
  | zero => exact h
  | succ fuel ih =>
    unfold shrink
    split
    · have := recordDrop_length q
      exact ih (by omega)
    · exact h

/-- How many of the last events a queue keeps apart, whatever it drops. -/
def kept : Nat := lifecycleBufferCapacity - 2

theorem push_recent {es : List E} {items : List (Item E)} (hf : Fronted q) (h : Recent kept es (items ++ q)) (e : E) :
    Recent kept (es ++ [e]) (items ++ q.push e) := by
  by_cases hlong : lifecycleBufferCapacity - 1 < q.length
  · -- the queue drops: what is left behind its marker is long enough
    obtain ⟨pre, front, suf, hes, hitems, hcov, -⟩ := h
    have hall : Covers es (items ++ q) := by
      rw [hes, hitems]
      exact hcov.append (covers_events suf)
    obtain ⟨told, back, rfl, htold, hback⟩ := Covers.split hall
    have hpush := push_covers hf hback e
    have hlen : kept < (q.push e).length := by
      have hle := @le_shrink E q _ (Nat.le_of_lt hlong) (2 * q.length)
      unfold push kept
      rw [List.length_append, List.length_singleton]
      omega
    have := Recent.of_queue htold hpush (push_fronted hf e) hlen
    rwa [← List.append_assoc] at this
  · have hpush : q.push e = q ++ [.event e] := by
      unfold push
      rw [shrink_of_le (by omega)]
    rw [hpush, ← List.append_assoc]
    exact h.snoc e

theorem enforceCapacity_recent (es : List E) : Recent kept es (enforceCapacity (es.map .event)) := by
  by_cases hlong : lifecycleBufferCapacity < es.length
  · obtain ⟨hf, hc, -⟩ := enforceCapacity_covers (fronted_events es) (covers_events es)
    have hlen : kept < (enforceCapacity (es.map Item.event)).length := by
      have hle : lifecycleBufferCapacity ≤ (shrink lifecycleBufferCapacity (2 * (es.map Item.event).length) (es.map Item.event)).length :=
        le_shrink (by rw [List.length_map]; omega) _
      unfold enforceCapacity kept
      have : lifecycleBufferCapacity = 128 := rfl
      omega
    exact Recent.of_queue .nil hc hf hlen
  · unfold enforceCapacity
    rw [shrink_of_le (by rw [List.length_map]; omega)]
    exact .of_events es

end EventQueue

/-! ## Watches of one membership -/

namespace Watcher

open DirectChildFilter

variable {w : Watcher} {f : DirectChildFilter} {es : List LifecycleEvent} {id : String} {lineage : Nat}

/-- A watch that follows one membership and has, or will, tell its last events one by one. -/
structure FollowsClosely (f : DirectChildFilter) (es : List LifecycleEvent) (w : Watcher) : Prop extends Follows f es w where
  recent : Recent EventQueue.kept (es.filter f.accepts) (w.received ++ w.direct)

theorem FollowsClosely.push (hf : f.isPending = false) (h : FollowsClosely f es w) (e : LifecycleEvent) :
    FollowsClosely f (es ++ [e]) (w.push e) := by
  refine ⟨h.toFollows.push hf e, ?_⟩
  have hdirect : (w.push e).direct = if f.accepts e then w.direct.push e else w.direct := by
    unfold Watcher.push
    simp only [h.filter_eq, Option.all_some, Option.any_some, hf, Bool.false_eq_true, if_false]
    cases ha : f.accepts e with
    | true => simp [accepts_path ha]
    | false => simp
  show Recent _ _ (w.received ++ (w.push e).direct)
  rw [hdirect, List.filter_append]
  cases ha : f.accepts e with
  | true =>
    rw [if_pos rfl, List.filter_cons_of_pos ha]
    exact EventQueue.push_recent h.fronted h.recent e
  | false =>
    rw [if_neg (by simp), List.filter_cons_of_neg (by simp [ha]), List.filter_nil, List.append_nil]
    exact h.recent

theorem next_direct (h : Follows f es w) :
    (w.direct = [] ∧ w.next = w) ∨ ∃ i rest, w.direct = i :: rest ∧ w.next.direct = rest ∧ w.next.received = w.received ++ [i] := by
  unfold Watcher.next queue setQueue
  simp only [h.raw, h.only, Option.any_none, Bool.false_eq_true, if_false, if_true, Option.map_none]
  cases hq : w.direct with
  | nil => exact .inl ⟨rfl, rfl⟩
  | cons i rest => exact .inr ⟨i, rest, rfl, rfl, rfl⟩

theorem FollowsClosely.next (h : FollowsClosely f es w) : FollowsClosely f es w.next := by
  refine ⟨h.toFollows.next, ?_⟩
  rcases next_direct h.toFollows with ⟨-, hsame⟩ | ⟨i, rest, hq, hrest, hreceived⟩
  · rw [hsame]
    exact h.recent
  · have hrecent := h.recent
    rw [hq] at hrecent
    rw [hreceived, hrest, List.append_assoc]
    exact hrecent

theorem handedOff_followsClosely {before : List LifecycleEvent} (between : List LifecycleEvent)
    (hfirst : ∀ e ∈ before, (exact id lineage).accepts e = false) :
    FollowsClosely (exact id lineage) (before ++ between) (handedOff id lineage before between) := by
  refine ⟨handedOff_follows between hfirst, ?_⟩
  have hkept := direct_exact between hfirst
  have hdirect : (handedOff id lineage before between).direct =
      EventQueue.enforceCapacity (((before ++ between).filter (exact id lineage).accepts).map .event) := by
    unfold handedOff
    generalize hw : between.foldl Watcher.push ((before.foldl Watcher.push new).retainDirectChild (pending id)) = w at hkept
    unfold retainDirectChild
    simp only [hkept]
    rfl
  show Recent _ _ ([] ++ (handedOff id lineage before between).direct)
  rw [hdirect]
  exact EventQueue.enforceCapacity_recent _

end Watcher

/-! ## Histories -/

/-- Everything a scope publishes and emits, in order. -/
structure History where
  published : List SupervisorSnapshot
  log : List ChildEvent

/-- An event of the watched scope itself. -/
def direct (e : ChildEvent) : LifecycleEvent := ⟨[], .child e⟩

def LifecycleEvent.child? (e : LifecycleEvent) : Option ChildEvent :=
  match e.kind with
  | .child event => some event
  | .supervisor _ => none

/-- How much of a history is visible. -/
structure Feed where
  /-- How many snapshots are published. -/
  shown : Nat
  /-- How many events are staged. -/
  staged : Nat
  watch : Watcher
  terminal : Bool

inductive FeedAction where
  | publish
  | stage
  | supervisor (kind : SupervisorEventKind)
  | markTerminal
  deriving DecidableEq, Repr

namespace Feed

variable {H : History} {f : Feed}

/-- The snapshot a follower reads; none before the first publication. -/
def latest (H : History) (f : Feed) : Option SupervisorSnapshot := (H.published.take f.shown).getLast?

def step (H : History) (f : Feed) : FeedAction → Feed
  | .publish => if f.shown < H.published.length then { f with shown := f.shown + 1 } else f
  | .stage =>
    match H.log[f.staged]? with
    | some e =>
      if !f.terminal && (H.published.take f.shown).any (·.lifecycleSeq = e.seq) then
        { f with staged := f.staged + 1, watch := f.watch.push (direct e) }
      else f
    | none => f
  | .supervisor kind => if f.terminal then f else { f with watch := f.watch.push ⟨[], .supervisor kind⟩ }
  | .markTerminal => { f with terminal := true }

/-- Every staged event has its aligned snapshot published. -/
def Aligned (H : History) (f : Feed) : Prop :=
  ∀ e ∈ H.log.take f.staged, ∃ s ∈ H.published.take f.shown, s.lifecycleSeq = e.seq

/-- An action publishes, stages the next event, or changes neither. -/
theorem step_cases (a : FeedAction) :
    ((f.step H a).shown = f.shown + 1 ∧ f.shown < H.published.length ∧ (f.step H a).staged = f.staged ∧ (f.step H a).watch = f.watch) ∨
    (∃ e, H.log[f.staged]? = some e ∧ (∃ s ∈ H.published.take f.shown, s.lifecycleSeq = e.seq) ∧
      (f.step H a).shown = f.shown ∧ (f.step H a).staged = f.staged + 1 ∧ (f.step H a).watch = f.watch.push (direct e)) ∨
    ((f.step H a).shown = f.shown ∧ (f.step H a).staged = f.staged ∧
      ((f.step H a).watch = f.watch ∨ ∃ kind, (f.step H a).watch = f.watch.push ⟨[], .supervisor kind⟩)) := by
  cases a with
  | publish =>
    unfold step
    simp only
    split
    · rename_i hlt
      exact .inl ⟨rfl, hlt, rfl, rfl⟩
    · exact .inr (.inr ⟨rfl, rfl, .inl rfl⟩)
  | stage =>
    unfold step
    simp only
    split
    · rename_i e he
      split
      · rename_i hgo
        simp only [Bool.and_eq_true, List.any_eq_true, decide_eq_true_eq] at hgo
        exact .inr (.inl ⟨e, he, hgo.2, rfl, rfl, rfl⟩)
      · exact .inr (.inr ⟨rfl, rfl, .inl rfl⟩)
    · exact .inr (.inr ⟨rfl, rfl, .inl rfl⟩)
  | supervisor kind =>
    unfold step
    simp only
    split
    · exact .inr (.inr ⟨rfl, rfl, .inl rfl⟩)
    · exact .inr (.inr ⟨rfl, rfl, .inr ⟨kind, rfl⟩⟩)
  | markTerminal => exact .inr (.inr ⟨rfl, rfl, .inl rfl⟩)

theorem take_succ_log {e : ChildEvent} (he : H.log[f.staged]? = some e) :
    H.log.take (f.staged + 1) = H.log.take f.staged ++ [e] := by
  rw [List.take_add_one, he]
  rfl

theorem Aligned.step (h : f.Aligned H) (a : FeedAction) : (f.step H a).Aligned H := by
  have hmono : ∀ s ∈ H.published.take f.shown, s ∈ H.published.take (f.shown + 1) := fun s hs =>
    (List.take_sublist_take_left (Nat.le_succ _)).subset hs
  unfold Aligned
  rcases @step_cases H f a with ⟨hshown, -, hstaged, -⟩ | ⟨e, he, halign, hshown, hstaged, -⟩ | ⟨hshown, hstaged, -⟩
  · rw [hshown, hstaged]
    intro e he
    obtain ⟨s, hs, hseq⟩ := h e he
    exact ⟨s, hmono s hs, hseq⟩
  · rw [hshown, hstaged, take_succ_log he]
    intro e' he'
    rcases List.mem_append.mp he' with he' | he'
    · exact h e' he'
    · rw [List.mem_singleton.mp he']
      exact halign
  · rw [hshown, hstaged]
    exact h

/-! ### The feed of one membership -/

/-- The events of a membership, as the watch is told them. -/
def told (log : List ChildEvent) (id : String) (lineage : Nat) : List LifecycleEvent :=
  (log.filter fun e => e.childId = id && e.lineage = lineage).map direct

theorem accepts_direct (id : String) (lineage : Nat) (e : ChildEvent) :
    (DirectChildFilter.exact id lineage).accepts (direct e) = (decide (e.childId = id) && decide (e.lineage = lineage)) := rfl

theorem filter_direct (log : List ChildEvent) (id : String) (lineage : Nat) :
    (log.map direct).filter (DirectChildFilter.exact id lineage).accepts = told log id lineage := by
  rw [List.filter_map]
  rfl

/-- The watch has been told the events of the membership among those staged, or will be. -/
def Tells (H : History) (id : String) (lineage : Nat) (f : Feed) : Prop :=
  ∃ es, Watcher.FollowsClosely (.exact id lineage) es f.watch ∧
    es.filter (DirectChildFilter.exact id lineage).accepts = told (H.log.take f.staged) id lineage

theorem Tells.step {id : String} {lineage : Nat} (h : f.Tells H id lineage) (a : FeedAction) : (f.step H a).Tells H id lineage := by
  obtain ⟨es, hw, hes⟩ := h
  unfold Tells
  rcases @step_cases H f a with ⟨-, -, hstaged, hwatch⟩ | ⟨e, he, -, -, hstaged, hwatch⟩ | ⟨-, hstaged, hwatch⟩
  · rw [hstaged, hwatch]
    exact ⟨es, hw, hes⟩
  · rw [hstaged, hwatch, take_succ_log he]
    refine ⟨es ++ [direct e], hw.push rfl _, ?_⟩
    rw [List.filter_append, hes]
    unfold told
    rw [List.filter_append, List.map_append]
    exact congrArg _ (filter_direct [e] id lineage)
  · rw [hstaged]
    rcases hwatch with hwatch | ⟨kind, hwatch⟩
    · rw [hwatch]
      exact ⟨es, hw, hes⟩
    · rw [hwatch]
      refine ⟨es ++ [⟨[], .supervisor kind⟩], hw.push rfl _, ?_⟩
      rw [List.filter_append, hes, List.filter_cons_of_neg (by simp [DirectChildFilter.accepts, LifecycleEventKind.childIdentity])]
      exact List.append_nil _

/-- The feed of a task whose watch was subscribed before the first `n₀` events, knew the id
    after them and the lineage after `n₁` more. -/
def handedOff (H : History) (id : String) (lineage shown n₀ n₁ : Nat) : Feed where
  shown := shown
  staged := n₀ + n₁
  watch := Watcher.handedOff id lineage ((H.log.take n₀).map direct) (((H.log.drop n₀).take n₁).map direct)
  terminal := false

/-- The watch knew the id before the first event of the membership, and what it was told is published. -/
structure Handed (H : History) (id : String) (lineage shown n₀ n₁ : Nat) : Prop where
  first : ∀ e ∈ H.log.take n₀, ¬ (e.childId = id ∧ e.lineage = lineage)
  aligned : (handedOff H id lineage shown n₀ n₁).Aligned H

theorem Handed.tells {id : String} {lineage shown n₀ n₁ : Nat} (h : Handed H id lineage shown n₀ n₁) :
    (handedOff H id lineage shown n₀ n₁).Tells H id lineage := by
  refine ⟨_, Watcher.handedOff_followsClosely _ fun e he => ?_, ?_⟩
  · obtain ⟨e', he', rfl⟩ := List.mem_map.mp he
    rw [accepts_direct, ← Bool.decide_and]
    exact decide_eq_false (h.first e' he')
  · rw [← List.map_append, ← List.take_add, filter_direct]
    rfl

/-- A task that is there from the start. -/
theorem Handed.fresh {id : String} {lineage shown : Nat} : Handed H id lineage shown 0 0 where
  first e he := by cases he
  aligned e he := by cases he

/-! ### The feed of all direct children -/

/-- A watch of the scope itself that has told `es`, or will. -/
structure FollowsDirect (es : List LifecycleEvent) (w : Watcher) : Prop where
  unfiltered : w.directChild = none
  only : w.directOnly = true
  raw : w.observation = none
  fronted : w.direct.Fronted
  own : ∀ e ∈ es, e.scopePath = []
  covers : Covers es (w.received ++ w.direct)

namespace FollowsDirect

variable {es : List LifecycleEvent} {w : Watcher}

theorem new : FollowsDirect [] Watcher.new.directChildren := ⟨rfl, rfl, rfl, (fun i hi => by cases hi), (fun e he => by cases he), .nil⟩

theorem push (h : FollowsDirect es w) (kind : LifecycleEventKind) : FollowsDirect (es ++ [⟨[], kind⟩]) (w.push ⟨[], kind⟩) := by
  have hdirect : (w.push ⟨[], kind⟩).direct = w.direct.push ⟨[], kind⟩ := by
    unfold Watcher.push
    simp [h.unfiltered]
  refine ⟨h.unfiltered, h.only, h.raw, ?_, fun e he => ?_, ?_⟩
  · rw [hdirect]
    exact EventQueue.push_fronted h.fronted _
  · rcases List.mem_append.mp he with he | he
    · exact h.own e he
    · rw [List.mem_singleton.mp he]
  · rw [hdirect]
    exact h.covers.replace_right fun hback => EventQueue.push_covers h.fronted hback _

theorem next (h : FollowsDirect es w) : FollowsDirect es w.next := by
  unfold Watcher.next Watcher.queue Watcher.setQueue
  simp only [h.raw, h.only, Option.any_none, Bool.false_eq_true, if_false, if_true, Option.map_none]
  cases hq : w.direct with
  | nil => exact h
  | cons i rest =>
    have hsame : w.received ++ [i] ++ rest = w.received ++ w.direct := by rw [hq, List.append_assoc, List.singleton_append]
    refine ⟨h.unfiltered, rfl, rfl, ?_, h.own, ?_⟩
    · have hf := h.fronted.tail
      rw [hq] at hf
      exact hf
    · show Covers _ (w.received ++ [i] ++ rest)
      rw [hsame]
      exact h.covers

theorem next_eq {i : Item LifecycleEvent} {rest : EventQueue LifecycleEvent} (h : FollowsDirect es w) (hq : w.direct = i :: rest) :
    w.next.direct = rest ∧ w.next.received = w.received ++ [i] := by
  unfold Watcher.next Watcher.queue Watcher.setQueue
  simp only [h.raw, h.only, hq, Option.any_none, Bool.false_eq_true, if_false, if_true, and_self]

end FollowsDirect

/-- The feed of a watch that was subscribed when `staged` events had been forwarded. -/
def subscribed (shown staged : Nat) : Feed := ⟨shown, staged, Watcher.new.directChildren, false⟩

theorem subscribed_aligned {shown : Nat} : (subscribed shown 0).Aligned H := fun e he => by cases he

/-- The watch has told `es`, or will: of the scope's children, what was staged after the first `n₀` events. -/
structure TellsAll (H : History) (n₀ : Nat) (es : List LifecycleEvent) (f : Feed) : Prop where
  follows : FollowsDirect es f.watch
  staged : H.log.take f.staged = H.log.take n₀ ++ es.filterMap LifecycleEvent.child?

theorem subscribed_tells {shown n₀ : Nat} : (subscribed shown n₀).TellsAll H n₀ [] := ⟨.new, by simp [subscribed]⟩

theorem TellsAll.step {n₀ : Nat} {es : List LifecycleEvent} (h : f.TellsAll H n₀ es) (a : FeedAction) :
    ∃ more, (f.step H a).TellsAll H n₀ (es ++ more) := by
  rcases @step_cases H f a with ⟨-, -, hstaged, hwatch⟩ | ⟨e, he, -, -, hstaged, hwatch⟩ | ⟨-, hstaged, hwatch | ⟨kind, hwatch⟩⟩
  · refine ⟨[], ?_, ?_⟩
    · rw [hwatch, List.append_nil]
      exact h.follows
    · rw [hstaged, List.append_nil]
      exact h.staged
  · refine ⟨[direct e], ?_, ?_⟩
    · rw [hwatch]
      exact h.follows.push _
    · rw [hstaged, take_succ_log he, h.staged, List.filterMap_append, List.append_assoc]
      rfl
  · refine ⟨[], ?_, ?_⟩
    · rw [hwatch, List.append_nil]
      exact h.follows
    · rw [hstaged, List.append_nil]
      exact h.staged
  · refine ⟨[⟨[], .supervisor kind⟩], ?_, ?_⟩
    · rw [hwatch]
      exact h.follows.push _
    · rw [hstaged, h.staged, List.filterMap_append]
      simp [LifecycleEvent.child?]

theorem shown_le (a : FeedAction) : f.shown ≤ (f.step H a).shown := by
  rcases @step_cases H f a with ⟨hshown, -⟩ | ⟨e, -, -, hshown, -⟩ | ⟨hshown, -⟩
  · omega
  · omega
  · omega

theorem staged_le (a : FeedAction) : f.staged ≤ (f.step H a).staged := by
  rcases @step_cases H f a with ⟨-, -, hstaged, -⟩ | ⟨e, -, -, -, hstaged, -⟩ | ⟨-, hstaged, -⟩
  · omega
  · omega
  · omega

end Feed

end Kokage.Lifecycle
