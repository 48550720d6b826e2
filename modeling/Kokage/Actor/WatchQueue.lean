/-
  Kokage.Actor.WatchQueue — the bounded buffer between a monitor hub and one observer
  (`actor/monitor.rs`: `WatchQueue`), and what it has in common with the queue of a
  lifecycle watch (`Kokage.Lifecycle.Queue`).

  `record_drop` was written twice. The two agree on every buffer of two items or more
  (`recordDrop_eq`), and a push drops from nothing shorter, so the two pushes are the same
  function (`push_eq`). On a shorter buffer they differ: this one counts a drop even where
  there is nothing to drop.

  `Buffer` is a queue with its history. Whatever is pushed and popped, the items handed out
  and the items still there account for everything pushed, in order (`queues_conserve`). The
  counts are natural numbers: a marker that stands for 2^64 events is out of reach.
-/

import Kokage.Lifecycle.Queue

namespace Kokage.Actor

open Kokage.Lib Kokage.Lifecycle

variable {E : Type}

def watchBufferCap : Nat := 128

/-! ## The buffer of a watch -/

namespace WatchQueue

/-- `WatchQueue::record_drop`: the count goes up whether or not an event follows the
    marker, and an empty buffer gets a marker too. -/
def recordDrop : EventQueue E → EventQueue E
  | .lagged dropped :: _ :: rest => .lagged (dropped + 1) :: rest
  | [.lagged dropped] => [.lagged (dropped + 1)]
  | .event _ :: rest => .lagged 1 :: rest
  | [] => [.lagged 1]

/-- `while events.len() > limit { record_drop }`, as in `EventQueue.shrink`. -/
def shrink (limit : Nat) : Nat → EventQueue E → EventQueue E
  | 0, q => q
  | fuel + 1, q => if limit < q.length then shrink limit fuel (recordDrop q) else q

def push (q : EventQueue E) (e : E) : EventQueue E := shrink (watchBufferCap - 1) (2 * q.length) q ++ [.event e]

theorem recordDrop_eq {q : EventQueue E} (h : 2 ≤ q.length) : recordDrop q = q.recordDrop := by
  match q, h with
  | .lagged n :: x :: rest, _ => rfl
  | .event e :: x :: rest, _ => rfl

theorem shrink_eq {limit : Nat} (hl : 1 ≤ limit) (fuel : Nat) (q : EventQueue E) : shrink limit fuel q = q.shrink limit fuel := by
  induction fuel generalizing q with
  | zero => rfl
  | succ fuel ih =>
    unfold shrink EventQueue.shrink
    by_cases hlong : limit < q.length
    · rw [if_pos hlong, if_pos hlong, recordDrop_eq (by omega), ih]
    · rw [if_neg hlong, if_neg hlong]

theorem push_eq (q : EventQueue E) (e : E) : push q e = q.push e := by
  unfold push EventQueue.push
  rw [shrink_eq (by decide)]
  rfl

end WatchQueue

/-! ## The loops end -/

/-- A run of `while events.len() > limit { drop }` from `q` to `q'`. -/
inductive Loop (drop : EventQueue E → EventQueue E) (limit : Nat) : EventQueue E → EventQueue E → Prop
  | done {q : EventQueue E} : q.length ≤ limit → Loop drop limit q q
  | again {q q' : EventQueue E} : limit < q.length → Loop drop limit (drop q) q' → Loop drop limit q q'

/-- The loop of a lifecycle queue ends where `shrink` does. -/
theorem shrink_loop {limit : Nat} (hl : 1 ≤ limit) : ∀ (fuel : Nat) (q : EventQueue E), q.rounds ≤ fuel →
    Loop EventQueue.recordDrop limit q (q.shrink limit fuel)
  | 0, q, h => by
    have hlen := EventQueue.shrink_length limit hl 0 q h
    exact .done hlen
  | fuel + 1, q, h => by
    unfold EventQueue.shrink
    by_cases hlong : limit < q.length
    · rw [if_pos hlong]
      have hless := EventQueue.recordDrop_rounds (q := q) (by omega)
      exact .again hlong (shrink_loop hl fuel q.recordDrop (by omega))
    · rw [if_neg hlong]
      exact .done (by omega)

/-- So does that of a watch queue: its loop takes the same steps. -/
theorem Loop.watch {limit : Nat} (hl : 1 ≤ limit) {q q' : EventQueue E} (h : Loop EventQueue.recordDrop limit q q') :
    Loop WatchQueue.recordDrop limit q q' := by
  induction h with
  | done hlen => exact .done hlen
  | again hlong _ ih =>
    refine .again hlong ?_
    rw [WatchQueue.recordDrop_eq (by omega)]
    exact ih

/-! ## Pushes and pops -/

structure Buffer (E : Type) where
  items : EventQueue E
  pushed : List E
  popped : List (Item E)

inductive BufferOp (E : Type) where
  | push (e : E)
  | pop

namespace Buffer

def new : Buffer E := ⟨[], [], []⟩

variable (push : EventQueue E → E → EventQueue E)

def step (b : Buffer E) : BufferOp E → Buffer E
  | .push e => { b with items := push b.items e, pushed := b.pushed ++ [e] }
  | .pop =>
    match b.items with
    | [] => b
    | i :: rest => { b with items := rest, popped := b.popped ++ [i] }

def run (ops : List (BufferOp E)) : Buffer E := ops.foldl (step push) new

/-- What a bounded queue keeps to. -/
structure Conserved (capacity : Nat) (b : Buffer E) : Prop where
  bounded : b.items.length ≤ capacity
  /-- There is at most one marker, at the front. -/
  fronted : b.items.Fronted
  covers : Covers b.pushed (b.popped ++ b.items)
  /-- The last event pushed has not been dropped. -/
  newest : ∀ e, b.pushed.getLast? = some e → (b.popped ++ b.items).getLast? = some (.event e)

variable {push} {capacity : Nat} {b : Buffer E}

theorem step_conserved (hbound : ∀ q e, (push q e).length ≤ capacity)
    (hfront : ∀ q e, EventQueue.Fronted q → (push q e).Fronted)
    (hcover : ∀ q e es, EventQueue.Fronted q → Covers es q → Covers (es ++ [e]) (push q e))
    (hlast : ∀ q e, (push q e).getLast? = some (.event e)) (h : b.Conserved capacity) (op : BufferOp E) :
    (b.step push op).Conserved capacity := by
  cases op with
  | push e =>
    refine ⟨hbound _ e, hfront _ e h.fronted, ?_, fun e' he' => ?_⟩
    · exact h.covers.replace_right fun hback => hcover _ e _ h.fronted hback
    · have heq : e = e' := by simpa [step] using he'
      subst heq
      show (b.popped ++ push b.items e).getLast? = _
      rw [List.getLast?_append, hlast]
      rfl
  | pop =>
    unfold step
    cases hitems : b.items with
    | nil => exact h
    | cons i rest =>
      have hsame : b.popped ++ [i] ++ rest = b.popped ++ b.items := by rw [hitems, List.append_assoc, List.singleton_append]
      refine ⟨?_, ?_, ?_, fun e he => ?_⟩
      · have hle := h.bounded
        rw [hitems, List.length_cons] at hle
        exact Nat.le_of_succ_le hle
      · have hf := h.fronted.tail
        rw [hitems] at hf
        exact hf
      · show Covers b.pushed (b.popped ++ [i] ++ rest)
        rw [hsame]
        exact h.covers
      · show (b.popped ++ [i] ++ rest).getLast? = _
        rw [hsame]
        exact h.newest e he

theorem new_conserved (capacity : Nat) : (new : Buffer E).Conserved capacity :=
  ⟨Nat.zero_le _, nofun, .nil, nofun⟩

theorem run_conserved (ops : List (BufferOp E)) : (run EventQueue.push ops).Conserved lifecycleBufferCapacity := by
  unfold run
  generalize hb : (new : Buffer E) = b
  have h : b.Conserved lifecycleBufferCapacity := hb ▸ new_conserved _
  clear hb
  induction ops generalizing b with
  | nil => exact h
  | cons op ops ih =>
    refine ih _ (step_conserved EventQueue.push_length (fun _ e hf => EventQueue.push_fronted hf e)
      (fun _ e _ hf hc => EventQueue.push_covers hf hc e) (fun q e => ?_) h op)
    unfold EventQueue.push
    exact List.getLast?_concat

/-- Both queues, under any pushes and pops, keep within their capacity, with at most one
    marker, at the front; what came out and what is left account for what was pushed, and the
    last event is among them; and every loop ends. -/
theorem queues_conserve (ops : List (BufferOp E)) :
    (run EventQueue.push ops).Conserved lifecycleBufferCapacity ∧
    (run WatchQueue.push ops).Conserved watchBufferCap ∧
    (∀ (q : EventQueue E) e, ∃ q', Loop EventQueue.recordDrop (lifecycleBufferCapacity - 1) q q' ∧
      q.push e = q' ++ [.event e]) ∧
    (∀ (q : EventQueue E) e, ∃ q', Loop WatchQueue.recordDrop (watchBufferCap - 1) q q' ∧
      WatchQueue.push q e = q' ++ [.event e]) ∧
    (∀ q : EventQueue E, Loop EventQueue.recordDrop lifecycleBufferCapacity q q.enforceCapacity) := by
  have hsame : (WatchQueue.push : EventQueue E → E → EventQueue E) = EventQueue.push :=
    funext fun q => funext fun e => WatchQueue.push_eq q e
  refine ⟨run_conserved ops, ?_, fun q e => ?_, fun q e => ?_, fun q => ?_⟩
  · rw [hsame]
    exact run_conserved ops
  · exact ⟨_, shrink_loop (by decide) _ q (EventQueue.rounds_le q), rfl⟩
  · have hloop : Loop EventQueue.recordDrop (watchBufferCap - 1) q _ :=
      shrink_loop (by decide) _ q (EventQueue.rounds_le q)
    refine ⟨_, hloop.watch (by decide), ?_⟩
    rw [WatchQueue.push_eq]
    rfl
  · exact shrink_loop (by decide) _ q (EventQueue.rounds_le q)

end Buffer

end Kokage.Actor
