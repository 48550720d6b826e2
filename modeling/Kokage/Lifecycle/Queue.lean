/-
  Kokage.Lifecycle.Queue — the bounded event queue behind a lifecycle watch and its end
  of stream (`supervisor/lifecycle.rs`: `LifecycleEventQueue`, `LifecycleWatch::next`).

  The queue holds at most `lifecycleBufferCapacity` events. A push into a full queue
  drops the oldest event into a lag marker at the front, which counts what it stands
  for; only the front of a queue can be a marker (`Fronted`).

  `next` pops and, when nothing was there, reads the terminal flag. The flag and the
  events are two variables, so a producer can act between the two reads: an `Action` is
  one atomic step of either side and `Stream.step` what it does. A call that finds
  neither an event nor the flag waits; a wake-up is a step of its own that may come at
  any time, so nothing here rests on when the notification is delivered.
-/

import Mathlib.Data.List.ReduceOption
import Kokage.Lib.Coalesce

namespace Kokage.Lifecycle

open Kokage.Lib

variable {E : Type}

def lifecycleBufferCapacity : Nat := 128

/-! ## The queue -/

abbrev EventQueue (E : Type) := List (Item E)

namespace EventQueue

/-- `record_drop`: the oldest event becomes a marker, or joins the marker before it. -/
def recordDrop : EventQueue E → EventQueue E
  | .lagged dropped :: _ :: rest => .lagged (dropped + 1) :: rest
  | .event _ :: rest => .lagged 1 :: rest
  | q => q

/-- `while events.len() > limit { record_drop }`. A drop that starts a marker frees no
    place, so two rounds for each event are enough (`shrink_length`). -/
def shrink (limit : Nat) : Nat → EventQueue E → EventQueue E
  | 0, q => q
  | fuel + 1, q => if limit < q.length then shrink limit fuel (recordDrop q) else q

def push (q : EventQueue E) (e : E) : EventQueue E :=
  shrink (lifecycleBufferCapacity - 1) (2 * q.length) q ++ [.event e]

def pushUnbounded (q : EventQueue E) (e : E) : EventQueue E := q ++ [.event e]

def enforceCapacity (q : EventQueue E) : EventQueue E := shrink lifecycleBufferCapacity (2 * q.length) q

/-- Only the front of a queue can be a marker. -/
def Fronted (q : EventQueue E) : Prop := ∀ i ∈ q.tail, i.isLagged = false

theorem Fronted.tail {q : EventQueue E} (h : Fronted q) : Fronted q.tail := by
  intro i hi
  exact h i (List.mem_of_mem_tail hi)

theorem Fronted.append_event {q : EventQueue E} (h : Fronted q) (e : E) : Fronted (q ++ [.event e]) := by
  intro i hi
  cases q with
  | nil => cases hi
  | cons x rest =>
    rw [List.cons_append, List.tail_cons] at hi
    rcases List.mem_append.mp hi with hi | hi
    · exact h i hi
    · rw [List.mem_singleton.mp hi]
      rfl

theorem recordDrop_fronted {q : EventQueue E} (h : Fronted q) : Fronted (recordDrop q) := by
  unfold recordDrop
  split
  · intro i hi
    exact h i (List.mem_cons_of_mem _ hi)
  · intro i hi
    exact h i hi
  · exact h

/-- The drops a marker stands for are counted: a drop changes the covering of no history. -/
theorem recordDrop_covers {q : EventQueue E} {es : List E} (hf : Fronted q) (h : Covers es q) :
    Covers es (recordDrop q) := by
  unfold recordDrop
  split
  · cases h with
    | lagged gone hne h =>
      cases h with
      | event e h =>
        have hc := Covers.lagged (gone ++ [e]) (by simp) h
        simpa using hc
      | lagged gone' _ _ => cases hf _ (List.mem_cons_self ..)
  · cases h with
    | event _ h => exact .lagged [_] (by simp) h
  · exact h

/-- What a queue still has to give up before it fits, in rounds of the loop. -/
def rounds (q : EventQueue E) : Nat :=
  2 * q.length - (match q with | .lagged _ :: _ => 1 | _ => 0)

theorem recordDrop_rounds {q : EventQueue E} (h : 2 ≤ q.length) : rounds (recordDrop q) + 1 ≤ rounds q := by
  match q, h with
  | .lagged n :: x :: rest, _ =>
    simp only [rounds, recordDrop, List.length_cons]
    omega
  | .event e :: x :: rest, _ =>
    simp only [rounds, recordDrop, List.length_cons]
    omega

/-- The loop of `push` and `enforce_capacity` ends with the queue within its limit. -/
theorem shrink_length (limit : Nat) (hl : 1 ≤ limit) : ∀ (fuel : Nat) (q : EventQueue E), rounds q ≤ fuel →
    (shrink limit fuel q).length ≤ limit
  | 0, q, h => by
    have hr : rounds q = 0 := Nat.le_zero.mp h
    have hq : q = [] := by
      match q with
      | [] => rfl
      | .lagged n :: rest =>
        simp only [rounds, List.length_cons] at hr
        omega
      | .event e :: rest =>
        simp only [rounds, List.length_cons] at hr
        omega
    subst hq
    exact Nat.zero_le limit
  | fuel + 1, q, h => by
    unfold shrink
    split
    · rename_i hlong
      have hr := recordDrop_rounds (q := q) (by omega)
      exact shrink_length limit hl fuel (recordDrop q) (by omega)
    · omega

theorem rounds_le (q : EventQueue E) : rounds q ≤ 2 * q.length := Nat.sub_le ..

theorem push_length (q : EventQueue E) (e : E) : (q.push e).length ≤ lifecycleBufferCapacity := by
  have h := shrink_length (lifecycleBufferCapacity - 1) (by decide) _ q (rounds_le q)
  unfold push
  rw [List.length_append, List.length_singleton]
  have hc : lifecycleBufferCapacity = 128 := rfl
  omega

theorem shrink_keeps {P : EventQueue E → Prop} (hP : ∀ q, P q → P (recordDrop q)) (limit : Nat) :
    ∀ (fuel : Nat) {q : EventQueue E}, P q → P (shrink limit fuel q)
  | 0, _, h => h
  | fuel + 1, q, h => by
    unfold shrink
    split
    · exact shrink_keeps hP limit fuel (hP q h)
    · exact h

theorem push_fronted {q : EventQueue E} (h : Fronted q) (e : E) : Fronted (q.push e) :=
  (shrink_keeps (fun _ hq => recordDrop_fronted hq) _ _ h).append_event e

theorem push_covers {q : EventQueue E} {es : List E} (hf : Fronted q) (h : Covers es q) (e : E) :
    Covers (es ++ [e]) (q.push e) := by
  have hs := shrink_keeps (P := fun q => Fronted q ∧ Covers es q)
    (fun q hq => ⟨recordDrop_fronted hq.1, recordDrop_covers hq.1 hq.2⟩) (lifecycleBufferCapacity - 1) (2 * q.length)
    ⟨hf, h⟩
  exact hs.2.append (.singleton e)

end EventQueue

/-! ## A watch and its producer -/

/-- Where a call of `next` stands: about to pop, or past an empty pop and about to read
    the terminal flag, or past both and waiting. Between two calls it is `popping`. -/
inductive Consumer where
  | popping
  | checking
  | waiting
  deriving DecidableEq, Repr

structure Stream (E : Type) where
  events : EventQueue E
  terminal : Bool
  consumer : Consumer
  /-- Ghost: everything pushed. -/
  pushed : List E
  /-- Ghost: what each finished call of `next` returned. -/
  results : List (Option (Item E))

inductive Action (E : Type) where
  | push (e : E)
  | markTerminal
  | pop
  | isTerminal
  | wake
  deriving DecidableEq, Repr

namespace Stream

def new : Stream E := ⟨[], false, .popping, [], []⟩

/-- One atomic step. The producer pushes no more once it has marked the queue terminal;
    a step of `next` is taken where the call stands and is otherwise no step at all. -/
def step (s : Stream E) : Action E → Stream E
  | .push e => if s.terminal then s else { s with events := s.events.push e, pushed := s.pushed ++ [e] }
  | .markTerminal => { s with terminal := true }
  | .pop =>
    if s.consumer = .popping then
      match s.events with
      | i :: rest => { s with events := rest, results := s.results ++ [some i] }
      | [] => { s with consumer := .checking }
    else s
  | .isTerminal =>
    if s.consumer = .checking then
      if s.terminal then { s with consumer := .popping, results := s.results ++ [none] }
      else { s with consumer := .waiting }
    else s
  | .wake => if s.consumer = .waiting then { s with consumer := .popping } else s

def run (s : Stream E) (actions : List (Action E)) : Stream E := actions.foldl step s

/-- What `next` has returned so far, without the ends of stream. -/
def received (s : Stream E) : List (Item E) := s.results.reduceOption

/-- Whenever a call returned the end of stream, the calls before it had returned
    everything pushed. -/
def NotEarly (s : Stream E) : Prop :=
  ∀ before, before ++ [none] <+: s.results → Covers s.pushed before.reduceOption

/-- What holds of every state: what was returned and what is still queued account for
    what was pushed. -/
structure Sound (s : Stream E) : Prop where
  fronted : s.events.Fronted
  covers : Covers s.pushed (s.received ++ s.events)

theorem received_snoc_some (rs : List (Option (Item E))) (i : Item E) :
    (rs ++ [some i]).reduceOption = rs.reduceOption ++ [i] := by
  rw [List.reduceOption_append]
  rfl

theorem received_snoc_none (rs : List (Option (Item E))) : (rs ++ [none]).reduceOption = rs.reduceOption := by
  rw [List.reduceOption_append]
  exact List.append_nil _

theorem new_sound : (new : Stream E).Sound where
  fronted := by
    intro i hi
    cases hi
  covers := .nil

theorem step_sound {s : Stream E} (h : s.Sound) (a : Action E) : (s.step a).Sound := by
  cases a with
  | push e =>
    unfold step
    simp only
    split
    · exact h
    · refine ⟨EventQueue.push_fronted h.fronted e, ?_⟩
      exact h.covers.replace_right fun hb => EventQueue.push_covers h.fronted hb e
  | markTerminal => exact ⟨h.fronted, h.covers⟩
  | pop =>
    unfold step
    simp only
    split
    · split
      · rename_i i rest hev
        refine ⟨?_, ?_⟩
        · have := h.fronted.tail
          rwa [hev] at this
        · have hc := h.covers
          rw [hev] at hc
          simpa [received, received_snoc_some] using hc
      · exact ⟨h.fronted, h.covers⟩
    · exact h
  | isTerminal =>
    unfold step
    simp only
    split
    · split
      · refine ⟨h.fronted, ?_⟩
        have hc := h.covers
        simpa [received, received_snoc_none] using hc
      · exact ⟨h.fronted, h.covers⟩
    · exact h
  | wake =>
    unfold step
    simp only
    split
    · exact ⟨h.fronted, h.covers⟩
    · exact h

/-! ## When the end comes early -/

/-- Whether something was pushed since the call's pop found the queue empty. -/
def pushedSincePop (s : Stream E) (since : Bool) : Action E → Bool
  | .push _ => since || !s.terminal
  | .pop => if s.consumer = .popping then false else since
  | _ => since

/-- Whether this step is a call's read of the flag with both a push and the mark of the
    end between the call's empty pop and this read. -/
def overruns (s : Stream E) (since : Bool) (a : Action E) : Bool :=
  match a with
  | .isTerminal => s.consumer = .checking && s.terminal && since
  | _ => false

/-- Whether a call of the run is overrun. -/
def overrun : Bool → Stream E → List (Action E) → Bool
  | _, _, [] => false
  | since, s, a :: rest => overruns s since a || overrun (pushedSincePop s since a) (s.step a) rest

/-- Between the empty pop and the read of the flag the queue holds what was pushed since. -/
def Tracks (s : Stream E) (since : Bool) : Prop := s.consumer = .checking → (since = true ↔ s.events ≠ [])

theorem EventQueue.push_ne_nil (q : EventQueue E) (e : E) : q.push e ≠ [] := by
  unfold EventQueue.push
  simp

theorem step_tracks {s : Stream E} {since : Bool} (h : Tracks s since) (a : Action E) :
    Tracks (s.step a) (pushedSincePop s since a) := by
  cases a with
  | push e =>
    cases ht : s.terminal with
    | true => simpa [step, pushedSincePop, ht] using h
    | false =>
      intro _
      simp [step, pushedSincePop, ht, EventQueue.push_ne_nil]
  | markTerminal => exact h
  | pop =>
    by_cases hp : s.consumer = .popping
    · cases hev : s.events with
      | nil =>
        intro _
        simp [step, pushedSincePop, hp, hev]
      | cons i rest =>
        intro hc
        simp [step, hp, hev] at hc
    · simpa [step, pushedSincePop, hp] using h
  | isTerminal =>
    by_cases hc : s.consumer = .checking
    · intro hc'
      cases ht : s.terminal with
      | true => simp [step, hc, ht] at hc'
      | false => simp [step, hc, ht] at hc'
    · simpa [step, pushedSincePop, hc] using h
  | wake =>
    by_cases hw : s.consumer = .waiting
    · intro hc
      simp [step, hw] at hc
    · simpa [step, pushedSincePop, hw] using h

/-- An end of stream is only returned once the queue is terminal. -/
def Ended (s : Stream E) : Prop := none ∈ s.results → s.terminal = true

theorem step_ended {s : Stream E} (h : Ended s) (a : Action E) : Ended (s.step a) := by
  cases a with
  | push e =>
    unfold step
    simp only
    split
    · exact h
    · exact h
  | markTerminal =>
    intro _
    rfl
  | pop =>
    unfold step
    simp only
    split
    · split
      · intro hm
        refine h ?_
        simpa using hm
      · exact h
    · exact h
  | isTerminal =>
    unfold step
    simp only
    split
    · split
      · rename_i ht
        intro _
        exact ht
      · exact h
    · exact h
  | wake =>
    unfold step
    simp only
    split
    · exact h
    · exact h

theorem notEarly_of_none_not_mem {s : Stream E} (h : none ∉ s.results) : s.NotEarly := by
  intro before hpre
  exact absurd (hpre.subset (List.mem_append_right _ (List.mem_singleton_self _))) h

/-- Everything pushed has been returned exactly when nothing is queued any more. -/
theorem Sound.returned_iff {s : Stream E} (h : s.Sound) : Covers s.pushed s.received ↔ s.events = [] := by
  constructor
  · intro hc
    exact h.covers.nothing_left hc
  · intro hev
    have hc := h.covers
    rwa [hev, List.append_nil] at hc

/-- A step brings an early end exactly when it is an overrun read of the flag. -/
theorem step_notEarly_iff {s : Stream E} {since : Bool} (h : s.Sound) (ht : Tracks s since) (he : Ended s)
    (a : Action E) : (s.step a).NotEarly ↔ s.NotEarly ∧ overruns s since a = false := by
  cases a with
  | push e =>
    cases hterm : s.terminal with
    | true => simp [step, overruns, hterm]
    | false =>
      -- no end was returned yet, before or after the push
      have hnone : none ∉ s.results := by
        intro hm
        rw [he hm] at hterm
        cases hterm
      have hnone' : none ∉ (s.step (.push e)).results := by
        simpa [step, hterm] using hnone
      simp [notEarly_of_none_not_mem hnone, notEarly_of_none_not_mem hnone', overruns]
  | markTerminal => simp [step, overruns, NotEarly]
  | pop =>
    by_cases hp : s.consumer = .popping
    · cases hev : s.events with
      | nil => simp [step, overruns, hp, hev, NotEarly]
      | cons i rest =>
        simp only [step, overruns, hp, hev, if_true, NotEarly, and_true]
        refine forall_congr' fun before => ?_
        rw [List.prefix_concat_iff]
        have hne : before ++ [none] ≠ s.results ++ [some i] := by
          intro heq
          have := List.append_inj_right' heq rfl
          simp at this
        simp [hne]
    · simp [step, overruns, hp]
  | isTerminal =>
    by_cases hc : s.consumer = .checking
    · cases hterm : s.terminal with
      | false => simp [step, overruns, hc, hterm, NotEarly]
      | true =>
        have hread : (s.step .isTerminal).NotEarly ↔ s.NotEarly ∧ Covers s.pushed s.received := by
          simp only [step, hc, hterm, if_true, NotEarly, received]
          constructor
          · intro hall
            exact ⟨fun before hpre => hall before (hpre.trans (List.prefix_append ..)), hall _ (List.prefix_refl _)⟩
          · intro ⟨hall, hnow⟩ before hpre
            rcases List.prefix_concat_iff.mp hpre with heq | hpre
            · rw [List.append_cancel_right heq]
              exact hnow
            · exact hall before hpre
        have hsince : s.events = [] ↔ since = false := by
          have := ht hc
          rw [← Bool.not_eq_true, this]
          simp
        rw [hread, h.returned_iff, hsince]
        simp [overruns, hc, hterm]
    · simp [step, overruns, hc]
  | wake =>
    by_cases hw : s.consumer = .waiting
    · simp [step, overruns, hw, NotEarly]
    · simp [step, overruns, hw]

/-- The run lemma: the same over every later step. -/
theorem run_notEarly_iff : ∀ (actions : List (Action E)) {s : Stream E} {since : Bool}, s.Sound → Tracks s since →
    Ended s → ((s.run actions).NotEarly ↔ s.NotEarly ∧ overrun since s actions = false)
  | [], s, since, _, _, _ => by simp [run, overrun]
  | a :: rest, s, since, h, ht, he => by
    have hrest := run_notEarly_iff rest (step_sound h a) (step_tracks ht a) (step_ended he a)
    have hstep := step_notEarly_iff h ht he a
    show ((s.step a).run rest).NotEarly ↔ _
    rw [hrest, hstep, and_assoc]
    simp [overrun]

/-- The end of stream is never early exactly when no call has both a push and the mark
    of the end between its empty pop and its read of the flag. -/
theorem end_not_early_iff (actions : List (Action E)) :
    ((new : Stream E).run actions).NotEarly ↔ overrun false (new : Stream E) actions = false := by
  have hnew : (new : Stream E).NotEarly := notEarly_of_none_not_mem (by simp [new])
  have htracks : Tracks (new : Stream E) false := by
    intro hc
    cases hc
  have hended : Ended (new : Stream E) := by
    intro hm
    cases hm
  rw [run_notEarly_iff actions new_sound htracks hended]
  simp [hnew]

/-- A call whose empty pop came before everything else reads no mark, and a later one pops
    the event before it reads the mark: the end comes after the event. -/
theorem end_not_early_woken :
    ((new : Stream Nat).run
      [.pop, .push 0, .isTerminal, .wake, .markTerminal, .pop, .pop, .isTerminal]).NotEarly ∧
    ((new : Stream Nat).run
      [.pop, .push 0, .isTerminal, .wake, .markTerminal, .pop, .pop, .isTerminal]).results = [some (.event 0), none] :=
  ⟨(end_not_early_iff _).mpr (by decide), rfl⟩

/-- The last event lands after the pop, the mark before the read of the flag. -/
theorem end_early : ¬ ((new : Stream Nat).run [.pop, .push 0, .markTerminal, .isTerminal]).NotEarly := by
  intro h
  have hc : Covers [0] ([] : List (Item Nat)) := h [] (by decide)
  cases hc.eq_nil

end Stream

end Kokage.Lifecycle
