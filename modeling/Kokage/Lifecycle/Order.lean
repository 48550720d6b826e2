/-
  Kokage.Lifecycle.Order — the order in which watches receive a hub's child events, with
  any number of incarnations emitting (`supervisor/lifecycle.rs`: `emit`, `forward_child`,
  `emit_recursive`).

  `emit` assigns the sequence in one critical section and the forward stages the event in
  another. An incarnation that is stopping and its replacement share the hub, so between
  the two sections of one the other can sequence and stage an event of its own: the later
  sequence is then received first (`received_out_of_order`). As long as no event is
  staged while another incarnation holds an earlier one that the same watch takes
  (`InTurn`), what every watch receives is in order.
-/

import Kokage.Lifecycle.Hub

namespace Kokage.Lifecycle

open Kokage.Lib Kokage.Supervisor

/-! ## Increasing sequences -/

def Increasing (seqs : List Nat) : Prop := seqs.Pairwise (· < ·)

theorem Increasing.sublist {seqs seqs' : List Nat} (h : Increasing seqs) (hs : seqs'.Sublist seqs) : Increasing seqs' :=
  List.Pairwise.sublist hs h

theorem EventQueue.push_directSeqs (q : EventQueue LifecycleEvent) (e : LifecycleEvent) :
    (directSeqs (q.push e)).Sublist (directSeqs q ++ directSeqs [.event e]) := by
  unfold EventQueue.push
  rw [directSeqs_append]
  exact (EventQueue.shrink_directSeqs ..).sublist.append (List.Sublist.refl _)

/-! ## A watch in order -/

/-- An event of a direct child would enter the queue the watch reads. -/
def Watcher.takes (w : Watcher) (event : ChildEvent) : Bool :=
  !w.directOnly || w.directChild.all (·.accepts ⟨[], .child event⟩)

/-- The queues of `w`, and what it has received with what it will receive next, are in
    order, and every sequence there that it still reads satisfies `Below`. -/
structure Watcher.Ordered (Below : Nat → Prop) (w : Watcher) : Prop where
  reading : Increasing (directSeqs w.received ++ directSeqs w.queue)
  direct : Increasing (directSeqs w.direct)
  below : ∀ n, n ∈ directSeqs w.received ∨ n ∈ directSeqs w.direct ∨ w.directOnly = false ∧ n ∈ directSeqs w.recursive →
    Below n

@[simp] theorem Watcher.takes_next (w : Watcher) (event : ChildEvent) : w.next.takes event = w.takes event := by
  unfold Watcher.next
  split
  · rfl
  · split
    · rfl
    · unfold Watcher.setQueue takes
      split <;> rfl

namespace Watcher.Ordered

variable {Below Below' : Nat → Prop} {w : Watcher}

theorem received_increasing (h : w.Ordered Below) : Increasing (directSeqs w.received) :=
  h.reading.sublist (List.sublist_append_left ..)

theorem mono (h : w.Ordered Below) (hb : ∀ n, Below n → Below' n) : w.Ordered Below' :=
  ⟨h.reading, h.direct, fun n hn => hb n (h.below n hn)⟩

theorem fresh (o : Option Observation) (directOnly : Bool) :
    Watcher.Ordered Below { Watcher.new with directOnly := directOnly, observation := o } where
  reading := by
    cases directOnly <;> exact List.Pairwise.nil
  direct := List.Pairwise.nil
  below := by
    intro n hn
    rcases hn with hn | hn | ⟨-, hn⟩ <;> cases hn

theorem observed (h : w.Ordered Below) (o : Option Observation) : Watcher.Ordered Below { w with observation := o } :=
  ⟨h.reading, h.direct, h.below⟩

/-- A push adds the event, if it has a sequence, behind everything the watch holds. -/
theorem push (h : w.Ordered Below) {e : LifecycleEvent} (hb : ∀ n, Below n → Below' n)
    (he : ∀ n ∈ directSeqs [.event e], Below' n ∧ ∀ m, Below m → m < n) : (w.push e).Ordered Below' := by
  have hdirect : (directSeqs (w.push e).direct).Sublist (directSeqs w.direct ++ directSeqs [.event e]) := by
    unfold Watcher.push
    simp only
    split
    · split
      · rw [EventQueue.pushUnbounded, directSeqs_append]
      · exact EventQueue.push_directSeqs ..
    · exact List.sublist_append_left ..
  have hrecursive : (directSeqs (w.push e).recursive).Sublist (directSeqs w.recursive ++ directSeqs [.event e]) :=
    EventQueue.push_directSeqs ..
  have hqueue : (directSeqs (w.push e).queue).Sublist (directSeqs w.queue ++ directSeqs [.event e]) := by
    unfold Watcher.queue
    show (directSeqs (if w.directOnly then _ else _)).Sublist _
    split
    · exact hdirect
    · exact hrecursive
  -- the event's own sequence, if any, is above all of them
  have hsnoc : ∀ {seqs : List Nat}, Increasing seqs → (∀ n ∈ seqs, Below n) →
      Increasing (seqs ++ directSeqs [.event e]) := by
    intro seqs hs hbelow
    refine List.pairwise_append.mpr ⟨hs, ?_, ?_⟩
    · have hlen : (directSeqs [.event e]).length ≤ 1 := List.length_filterMap_le ..
      match hd : directSeqs [.event e], hlen with
      | [], _ => exact List.Pairwise.nil
      | [n], _ => exact List.pairwise_singleton _ _
    · intro m hm n hn
      exact (he n hn).2 m (hbelow m hm)
  have hmem : ∀ {q q' : EventQueue LifecycleEvent}, (directSeqs q').Sublist (directSeqs q ++ directSeqs [.event e]) →
      (∀ n ∈ directSeqs q, Below n) → ∀ n ∈ directSeqs q', Below' n := by
    intro q q' hsub hq n hn
    rcases List.mem_append.mp (hsub.subset hn) with hn | hn
    · exact hb n (hq n hn)
    · exact (he n hn).1
  have hreading : ∀ n ∈ directSeqs w.received ++ directSeqs w.queue, Below n := by
    intro n hn
    rcases List.mem_append.mp hn with hn | hn
    · exact h.below n (.inl hn)
    · unfold Watcher.queue at hn
      split at hn
      · exact h.below n (.inr (.inl hn))
      · rename_i hraw
        exact h.below n (.inr (.inr ⟨by simpa using hraw, hn⟩))
  refine ⟨?_, ?_, ?_⟩
  · refine (hsnoc h.reading hreading).sublist ?_
    rw [List.append_assoc]
    exact (List.Sublist.refl _).append hqueue
  · exact (hsnoc h.direct fun n hn => h.below n (.inr (.inl hn))).sublist hdirect
  · intro n hn
    rcases hn with hn | hn | ⟨hraw, hn⟩
    · exact hb n (h.below n (.inl hn))
    · exact hmem hdirect (fun m hm => h.below m (.inr (.inl hm))) n hn
    · exact hmem hrecursive (fun m hm => h.below m (.inr (.inr ⟨hraw, hm⟩))) n hn

/-- An event the watch does not take enters no queue it will read. -/
theorem push_blind (h : w.Ordered Below) {event : ChildEvent} (hblind : w.takes event = false) :
    (w.push ⟨[], .child event⟩).Ordered Below := by
  obtain ⟨honly, hreject⟩ := Bool.or_eq_false_iff.mp hblind
  have honly : w.directOnly = true := by simpa using honly
  have hdirect : (w.push ⟨[], .child event⟩).direct = w.direct := by simp [Watcher.push, hreject]
  have hqueue : (w.push ⟨[], .child event⟩).queue = w.queue := by
    have hpushed : (w.push ⟨[], .child event⟩).directOnly = true := honly
    simp [Watcher.queue, hpushed, honly, hdirect]
  refine ⟨?_, ?_, ?_⟩
  · rw [hqueue]
    exact h.reading
  · rw [hdirect]
    exact h.direct
  · intro n hn
    rw [hdirect] at hn
    rcases hn with hn | hn | ⟨hraw, -⟩
    · exact h.below n (.inl hn)
    · exact h.below n (.inr (.inl hn))
    · exact absurd (hraw.symm.trans honly) Bool.false_ne_true

theorem next (h : w.Ordered Below) : w.next.Ordered Below := by
  unfold Watcher.next
  split
  · exact h
  · split
    · exact h
    · rename_i i rest hq
      have hreading := h.reading
      rw [hq] at hreading
      have hcons : directSeqs (i :: rest) = directSeqs [i] ++ directSeqs rest := directSeqs_append [i] rest
      have hpopped : Increasing (directSeqs (w.received ++ [i]) ++ directSeqs rest) := by
        rw [directSeqs_append, List.append_assoc, ← hcons]
        exact hreading
      have hrest : ∀ n, n ∈ directSeqs [i] ∨ n ∈ directSeqs rest → n ∈ directSeqs w.queue := by
        intro n hn
        rw [hq, hcons]
        exact List.mem_append.mpr hn
      have hin : ∀ n ∈ directSeqs w.queue, Below n := by
        intro n hn
        unfold Watcher.queue at hn
        split at hn
        · exact h.below n (.inr (.inl hn))
        · rename_i hraw
          exact h.below n (.inr (.inr ⟨by simpa using hraw, hn⟩))
      have hreceived : ∀ n ∈ directSeqs (w.received ++ [i]), Below n := by
        intro n hn
        rw [directSeqs_append] at hn
        rcases List.mem_append.mp hn with hn | hn
        · exact h.below n (.inl hn)
        · exact hin n (hrest n (.inl hn))
      cases hd : w.directOnly with
      | true =>
        have hsub : Increasing (directSeqs rest) := hpopped.sublist (List.sublist_append_right ..)
        refine ⟨?_, ?_, ?_⟩
        · simpa [Watcher.queue, Watcher.setQueue, hd] using hpopped
        · simpa [Watcher.setQueue, hd] using hsub
        · intro n hn
          simp only [Watcher.setQueue, hd, if_true] at hn
          rcases hn with hn | hn | ⟨hraw, -⟩
          · exact hreceived n hn
          · exact hin n (hrest n (.inr hn))
          · exact absurd hraw.symm Bool.false_ne_true
      | false =>
        refine ⟨?_, ?_, ?_⟩
        · simpa [Watcher.queue, Watcher.setQueue, hd] using hpopped
        · simpa [Watcher.setQueue, hd] using h.direct
        · intro n hn
          simp only [Watcher.setQueue, hd, Bool.false_eq_true, if_false] at hn
          rcases hn with hn | hn | ⟨-, hn⟩
          · exact hreceived n hn
          · exact h.below n (.inr (.inl hn))
          · exact hin n (hrest n (.inr hn))

/-- A new projection reads what is left of the direct queue. -/
theorem project (h : w.Ordered Below) {direct : EventQueue LifecycleEvent} {f : Option DirectChildFilter}
    (hsub : (directSeqs direct).Sublist (directSeqs w.direct)) :
    Watcher.Ordered Below { w with direct := direct, directChild := f, directOnly := true, received := [] } where
  reading := by
    simpa [Watcher.queue] using h.direct.sublist hsub
  direct := h.direct.sublist hsub
  below := by
    intro n hn
    rcases hn with hn | hn | ⟨hraw, -⟩
    · cases hn
    · exact h.below n (.inr (.inl (hsub.subset hn)))
    · exact absurd hraw.symm Bool.false_ne_true

theorem directChildren (h : w.Ordered Below) : w.directChildren.Ordered Below := h.project (List.Sublist.refl _)

theorem retainDirectChild (h : w.Ordered Below) (f : DirectChildFilter) : (w.retainDirectChild f).Ordered Below := by
  have hkept : (directSeqs (w.direct.filter f.acceptsItem)).Sublist (directSeqs w.direct) :=
    List.Sublist.filterMap _ List.filter_sublist
  unfold Watcher.retainDirectChild
  refine h.project ?_
  split
  · exact hkept
  · exact (EventQueue.shrink_directSeqs ..).sublist.trans hkept

end Watcher.Ordered

/-! ## The hub in order -/

namespace Hub

variable {ι : Type}

/-- For this watch everything with this sequence has been staged or skipped: it was
    assigned, and what it takes of the pending events comes after it. -/
def Passed (h : Hub ι) (w : Watcher) (n : Nat) : Prop :=
  n ≤ h.seq ∧ ∀ i event, (h.phase i).pending = some event → w.takes event = true → n < event.seq

structure Ordered (h : Hub ι) : Prop where
  pending_le : ∀ i event, (h.phase i).pending = some event → event.seq ≤ h.seq
  watchers : ∀ w ∈ h.watchers, w.Ordered (h.Passed w)

/-- This step stages no event while another incarnation holds an earlier one that a watch
    takes as it takes the event itself. A watch with a filter is given a narrower one only. -/
def InTurn (h : Hub ι) : HubAction ι → Prop
  | .stage i => h.terminal = false → ∀ event, h.phase i = .routed event → ∀ w ∈ h.watchers, w.takes event = true →
      ∀ j other, j ≠ i → (h.phase j).pending = some other → w.takes other = true → event.seq < other.seq
  | .retainDirectChild n f => ∀ w ∈ h.watchers[n]?, ∀ old ∈ w.directChild, ∀ e, f.accepts e = true → old.accepts e = true
  | _ => True

namespace Ordered

variable {h h' : Hub ι}

/-- A step that leaves the sequence and the incarnations where they are. -/
theorem edit (ho : h.Ordered) (hseq : h'.seq = h.seq) (hphase : h'.phase = h.phase)
    (hw : ∀ w ∈ h'.watchers, w.Ordered (h.Passed w)) : h'.Ordered := by
  refine ⟨?_, fun w hmem => (hw w hmem).mono ?_⟩
  · rw [hseq, hphase]
    exact ho.pending_le
  · intro n hn
    unfold Passed
    rw [hseq, hphase]
    exact hn

/-- An edit of a watch that keeps its order and takes no more than before. -/
theorem onWatcher (ho : h.Ordered) {n : Nat} {f : Watcher → Watcher} (hf : ∀ Below w, w.Ordered Below → (f w).Ordered Below)
    (htakes : ∀ w ∈ h.watchers[n]?, ∀ event, (f w).takes event = true → w.takes event = true) :
    (h.onWatcher n f).Ordered := by
  refine ho.edit rfl rfl fun w hw => ?_
  obtain ⟨k, hk⟩ := List.mem_iff_getElem?.mp hw
  simp only [Hub.onWatcher, List.getElem?_modify] at hk
  obtain ⟨w', hw', heq⟩ := Option.map_eq_some_iff.mp hk
  have hordered := ho.watchers w' (List.mem_of_getElem? hw')
  split at heq
  · rename_i hn
    subst hn heq
    exact (hf _ _ hordered).mono fun m hm =>
      ⟨hm.1, fun i event he ht => hm.2 i event he (htakes w' (by simp [hw']) event ht)⟩
  · exact heq ▸ hordered

theorem onRaw (ho : h.Ordered) {n : Nat} {f : Watcher → Watcher} (hf : ∀ Below w, w.Ordered Below → (f w).Ordered Below)
    (htakes : ∀ w ∈ h.watchers[n]?, ∀ event, (f w).takes event = true → w.takes event = true) :
    (h.onWatcher n (Hub.onRaw f)).Ordered := by
  refine ho.onWatcher (fun Below w hw => ?_) fun w hw event => ?_
  · unfold Hub.onRaw
    split
    · exact hf Below w hw
    · exact hw
  · unfold Hub.onRaw
    split
    · exact htakes w hw event
    · exact id

theorem enroll (ho : h.Ordered) (o : Option Observation) (directOnly : Bool) :
    (h.enroll { Watcher.new with directOnly := directOnly, observation := o }).Ordered := by
  unfold Hub.enroll
  split
  · refine ho.edit rfl rfl fun w hw => ?_
    simp only at hw
    split at hw
    · exact ho.watchers w hw
    · rcases List.mem_append.mp hw with hw | hw
      · exact ho.watchers w hw
      · rw [List.mem_singleton.mp hw]
        exact .fresh o directOnly
  · exact ho

theorem pushAll (ho : h.Ordered) {e : LifecycleEvent} (hseqs : directSeqs [.event e] = []) : (h.pushAll e).Ordered := by
  unfold Hub.pushAll
  split
  · exact ho
  · refine ho.edit rfl rfl fun w hw => ?_
    obtain ⟨w', hw', rfl⟩ := List.mem_map.mp hw
    refine (ho.watchers w' hw').push (fun _ hn => hn) ?_
    rw [hseqs]
    intro n hn
    cases hn

end Ordered

theorem resting_ordered (seq : Nat) (snapshot : SupervisorSnapshot) : (resting seq snapshot : Hub ι).Ordered where
  pending_le := by
    intro i event he
    cases he
  watchers := by
    intro w hw
    cases hw

variable [DecidableEq ι]

namespace Ordered

variable {i : ι} {h : Hub ι}

theorem accept (ho : h.Ordered) (snapshot : SupervisorSnapshot) : (h.accept i snapshot).Ordered := by
  unfold Hub.accept
  split
  · exact ho.edit rfl rfl ho.watchers
  · exact ho

theorem enter (ho : h.Ordered) {p : Phase} (hp : ∀ event, p.pending = some event → (h.phase i).pending = some event) :
    (h.enter i p).Ordered := by
  have hold : ∀ j event, ((h.enter i p).phase j).pending = some event → (h.phase j).pending = some event := by
    intro j event he
    by_cases hj : j = i
    · subst hj
      simp only [Hub.enter, Function.update_self] at he
      exact hp event he
    · simpa [Hub.enter, Function.update_of_ne hj] using he
  refine ⟨fun j event he => ho.pending_le j event (hold j event he), fun w hw => (ho.watchers w hw).mono ?_⟩
  intro n hn
  exact ⟨hn.1, fun j event he ht => hn.2 j event (hold j event he) ht⟩

/-- A new transition is sequenced: it comes after everything passed. -/
theorem emit (ho : h.Ordered) (draft : LifecycleEventDraft) :
    Hub.Ordered ({ h with seq := h.seq + 1 }.enter i (.emitted (childEvent draft (h.seq + 1)))) := by
  have hpend : ∀ j event, ((({ h with seq := h.seq + 1 } : Hub ι).enter i
      (.emitted (childEvent draft (h.seq + 1)))).phase j).pending = some event →
      event.seq = h.seq + 1 ∨ (h.phase j).pending = some event := by
    intro j event he
    by_cases hj : j = i
    · subst hj
      simp only [Hub.enter, Function.update_self, Phase.pending, Option.some.injEq] at he
      exact .inl (by rw [← he]; rfl)
    · exact .inr (by simpa [Hub.enter, Function.update_of_ne hj] using he)
  refine ⟨?_, fun w hw => (ho.watchers w hw).mono ?_⟩
  · intro j event he
    show event.seq ≤ h.seq + 1
    rcases hpend j event he with heq | hold
    · omega
    · have := ho.pending_le j event hold
      omega
  · intro n hn
    refine ⟨Nat.le_succ_of_le hn.1, ?_⟩
    intro j event he ht
    rcases hpend j event he with heq | hold
    · have := hn.1
      omega
    · exact hn.2 j event hold ht

/-- The event of `i` is staged while nobody holds an earlier one that a watch that takes it
    takes too. -/
theorem stage (ho : h.Ordered) {event : ChildEvent} (hp : h.phase i = .routed event)
    (hturn : h.InTurn (.stage i)) : ((h.pushAll ⟨[], .child event⟩).enter i .idle).Ordered := by
  have hmine : (h.phase i).pending = some event := by rw [hp]; rfl
  unfold Hub.pushAll
  split
  · exact ho.enter (by nofun)
  · rename_i hlive
    have hidle : ∀ j other, ((h.enter i .idle).phase j).pending = some other →
        j ≠ i ∧ (h.phase j).pending = some other := by
      intro j other he
      by_cases hj : j = i
      · subst hj
        simp [Hub.enter, Phase.pending] at he
      · exact ⟨hj, by simpa [Hub.enter, Function.update_of_ne hj] using he⟩
    refine ⟨fun j other he => ho.pending_le j other (hidle j other he).2, fun w hw => ?_⟩
    obtain ⟨w', hw', rfl⟩ := List.mem_map.mp hw
    have hbelow : ∀ n, h.Passed w' n → (h.enter i .idle).Passed w' n := fun n hn =>
      ⟨hn.1, fun j other he ht => hn.2 j other (hidle j other he).2 ht⟩
    cases htakes : w'.takes event with
    | false => exact ((ho.watchers w' hw').push_blind htakes).mono hbelow
    | true =>
      refine (ho.watchers w' hw').push hbelow ?_
      intro n hn
      rw [directSeqs_child, List.mem_singleton] at hn
      subst hn
      refine ⟨⟨ho.pending_le i event hmine, ?_⟩, fun m hm => hm.2 i event hmine htakes⟩
      intro j other he ht
      obtain ⟨hj, hold⟩ := hidle j other he
      exact hturn (by simpa using hlive) event hp w' hw' htakes j other hj hold ht

end Ordered

theorem step_ordered {h : Hub ι} (ho : h.Ordered) (a : HubAction ι) (hturn : h.InTurn a) : (h.step a).Ordered := by
  cases a with
  | bind j baseline =>
    unfold step
    simp only
    split
    · split
      · exact ho
      · have hi : (h.enter j .idle).Ordered := ho.enter (by nofun)
        exact hi.edit rfl rfl hi.watchers
    · exact ho
  | release j =>
    unfold step
    simp only
    split
    · have hi : (h.enter j .finished).Ordered := ho.enter (by nofun)
      exact hi.edit rfl rfl hi.watchers
    · exact ho
  | emit j draft view =>
    unfold step
    simp only
    split
    · split
      · exact ho.emit draft
      · exact (ho.emit draft).accept _
    · exact ho
  | chain j ancestors =>
    unfold step
    simp only
    split
    · rename_i event hp
      refine ho.enter ?_
      rw [hp]
      split
      · exact fun _ he => he
      · nofun
    · exact ho
  | own j =>
    unfold step
    simp only
    split
    · rename_i event hp
      refine ho.enter ?_
      rw [hp]
      split
      · exact fun _ he => he
      · nofun
    · exact ho
  | stage j =>
    unfold step
    simp only
    split
    · rename_i event hp
      exact ho.stage hp hturn
    · exact ho
  | aligned j kind view =>
    unfold step
    simp only
    split
    · exact (ho.accept _).pushAll (directSeqs_supervisor kind [])
    · exact ho
  | view j view =>
    unfold step
    simp only
    split
    · exact ho.enter (by nofun)
    · exact ho
  | publish j =>
    unfold step
    simp only
    split
    · exact (ho.accept _).enter (by nofun)
    · exact ho
  | nested segment event => exact ho.pushAll (directSeqs_nested segment event.scopePath event.kind)
  | register => exact ho.edit rfl rfl ho.watchers
  | observe => exact ho.enroll _ true
  | watch => exact ho.enroll none false
  | directChildren n =>
    refine ho.onRaw (fun _ _ hw => hw.directChildren) fun w _ event ht => ?_
    exact Bool.or_eq_true_iff.mpr (.inr ht)
  | retainDirectChild n f =>
    refine ho.onRaw (fun _ _ hw => hw.retainDirectChild f) fun w hw event ht => ?_
    -- what the new filter accepts, an old one did
    refine Bool.or_eq_true_iff.mpr (.inr ?_)
    cases hold : w.directChild with
    | none => rfl
    | some old => exact hturn w hw old hold _ ht
  | intoInner n => exact ho.onWatcher (fun _ _ hw => hw.observed none) fun _ _ _ ht => ht
  | next n => exact ho.onWatcher (fun _ _ hw => hw.next) fun w _ event ht => (w.takes_next event).symm.trans ht
  | recoveryReset n => exact ho.onWatcher (fun _ _ hw => hw.observed _) fun _ _ _ ht => ht
  | currentReset n => exact ho.onWatcher (fun _ _ hw => hw.observed _) fun _ _ _ ht => ht
  | drop w => exact ho.edit rfl rfl fun x hx => ho.watchers x (List.mem_of_mem_eraseIdx hx)
  | unbind => exact ho.edit rfl rfl ho.watchers
  | terminal => exact ho.edit rfl rfl ho.watchers

/-- Every step of the run is in turn. -/
def RunsInTurn : Hub ι → List (HubAction ι) → Prop
  | _, [] => True
  | h, a :: rest => h.InTurn a ∧ RunsInTurn (h.step a) rest

theorem run_ordered : ∀ (actions : List (HubAction ι)) {h : Hub ι}, h.Ordered → h.RunsInTurn actions →
    (h.run actions).Ordered
  | [], _, ho, _ => ho
  | a :: rest, _, ho, hturn => run_ordered rest (step_ordered ho a hturn.1) hturn.2

/-- In every run in which no event is staged while another incarnation holds an earlier
    one that the same watch takes, every watch receives the direct child events in
    increasing order. -/
theorem received_in_order (seq : Nat) (snapshot : SupervisorSnapshot) (actions : List (HubAction ι))
    (hturn : (Hub.resting seq snapshot).RunsInTurn actions) :
    ∀ w ∈ ((Hub.resting seq snapshot).run actions).watchers, Increasing (directSeqs w.received) := by
  intro w hw
  exact ((run_ordered actions (resting_ordered seq snapshot) hturn).watchers w hw).received_increasing

/-- A displaced incarnation and its replacement: both sequence a transition, and the
    forwards follow in the given order. -/
def overlap (first second : Bool) : List (HubAction Bool) :=
  [.bind false bare, .register, .watch, .directChildren 0, .bind true bare,
    .emit false addedDraft bare, .emit true addedDraft bare,
    .chain first false, .own first, .stage first, .chain second false, .own second, .stage second, .next 0, .next 0]

theorem received_in_order_overlap :
    ((Hub.resting 0 bare).run (overlap false true)).watchers.map (fun w => directSeqs w.received) = [[1, 2]] ∧
    ∀ w ∈ ((Hub.resting 0 bare).run (overlap false true)).watchers, Increasing (directSeqs w.received) := by
  refine ⟨rfl, received_in_order 0 bare (overlap false true) ?_⟩
  refine ⟨trivial, trivial, trivial, trivial, trivial, trivial, trivial, trivial, trivial, ?_, trivial, trivial, ?_,
    trivial, trivial, trivial⟩
  · intro _ event hevent _ _ _ j other hj hother _
    cases hevent
    cases j with
    | false => exact absurd rfl hj
    | true =>
      cases hother
      decide
  · intro _ event _ _ _ _ j other hj hother _
    cases j with
    | false => cases hother
    | true => exact absurd rfl hj

/-- The replacement's transition overtakes the earlier one of the displaced incarnation. -/
theorem received_out_of_order :
    ∃ w ∈ ((Hub.resting 0 bare).run (overlap true false)).watchers, ¬ Increasing (directSeqs w.received) := by
  refine ⟨_, List.mem_cons_self .., ?_⟩
  intro h
  have h : Increasing [2, 1] := h
  have := List.rel_of_pairwise_cons h (List.mem_singleton_self 1)
  omega

end Hub

end Kokage.Lifecycle
