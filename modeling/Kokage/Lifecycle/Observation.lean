/-
  Kokage.Lifecycle.Observation — a direct-child observation misses nothing
  (`supervisor/lifecycle.rs`: `ChildObservationWatch::next`, `recovery_reset`).

  While one incarnation runs, the latest snapshot is always at the hub's sequence: `emit`
  assigns and publishes in one critical section. What is staged lags behind by the one
  event that is sequenced and not forwarded yet. So the direct queue of an observing watch
  holds a run of consecutive sequences that ends at what is staged (`Aligned.spans`), and
  a new reader starts at or before the first it has not seen, unless a lag marker is in
  front or a reset is due. A reset then jumps to the latest snapshot, which is at or past
  everything the marker stands for.
-/

import Kokage.Lifecycle.Hub

namespace Kokage.Lifecycle

open Kokage.Lib Kokage.Supervisor

/-! ## Updates without a gap -/

/-- The updates carry on from `s`: each transition is the next sequence, and a reset goes
    on from its snapshot, which is no older than what was applied. -/
def GapFree : Nat → List ChildObservationUpdate → Prop
  | _, [] => True
  | s, .transition event :: rest => event.seq = s + 1 ∧ GapFree event.seq rest
  | s, .reset snapshot _ :: rest => s ≤ snapshot.lifecycleSeq ∧ GapFree snapshot.lifecycleSeq rest

/-- The sequence a reader is at after the updates. -/
def position : Nat → List ChildObservationUpdate → Nat
  | s, [] => s
  | _, .transition event :: rest => position event.seq rest
  | _, .reset snapshot _ :: rest => position snapshot.lifecycleSeq rest

/-- The sequence of the last reset, or of the initial snapshot. -/
def boundary : Nat → List ChildObservationUpdate → Nat
  | s, [] => s
  | s, .transition _ :: rest => boundary s rest
  | _, .reset snapshot _ :: rest => boundary snapshot.lifecycleSeq rest

theorem gapFree_snoc (u : ChildObservationUpdate) : ∀ (s : Nat) (us : List ChildObservationUpdate),
    GapFree s (us ++ [u]) ↔ GapFree s us ∧ GapFree (position s us) [u]
  | s, [] => by simp [GapFree, position]
  | s, .transition event :: rest => by
    simp only [List.cons_append, GapFree, position, gapFree_snoc u event.seq rest, and_assoc]
  | s, .reset snapshot d :: rest => by
    simp only [List.cons_append, GapFree, position, gapFree_snoc u snapshot.lifecycleSeq rest, and_assoc]

theorem position_snoc (u : ChildObservationUpdate) : ∀ (s : Nat) (us : List ChildObservationUpdate),
    position s (us ++ [u]) = position (position s us) [u]
  | _, [] => rfl
  | _, .transition event :: rest => position_snoc u event.seq rest
  | _, .reset snapshot _ :: rest => position_snoc u snapshot.lifecycleSeq rest

theorem boundary_snoc (u : ChildObservationUpdate) : ∀ (s : Nat) (us : List ChildObservationUpdate),
    boundary s (us ++ [u]) = boundary (boundary s us) [u]
  | _, [] => rfl
  | s, .transition _ :: rest => boundary_snoc u s rest
  | _, .reset snapshot _ :: rest => boundary_snoc u snapshot.lifecycleSeq rest

theorem boundary_le_position : ∀ {s : Nat} {us : List ChildObservationUpdate}, GapFree s us →
    boundary s us ≤ position s us
  | _, [], _ => Nat.le_refl _
  | s, .transition event :: rest, h => by
    have hmono : ∀ {s t : Nat} (us : List ChildObservationUpdate), s ≤ t → boundary s us ≤ boundary t us := by
      intro s t us
      induction us generalizing s t with
      | nil => exact id
      | cons u us ih =>
        cases u with
        | transition event => exact ih
        | reset snapshot d =>
          intro _
          exact Nat.le_refl _
    have hle : s ≤ event.seq := by
      have := h.1
      omega
    exact Nat.le_trans (hmono rest hle) (boundary_le_position h.2)
  | s, .reset snapshot d :: rest, h => by
    show boundary snapshot.lifecycleSeq rest ≤ position snapshot.lifecycleSeq rest
    exact boundary_le_position h.2

/-! ## A watch and what is staged for it -/

/-- The reader of `o` may go on with a queue whose first sequence is `first`. -/
def Observation.FitsAt (o : Observation) (first : Nat) : Prop :=
  first ≤ position o.initial.lifecycleSeq o.updates + 1 ∧
    (position o.initial.lifecycleSeq o.updates = o.minimumSequence ∨
      first = position o.initial.lifecycleSeq o.updates + 1)

/-- Every event of the queue is of the watched scope itself. -/
def EventQueue.AllLocal (q : EventQueue LifecycleEvent) : Prop := ∀ e, .event e ∈ q → e.scopePath = []

/-- The reader of `o` and its queue `q`, when the hub is at `seq` and everything up to
    `staged` was pushed. -/
structure Aligned (seq staged : Nat) (q : EventQueue LifecycleEvent) (o : Observation) : Prop where
  locals : q.AllLocal
  gapFree : GapFree o.initial.lifecycleSeq o.updates
  minimumSequence_eq : o.minimumSequence = boundary o.initial.lifecycleSeq o.updates
  position_le : position o.initial.lifecycleSeq o.updates ≤ seq
  spans : ∃ first n, directSeqs q = List.range' first n ∧ first + n = staged + 1 ∧
    (q.Lags ∨ o.resetting.isSome = true ∨ o.FitsAt first)

namespace Aligned

variable {seq staged : Nat} {q : EventQueue LifecycleEvent} {o : Observation}

theorem mono (h : Aligned seq staged q o) {seq' : Nat} (hle : seq ≤ seq') : Aligned seq' staged q o :=
  { h with position_le := Nat.le_trans h.position_le hle }

theorem minimumSequence_le (h : Aligned seq staged q o) : o.minimumSequence ≤ seq := by
  rw [h.minimumSequence_eq]
  exact Nat.le_trans (boundary_le_position h.gapFree) h.position_le

theorem observing (snapshot : SupervisorSnapshot) (hs : snapshot.lifecycleSeq = seq) (hst : staged ≤ seq) :
    Aligned seq staged [] ⟨snapshot, snapshot.lifecycleSeq, none, []⟩ where
  locals := by
    intro e he
    cases he
  gapFree := trivial
  minimumSequence_eq := rfl
  position_le := Nat.le_of_eq hs
  spans := by
    refine ⟨staged + 1, 0, rfl, rfl, .inr (.inr ⟨?_, .inl rfl⟩)⟩
    simp only [position]
    omega

theorem lags_append {E : Type} {q : EventQueue E} (h : q.Lags) (e : E) : EventQueue.Lags (q ++ [.event e]) := by
  cases q with
  | nil => cases h
  | cons i rest => exact h

theorem recordDrop_allLocal {q : EventQueue LifecycleEvent} (h : q.AllLocal) : q.recordDrop.AllLocal := by
  intro e he
  refine h e ?_
  unfold EventQueue.recordDrop at he
  split at he
  · simp only [List.mem_cons, reduceCtorEq, false_or] at he ⊢
    exact .inr he
  · simp only [List.mem_cons, reduceCtorEq, false_or] at he ⊢
    exact .inr he
  · exact he

/-- A push into the direct queue: it may drop sequences at the front, behind a marker. -/
theorem push (h : Aligned seq staged q o) {e : LifecycleEvent} {staged' : Nat} (hpath : e.scopePath = [])
    (hseqs : directSeqs [.event e] = List.range' (staged + 1) (staged' - staged)) (hle : staged ≤ staged') :
    Aligned seq staged' (q.push e) o := by
  obtain ⟨first, n, hspan, hn, hfit⟩ := h.spans
  refine ⟨?_, h.gapFree, h.minimumSequence_eq, h.position_le, ?_⟩
  · intro e' he'
    have hkept := EventQueue.shrink_keeps (fun _ hq => recordDrop_allLocal hq) (lifecycleBufferCapacity - 1)
      (2 * q.length) h.locals
    rcases List.mem_append.mp he' with he' | he'
    · exact hkept e' he'
    · simp only [List.mem_singleton, Item.event.injEq] at he'
      rw [he']
      exact hpath
  · -- what is left of the queue is a suffix of the run of sequences
    obtain ⟨k, hk⟩ := EventQueue.shrink_directSeqs (lifecycleBufferCapacity - 1) (2 * q.length) q
    rw [hspan] at hk
    obtain ⟨m, hm, -, hrest⟩ := List.range'_eq_append_iff.mp hk.symm
    refine ⟨first + m, n - m + (staged' - staged), ?_, by omega, ?_⟩
    · show directSeqs (_ ++ [_]) = _
      have hjoin : staged + 1 = first + m + (n - m) := by omega
      rw [directSeqs_append, hrest, hseqs, Nat.mul_one, hjoin, List.range'_append_1]
    · rcases EventQueue.shrink_eq_or_lags (lifecycleBufferCapacity - 1) (2 * q.length) q with hsame | hlags
      · have hpush : q.push e = q ++ [.event e] := by
          unfold EventQueue.push
          rw [hsame]
        rw [hsame, hspan, Nat.mul_one] at hrest
        have hm0 : m = 0 ∨ n = 0 := by
          have hlen := congrArg List.length hrest
          simp only [List.length_range'] at hlen
          omega
        show EventQueue.Lags (q.push e) ∨ _
        rw [hpush]
        rcases hfit with hlags | hreset | hfits
        · exact .inl (lags_append hlags e)
        · exact .inr (.inl hreset)
        · have : first + m = first := by omega
          rw [this]
          exact .inr (.inr hfits)
      · exact .inl (lags_append hlags e)

theorem take {i : Item LifecycleEvent} {rest : EventQueue LifecycleEvent} (h : Aligned seq staged (i :: rest) o)
    (hst : staged ≤ seq) (hreset : o.resetting = none) : Aligned seq staged rest (o.take i) := by
  have hlocals : EventQueue.AllLocal rest := by
    intro e he
    exact h.locals e (List.mem_cons_of_mem _ he)
  obtain ⟨first, n, hspan, hn, hfit⟩ := h.spans
  -- a reset is due: the reader is not asked to fit before it has happened
  have hresetting : ∀ dropped, directSeq i = none → Aligned seq staged rest { o with resetting := some dropped } := by
    intro dropped hi
    refine ⟨hlocals, h.gapFree, h.minimumSequence_eq, h.position_le, ?_⟩
    refine ⟨first, n, ?_, hn, .inr (.inl rfl)⟩
    rw [← hspan]
    simp [directSeqs, hi]
  cases i with
  | lagged dropped => exact hresetting dropped rfl
  | event e =>
    obtain ⟨path, kind⟩ := e
    have hpath : path = [] := h.locals ⟨path, kind⟩ (List.mem_cons_self ..)
    subst hpath
    cases kind with
    | supervisor kind => exact hresetting 0 rfl
    | child event =>
      -- no marker in front and no reset due, so the reader fits
      have hfits : o.FitsAt first := by
        rcases hfit with hlags | hres | hfits
        · cases hlags
        · rw [hreset] at hres
          cases hres
        · exact hfits
      have hcons : List.range' first n = event.seq :: directSeqs rest := by
        rw [← hspan]
        rfl
      obtain ⟨hfirst, hpos, hrest⟩ := List.range'_eq_cons_iff.mp hcons
      have hspan' : directSeqs rest = List.range' (first + 1) (n - 1) := by rw [hrest, hfirst]
      obtain ⟨hle, hat⟩ := hfits
      have hfloor := boundary_le_position h.gapFree
      have hmin := h.minimumSequence_eq
      have hposition := h.position_le
      unfold Observation.take
      simp only
      by_cases hnew : o.minimumSequence < event.seq
      · rw [if_pos hnew]
        -- the first sequence past the floor is the next one
        have hnext : event.seq = position o.initial.lifecycleSeq o.updates + 1 := by omega
        refine ⟨hlocals, ?_, ?_, ?_, first + 1, n - 1, hspan', by omega, ?_⟩
        · exact (gapFree_snoc ..).mpr ⟨h.gapFree, hnext, trivial⟩
        · rw [boundary_snoc]
          exact hmin
        · rw [position_snoc]
          show event.seq ≤ seq
          omega
        · refine .inr (.inr ⟨?_, .inr ?_⟩)
          · rw [position_snoc]
            show first + 1 ≤ event.seq + 1
            omega
          · rw [position_snoc]
            show first + 1 = event.seq + 1
            omega
      · rw [if_neg hnew]
        refine ⟨hlocals, h.gapFree, hmin, hposition, first + 1, n - 1, hspan',
          by omega, .inr (.inr ⟨by omega, ?_⟩)⟩
        omega

/-- A reset jumps to the latest snapshot, which is at the hub's sequence. -/
theorem recoveryReset {latest : SupervisorSnapshot} (h : Aligned seq staged q o) (hst : staged ≤ seq)
    (hlatest : latest.lifecycleSeq = seq) :
    Aligned seq staged q (o.recoveryReset latest) := by
  unfold Observation.recoveryReset
  split
  · exact h
  · rename_i dropped hres
    obtain ⟨first, n, hspan, hn, -⟩ := h.spans
    have hfloor := h.minimumSequence_le
    have hpos := h.position_le
    refine ⟨h.locals, ?_, ?_, ?_, first, n, hspan, hn, .inr (.inr ⟨?_, .inl ?_⟩)⟩
    · refine (gapFree_snoc ..).mpr ⟨h.gapFree, ?_, trivial⟩
      rw [hlatest]
      exact hpos
    · rw [boundary_snoc]
      show max o.minimumSequence latest.lifecycleSeq = latest.lifecycleSeq
      omega
    · rw [position_snoc]
      show latest.lifecycleSeq ≤ seq
      omega
    · rw [position_snoc]
      show first ≤ latest.lifecycleSeq + 1
      omega
    · rw [position_snoc]
      show latest.lifecycleSeq = max o.minimumSequence latest.lifecycleSeq
      omega

theorem currentReset (h : Aligned seq staged q o) (dropped : Option Nat) (hd : o.resetting.isSome → dropped.isSome) :
    Aligned seq staged q { o with resetting := dropped } := by
  obtain ⟨first, n, hspan, hn, hfit⟩ := h.spans
  refine ⟨h.locals, h.gapFree, h.minimumSequence_eq, h.position_le, first, n, hspan,
    hn, ?_⟩
  rcases hfit with hlags | hres | hfits
  · exact .inl hlags
  · exact .inr (.inl (hd hres))
  · exact .inr (.inr hfits)

end Aligned

/-- A watch that observes reads its direct queue, unfiltered, and its reader is aligned. -/
def Watcher.InStep (seq staged : Nat) (w : Watcher) : Prop :=
  ∀ o, w.observation = some o → w.directOnly = true ∧ w.directChild = none ∧ Aligned seq staged w.direct o

namespace Watcher.InStep

variable {seq staged : Nat} {w : Watcher}

theorem raw (h : w.observation = none) : w.InStep seq staged := by
  intro o ho
  rw [h] at ho
  cases ho

theorem mono (h : w.InStep seq staged) {seq' : Nat} (hle : seq ≤ seq') : w.InStep seq' staged := by
  intro o ho
  obtain ⟨hd, hf, ha⟩ := h o ho
  exact ⟨hd, hf, ha.mono hle⟩

theorem push (h : w.InStep seq staged) {e : LifecycleEvent} {staged' : Nat}
    (hseqs : directSeqs [.event e] = List.range' (staged + 1) (staged' - staged)) (hle : staged ≤ staged') :
    (w.push e).InStep seq staged' := by
  intro o ho
  obtain ⟨hd, hf, ha⟩ := h o ho
  refine ⟨hd, hf, ?_⟩
  unfold Watcher.push
  cases hp : e.scopePath with
  | nil => simpa [hf] using ha.push hp hseqs hle
  | cons segment path =>
    -- an event from below stays out of the direct queue
    have hsame : staged' = staged := by
      obtain ⟨_, kind⟩ := e
      cases hp
      rw [directSeqs_nested] at hseqs
      have := congrArg List.length hseqs
      simp only [List.length_nil, List.length_range'] at this
      omega
    subst hsame
    simpa using ha

theorem next (h : w.InStep seq staged) (hst : staged ≤ seq) : w.next.InStep seq staged := by
  unfold Watcher.next
  split
  · exact h
  · rename_i hidle
    split
    · exact h
    · rename_i i rest hq
      intro o' ho'
      obtain ⟨o, ho, rfl⟩ := Option.map_eq_some_iff.mp ho'
      obtain ⟨hd, hf, ha⟩ := h o ho
      have hres : o.resetting = none := by
        cases hr : o.resetting with
        | none => rfl
        | some dropped => simp [ho, hr] at hidle
      have hdirect : w.direct = i :: rest := by
        simpa [Watcher.queue, hd] using hq
      rw [hdirect] at ha
      refine ⟨?_, ?_, ?_⟩
      · simp [Watcher.setQueue, hd]
      · simpa [Watcher.setQueue, hd] using hf
      · simpa [Watcher.setQueue, hd] using ha.take hst hres

theorem recoveryReset (h : w.InStep seq staged) (hst : staged ≤ seq) {latest : SupervisorSnapshot}
    (hlatest : latest.lifecycleSeq = seq) :
    Watcher.InStep seq staged { w with observation := w.observation.map (·.recoveryReset latest) } := by
  intro o' ho'
  obtain ⟨o, ho, rfl⟩ := Option.map_eq_some_iff.mp ho'
  obtain ⟨hd, hf, ha⟩ := h o ho
  exact ⟨hd, hf, ha.recoveryReset hst hlatest⟩

theorem currentReset (h : w.InStep seq staged) :
    Watcher.InStep seq staged
      { w with observation := w.observation.map fun o => { o with resetting := o.resetting.or (some 0) } } := by
  intro o' ho'
  obtain ⟨o, ho, rfl⟩ := Option.map_eq_some_iff.mp ho'
  obtain ⟨hd, hf, ha⟩ := h o ho
  refine ⟨hd, hf, ha.currentReset _ ?_⟩
  intro hres
  cases hr : o.resetting with
  | none => rfl
  | some dropped => rfl

end Watcher.InStep

/-! ## One incarnation -/

/-- A step of the incarnation `i`, of a nested scope or of an observer: neither another
    incarnation's nor the end of the identity. -/
def HubAction.byOne {ι : Type} [DecidableEq ι] (i : ι) : HubAction ι → Bool
  | .bind j _ | .release j | .emit j _ _ | .chain j _ | .own j | .stage j | .aligned j _ _ | .view j _ | .publish j =>
    j = i
  | .unbind | .terminal => false
  | _ => true

namespace Hub

variable {ι : Type}

/-- What holds while `i` runs alone and everything up to `staged` was pushed. -/
structure Alone (i : ι) (staged : Nat) (h : Hub ι) : Prop where
  live : h.terminal = false
  published : h.latest.lifecycleSeq = h.seq
  owned : h.phase i = .unbound ∨ h.phase i = .finished ∨ h.owner = some i
  viewed : ∀ snapshot, h.phase i = .viewed snapshot → snapshot.lifecycleSeq = h.seq
  pending : ∀ event, (h.phase i).pending = some event → event.seq = h.seq
  seq_eq : h.seq = staged + ((h.phase i).pending.map fun _ => 1).getD 0
  inStep : ∀ w ∈ h.watchers, w.InStep h.seq staged

namespace Alone

variable {i : ι} {staged : Nat} {h : Hub ι}

theorem resting (i : ι) (seq : Nat) (snapshot : SupervisorSnapshot) :
    (Hub.resting seq snapshot : Hub ι).Alone i seq where
  live := rfl
  published := rfl
  owned := .inl rfl
  viewed := by
    intro _ hp
    cases hp
  pending := by
    intro _ hp
    cases hp
  seq_eq := rfl
  inStep := by
    intro w hw
    cases hw

theorem owner_eq (ha : h.Alone i staged) (hu : h.phase i ≠ .unbound) (hf : h.phase i ≠ .finished) : h.owner = some i := by
  rcases ha.owned with hp | hp | hp
  · exact absurd hp hu
  · exact absurd hp hf
  · exact hp

theorem staged_le (ha : h.Alone i staged) : staged ≤ h.seq := by
  have := ha.seq_eq
  omega

theorem seq_of_pending (ha : h.Alone i staged) {event : ChildEvent} (hp : (h.phase i).pending = some event) :
    h.seq = staged + 1 := by
  have := ha.seq_eq
  rw [hp] at this
  exact this

theorem edit (ha : h.Alone i staged) {watchers : List Watcher} {registering : Nat}
    (hw : ∀ w ∈ watchers, w.InStep h.seq staged) :
    Alone i staged { h with watchers := watchers, registering := registering } :=
  ⟨ha.live, ha.published, ha.owned, ha.viewed, ha.pending, ha.seq_eq, hw⟩

theorem onWatcher (ha : h.Alone i staged) {n : Nat} {f : Watcher → Watcher}
    (hf : ∀ w, w.InStep h.seq staged → (f w).InStep h.seq staged) : (h.onWatcher n f).Alone i staged := by
  refine ha.edit fun w hw => ?_
  rcases mem_onWatcher hw with hw | ⟨w', hw', rfl⟩
  · exact ha.inStep w hw
  · exact hf w' (ha.inStep w' hw')

theorem onRaw (ha : h.Alone i staged) {n : Nat} {f : Watcher → Watcher}
    (hf : ∀ w, w.observation = none → (f w).observation = none) : (h.onWatcher n (Hub.onRaw f)).Alone i staged := by
  refine ha.onWatcher fun w hw => ?_
  unfold Hub.onRaw
  split
  · rename_i hraw
    exact .raw (hf w (Option.isNone_iff_eq_none.mp hraw))
  · exact hw

theorem enroll (ha : h.Alone i staged) {w : Watcher} (hw : w.InStep h.seq staged) : (h.enroll w).Alone i staged := by
  unfold Hub.enroll
  split
  · refine ha.edit fun w' hw' => ?_
    rw [ha.live] at hw'
    rcases List.mem_append.mp hw' with hw' | hw'
    · exact ha.inStep w' hw'
    · rw [List.mem_singleton.mp hw']
      exact hw
  · exact ha

theorem pushAll_eq (ha : h.Alone i staged) (e : LifecycleEvent) :
    h.pushAll e = { h with watchers := h.watchers.map (·.push e) } := by
  unfold Hub.pushAll
  rw [ha.live]
  rfl

theorem pushAll (ha : h.Alone i staged) {e : LifecycleEvent} (hseqs : directSeqs [.event e] = []) :
    (h.pushAll e).Alone i staged := by
  rw [ha.pushAll_eq]
  refine ha.edit fun w hw => ?_
  obtain ⟨w', hw', rfl⟩ := List.mem_map.mp hw
  exact (ha.inStep w' hw').push (by simpa using hseqs) (Nat.le_refl _)

end Alone

variable [DecidableEq ι]

namespace Alone

variable {i : ι} {staged : Nat} {h : Hub ι}

theorem accept (ha : h.Alone i staged) {snapshot : SupervisorSnapshot} (hs : snapshot.lifecycleSeq = h.seq) :
    (h.accept i snapshot).Alone i staged := by
  unfold Hub.accept
  split
  · exact ⟨ha.live, hs, ha.owned, ha.viewed, ha.pending, ha.seq_eq, ha.inStep⟩
  · exact ha

/-- The incarnation moves on with nothing pending, when everything is staged. -/
theorem settle {p : Phase} (ha : h.Alone i staged) (hst : staged = h.seq) (hp : p.pending = none)
    (howned : p = .finished ∨ h.owner = some i)
    (hviewed : ∀ snapshot, p = .viewed snapshot → snapshot.lifecycleSeq = h.seq) : (h.enter i p).Alone i staged where
  live := ha.live
  published := ha.published
  owned := by
    simp only [enter, Function.update_self]
    exact .inr howned
  viewed := by
    simp only [enter, Function.update_self]
    exact hviewed
  pending := by
    simp only [enter, Function.update_self, hp]
    intro event he
    cases he
  seq_eq := by simp [enter, hp, hst]
  inStep := ha.inStep

/-- The pending event moves on. -/
theorem carry {p : Phase} {event : ChildEvent} (ha : h.Alone i staged) (hold : (h.phase i).pending = some event)
    (hp : p.pending = some event) (howner : h.owner = some i) : (h.enter i p).Alone i staged where
  live := ha.live
  published := ha.published
  owned := .inr (.inr howner)
  viewed := by
    simp only [enter, Function.update_self]
    intro snapshot hv
    rw [hv] at hp
    cases hp
  pending := by
    simp only [enter, Function.update_self, hp]
    intro event' he
    cases he
    exact ha.pending event hold
  seq_eq := by
    simp only [enter, Function.update_self, hp]
    exact ha.seq_of_pending hold
  inStep := ha.inStep

/-- Nobody watches: the pending event is dropped, and later watches start after it. -/
theorem skip {event : ChildEvent} (ha : h.Alone i staged) (hold : (h.phase i).pending = some event)
    (hnone : h.hasRecursiveWatchers = false) (howner : h.owner = some i) : (h.enter i .idle).Alone i (staged + 1) where
  live := ha.live
  published := ha.published
  owned := .inr (.inr howner)
  viewed := by
    simp [enter]
  pending := by
    simp [enter, Phase.pending]
  seq_eq := by
    simp only [enter, Function.update_self, Phase.pending]
    exact ha.seq_of_pending hold
  inStep := by
    have hempty : h.watchers = [] := by
      simp only [hasRecursiveWatchers, decide_eq_false_iff_not, Nat.not_lt, Nat.le_zero, Nat.add_eq_zero_iff] at hnone
      exact List.length_eq_zero_iff.mp hnone.1
    simp [enter, hempty]

theorem stage {event : ChildEvent} (ha : h.Alone i staged) (hold : (h.phase i).pending = some event)
    (howner : h.owner = some i) : ((h.pushAll ⟨[], .child event⟩).enter i .idle).Alone i (staged + 1) := by
  have hseq : event.seq = staged + 1 := by
    rw [ha.pending event hold]
    exact ha.seq_of_pending hold
  rw [ha.pushAll_eq]
  refine ⟨ha.live, ha.published, .inr (.inr howner), ?_, ?_, ?_, ?_⟩
  · simp [enter]
  · simp [enter, Phase.pending]
  · simp only [enter, Function.update_self, Phase.pending]
    exact ha.seq_of_pending hold
  · intro w hw
    obtain ⟨w', hw', rfl⟩ := List.mem_map.mp hw
    refine (ha.inStep w' hw').push ?_ (Nat.le_succ _)
    simp [hseq]

theorem emit (ha : h.Alone i staged) (hidle : h.phase i = .idle) (draft : LifecycleEventDraft)
    (view : SupervisorSnapshot) : (h.step (.emit i draft view)).Alone i staged := by
  have howner : h.owner = some i := ha.owner_eq (by rw [hidle]; nofun) (by rw [hidle]; nofun)
  have hst := ha.seq_eq
  rw [hidle] at hst
  have hst : h.seq = staged := hst
  unfold step
  simp only [hidle, Hub.enter, Hub.accept, ha.live, howner, if_true, Bool.false_eq_true, if_false]
  refine ⟨rfl, rfl, .inr (.inr rfl), ?_, ?_, ?_, ?_⟩
  · simp
  · simp [Phase.pending, childEvent]
  · simp [Phase.pending, hst]
  · intro w hw
    exact (ha.inStep w hw).mono (Nat.le_succ _)

end Alone

/-- One step of the incarnation, of a nested scope or of an observer. -/
theorem step_alone {i : ι} {staged : Nat} {h : Hub ι} (ha : h.Alone i staged) {a : HubAction ι}
    (hby : a.byOne i = true) : ∃ staged', (h.step a).Alone i staged' := by
  have hidle_seq : (h.phase i).pending = none → staged = h.seq := by
    intro hp
    have hs := ha.seq_eq
    rw [hp] at hs
    exact hs.symm
  cases a with
  | bind j baseline =>
    obtain rfl : j = i := by simpa [HubAction.byOne] using hby
    unfold step
    simp only
    split
    · rename_i hp
      split
      · exact ⟨staged, ha⟩
      · refine ⟨staged, ha.live, rfl, .inr (.inr rfl), ?_, ?_, ?_, ha.inStep⟩
        · simp [enter]
        · simp [enter, Phase.pending]
        · simp only [enter, Function.update_self, Phase.pending]
          exact (hidle_seq (by rw [hp]; rfl)).symm
    · exact ⟨staged, ha⟩
  | release j =>
    obtain rfl : j = i := by simpa [HubAction.byOne] using hby
    unfold step
    simp only
    split
    · rename_i hp
      have hs := ha.settle (hidle_seq (by rw [hp]; rfl)) rfl (.inl rfl) (by nofun)
      refine ⟨staged, hs.live, hs.published, .inr (.inl ?_), hs.viewed, hs.pending, hs.seq_eq, hs.inStep⟩
      simp [enter]
    · exact ⟨staged, ha⟩
  | emit j draft view =>
    obtain rfl : j = i := by simpa [HubAction.byOne] using hby
    by_cases hp : h.phase j = .idle
    · exact ⟨staged, ha.emit hp draft view⟩
    · refine ⟨staged, ?_⟩
      unfold step
      simp only
      exact ha
  | chain j ancestors =>
    obtain rfl : j = i := by simpa [HubAction.byOne] using hby
    unfold step
    simp only
    split
    · rename_i event hp
      have howner := ha.owner_eq (by rw [hp]; nofun) (by rw [hp]; nofun)
      have hpend : (h.phase j).pending = some event := by rw [hp]; rfl
      split
      · exact ⟨staged, ha.carry hpend rfl howner⟩
      · rename_i hnone
        simp only [Bool.or_eq_true, not_or, Bool.not_eq_true] at hnone
        exact ⟨staged + 1, ha.skip hpend hnone.1 howner⟩
    · exact ⟨staged, ha⟩
  | own j =>
    obtain rfl : j = i := by simpa [HubAction.byOne] using hby
    unfold step
    simp only
    split
    · rename_i event hp
      have howner := ha.owner_eq (by rw [hp]; nofun) (by rw [hp]; nofun)
      have hpend : (h.phase j).pending = some event := by rw [hp]; rfl
      split
      · exact ⟨staged, ha.carry hpend rfl howner⟩
      · rename_i hnone
        exact ⟨staged + 1, ha.skip hpend (by simpa using hnone) howner⟩
    · exact ⟨staged, ha⟩
  | stage j =>
    obtain rfl : j = i := by simpa [HubAction.byOne] using hby
    unfold step
    simp only
    split
    · rename_i event hp
      have howner := ha.owner_eq (by rw [hp]; nofun) (by rw [hp]; nofun)
      exact ⟨staged + 1, ha.stage (by rw [hp]; rfl) howner⟩
    · exact ⟨staged, ha⟩
  | aligned j kind view =>
    obtain rfl : j = i := by simpa [HubAction.byOne] using hby
    unfold step
    simp only
    split
    · have hac : (h.accept j { view with lifecycleSeq := h.seq }).Alone j staged := ha.accept rfl
      exact ⟨staged, hac.pushAll (directSeqs_supervisor kind [])⟩
    · exact ⟨staged, ha⟩
  | view j view =>
    obtain rfl : j = i := by simpa [HubAction.byOne] using hby
    unfold step
    simp only
    split
    · rename_i hp
      have howner := ha.owner_eq (by rw [hp]; nofun) (by rw [hp]; nofun)
      refine ⟨staged, ha.settle (hidle_seq (by rw [hp]; rfl)) rfl (.inr howner) ?_⟩
      intro snapshot hv
      cases hv
      rfl
    · exact ⟨staged, ha⟩
  | publish j =>
    obtain rfl : j = i := by simpa [HubAction.byOne] using hby
    unfold step
    simp only
    split
    · rename_i snapshot hp
      have howner := ha.owner_eq (by rw [hp]; nofun) (by rw [hp]; nofun)
      have hac := ha.accept (ha.viewed snapshot hp)
      have hsame : (h.accept j snapshot).owner = some j ∧ (h.accept j snapshot).seq = h.seq := by
        unfold Hub.accept
        split
        · exact ⟨howner, rfl⟩
        · exact ⟨howner, rfl⟩
      refine ⟨staged, hac.settle ?_ rfl (.inr hsame.1) (by nofun)⟩
      rw [hsame.2]
      exact hidle_seq (by rw [hp]; rfl)
    · exact ⟨staged, ha⟩
  | nested segment event => exact ⟨staged, ha.pushAll (directSeqs_nested segment event.scopePath event.kind)⟩
  | register => exact ⟨staged, ha.edit ha.inStep⟩
  | observe =>
    refine ⟨staged, ha.enroll ?_⟩
    intro o ho
    cases ho
    exact ⟨rfl, rfl, .observing h.latest ha.published ha.staged_le⟩
  | watch => exact ⟨staged, ha.enroll (.raw rfl)⟩
  | directChildren w => exact ⟨staged, ha.onRaw fun _ ho => ho⟩
  | retainDirectChild w f => exact ⟨staged, ha.onRaw fun _ ho => ho⟩
  | intoInner w => exact ⟨staged, ha.onWatcher fun _ _ => .raw rfl⟩
  | next w => exact ⟨staged, ha.onWatcher fun _ hw => hw.next ha.staged_le⟩
  | recoveryReset w => exact ⟨staged, ha.onWatcher fun _ hw => hw.recoveryReset ha.staged_le ha.published⟩
  | currentReset w => exact ⟨staged, ha.onWatcher fun _ hw => hw.currentReset⟩
  | drop w =>
    refine ⟨staged, ha.edit fun x hx => ?_⟩
    exact ha.inStep x (List.mem_of_mem_eraseIdx hx)
  | unbind => cases hby
  | terminal => cases hby

theorem run_alone {i : ι} : ∀ (actions : List (HubAction ι)) {staged : Nat} {h : Hub ι}, h.Alone i staged →
    (∀ a ∈ actions, a.byOne i = true) → ∃ staged', (h.run actions).Alone i staged'
  | [], staged, _, ha, _ => ⟨staged, ha⟩
  | a :: rest, _, _, ha, hby => by
    obtain ⟨staged', ha'⟩ := step_alone ha (hby a (List.mem_cons_self ..))
    exact run_alone rest ha' fun b hb => hby b (List.mem_cons_of_mem _ hb)

/-- In every run of one incarnation, every observation carries on from its initial
    snapshot without a gap, its floor is the sequence of its last reset, and the snapshot
    a reset would read is not below that floor. -/
theorem observation_gapFree (i : ι) (seq : Nat) (snapshot : SupervisorSnapshot) (actions : List (HubAction ι))
    (hby : ∀ a ∈ actions, a.byOne i = true) :
    ∀ w ∈ ((Hub.resting seq snapshot).run actions).watchers, ∀ o, w.observation = some o →
      GapFree o.initial.lifecycleSeq o.updates ∧
      o.minimumSequence = boundary o.initial.lifecycleSeq o.updates ∧
      o.minimumSequence ≤ ((Hub.resting seq snapshot).run actions).latest.lifecycleSeq := by
  intro w hw o ho
  obtain ⟨staged, ha⟩ := run_alone actions (.resting i seq snapshot) hby
  obtain ⟨-, -, hal⟩ := ha.inStep w hw o ho
  refine ⟨hal.gapFree, hal.minimumSequence_eq, ?_⟩
  rw [ha.published]
  exact hal.minimumSequence_le

/-- An observer registers between two transitions, while the first is not yet staged. -/
def observedRun : List (HubAction Unit) :=
  [.bind () bare, .emit () addedDraft bare, .register, .chain () false, .observe, .own (), .stage (),
    .emit () addedDraft bare, .chain () false, .own (), .stage (), .next 0, .next 0]

theorem observation_gapFree_observed :
    ∃ w ∈ ((Hub.resting 4 bare).run observedRun).watchers, ∃ o, w.observation = some o ∧
      o.initial.lifecycleSeq = 5 ∧ o.updates = [.transition (childEvent addedDraft 6)] ∧
      GapFree o.initial.lifecycleSeq o.updates := by
  refine ⟨_, List.mem_cons_self .., _, rfl, rfl, rfl, ?_⟩
  exact (observation_gapFree () 4 bare observedRun (by decide) _ (List.mem_cons_self ..) _ rfl).1

end Hub

end Kokage.Lifecycle
