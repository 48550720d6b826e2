/-
  Kokage.Supervisor.Verdict — what a task reference reads off a snapshot (`runtime.rs`).

  A `TaskRef` holds no channel to the supervisor: it decides from the published snapshots
  alone whether the task's latest exit was its last. `task_state_from_snapshot` says so of
  a child that has stopped, that its policy does not restart, and that no group restart
  can revive. Here: the decision, and that where it is made the child is `Finished` in the
  runtime that published the snapshot. `Judged` carries every decision ever made possible
  by a publication along with the seals.
-/

import Kokage.Supervisor.Sealing

namespace Kokage.Supervisor

open Kokage.Lib SupervisorRuntime

/-! ## The decision -/

inductive TaskError where
  | stoppedBeforeReady (taskId : String)
  | readinessTimedOut (taskId : String) (timeout : Duration)
  | unavailable (taskId : String)
  deriving DecidableEq, Repr

structure TaskTrackingState where
  started : Bool := false
  outcome : Option (Except TaskError ExitStatus) := none

def ChildStateView.isTerminal : ChildStateView → Bool
  | .stopped _ _ | .startupAborted _ => true
  | .starting _ | .running _ | .stopping _ _ => false

def ChildStateView.isStarted : ChildStateView → Bool
  | .running _ => true
  | .stopping started _ | .stopped started _ => started
  | .starting _ | .startupAborted _ => false

def taskSnapshot (snapshot : SupervisorSnapshot) (id : String) (lineage : Nat) : Option ChildSnapshot :=
  snapshot.children.find? fun child => child.id = id && child.lineage = lineage

def taskIsRevivableByGroup (snapshot : SupervisorSnapshot) (child : ChildSnapshot) : Bool :=
  if child.restartPolicy.isNever then false
  else match snapshot.strategy with
    | .oneForOne => false
    | .oneForAll => true
    | .restForOne => snapshot.children.head?.any fun first => first.lineage ≠ child.lineage

/-- The exit `task_state_from_snapshot` takes for the last one. -/
def taskVerdict (snapshot : SupervisorSnapshot) (child : ChildSnapshot) : Option ExitStatus :=
  child.state.lastExit.bind fun exit =>
    let canRestart := decide (snapshot.state = .running) && decide (child.membership = .active) &&
      (child.restartPolicy.shouldRestart exit.kind.isFailure || taskIsRevivableByGroup snapshot child)
    if child.state.isTerminal && !canRestart && child.nextRestartIn.isNone then some exit else none

def taskStateFromSnapshot (snapshot : SupervisorSnapshot) (id : String) (lineage : Nat) : Option TaskTrackingState :=
  (taskSnapshot snapshot id lineage).map fun child =>
    { started := child.state.isStarted, outcome := (taskVerdict snapshot child).map .ok }

/-! ## The child it is made of -/

variable {S₀ : Nat → Turn → Prop} {D D' : List ClassifiedExit} {rt rt' : SupervisorRuntime} {key : ChildKey} {e : ChildEntry}

/-- The first child shown is the first of the order. -/
theorem head?_shown (hp : rt.lane.Proper) (hmem : key ∈ rt.childOrder) (he : rt.children.get key = some e)
    (hfirst : (rt.snapshotView.children.head?.any fun first => first.lineage ≠ e.lineage) = false) :
    rt.childOrder.head? = some key := by
  cases ho : rt.childOrder with
  | nil =>
    rw [ho] at hmem
    cases hmem
  | cons k rest =>
    obtain ⟨p, hk⟩ := Option.isSome_iff_exists.mp (hp.known k (by
      show k ∈ rt.childOrder
      rw [ho]
      exact List.mem_cons_self ..))
    obtain ⟨e', he', rfl⟩ := get_of_lane hk
    have hhead : rt.snapshotView.children.head? = some (childSnapshot rt.now e') := by
      unfold snapshotView
      simp only
      rw [ho, List.filterMap_cons, he']
      rfl
    rw [hhead] at hfirst
    have hl : e'.lineage = e.lineage := by
      have hl : decide (e'.lineage ≠ e.lineage) = false := hfirst
      simpa using hl
    rw [List.head?_cons, hp.inj k e'.post key e.post hk (lane_get he) hl]

theorem shown_stopped (h : (childStateView e).isTerminal = true) : e.runtime.state = .stopped := by
  unfold childStateView at h
  cases hs : e.runtime.state with
  | stopped => rfl
  | _ =>
    rw [hs] at h
    cases h

theorem shown_lastExit : (childStateView e).lastExit = e.lastExit.map fun k => (⟨k, e.lastExitCancelled⟩ : ExitStatus) := by
  unfold childStateView
  simp only
  split
  · rfl
  · rfl
  · rfl
  · rfl
  · split
    · cases e.lastExit <;> rfl
    · rfl

/-- A decision on a snapshot that the runtime would publish now is true of its lane. -/
theorem finished_of_verdict {x : ExitStatus} (hp : rt.lane.Proper) (hmem : key ∈ rt.childOrder) (he : rt.children.get key = some e)
    (hv : taskVerdict rt.snapshotView (childSnapshot rt.now e) = some x) :
    e.post.turn = (e.runtime.generation, some x.kind) ∧ rt.lane.Finished key e.post := by
  obtain ⟨y, hy, hif⟩ := Option.bind_eq_some_iff.mp hv
  simp only at hif
  split at hif
  · rename_i hc
    cases hif
    have hexit : e.lastExit.map (fun k => (⟨k, e.lastExitCancelled⟩ : ExitStatus)) = some x := by
      rw [← shown_lastExit]
      exact hy
    obtain ⟨k, hk, hkx⟩ := Option.map_eq_some_iff.mp hexit
    have hkind : x.kind = k := by rw [← hkx]
    simp only [Bool.and_eq_true, Bool.not_eq_true'] at hc
    obtain ⟨⟨hterm, hcan⟩, hnone⟩ := hc
    refine ⟨?_, shown_stopped hterm, ?_, ?_, fun hrun hm => ?_⟩
    · show (e.runtime.generation, e.lastExit) = _
      rw [hk, hkind]
    · refine hp.left key e.post (lane_get he) ?_
      show e.lastExit.isSome = true
      rw [hk]
      rfl
    · have hd : (e.runtime.nextRestartDeadline.map (· - rt.now)).isNone = true := hnone
      show e.runtime.nextRestartDeadline.isSome = false
      simpa using hd
    · -- the scope runs and the child is active, so neither its policy nor its group restarts it
      have hstate : rt.snapshotView.state = .running := by
        have hr : rt.state = .running := of_decide_eq_true hrun
        unfold snapshotView
        rw [hr]
      have hact : e.membership = .active := by
        have hpres : e.membership ≠ .removed := hp.present key e.post (lane_get he)
        have hm : e.membership ≠ .removing := hm
        cases hmem' : e.membership with
        | active => rfl
        | removing => exact absurd hmem' hm
        | removed => exact absurd hmem' hpres
      have hview : (childSnapshot rt.now e).membership = .active := by
        unfold childSnapshot
        rw [hact]
      rw [hstate, hview] at hcan
      simp only [decide_true, Bool.true_and, Bool.or_eq_false_iff] at hcan
      obtain ⟨hpolicy, hgroup⟩ := hcan
      refine ⟨?_, ?_⟩
      · show Option.any _ e.lastExit = false
        rw [hk, Option.any_some, ← hkind]
        exact hpolicy
      · have hgroup : (if e.runtime.definition.restart.isNever then false
            else match rt.cfg.strategy with
              | .oneForOne => false
              | .oneForAll => true
              | .restForOne => rt.snapshotView.children.head?.any fun first => first.lineage ≠ e.lineage) = false := hgroup
        show rt.stopIsFinal key e.runtime.definition.restart = true
        unfold stopIsFinal
        cases hn : e.runtime.definition.restart.isNever with
        | true => cases rt.cfg.strategy <;> rfl
        | false =>
          rw [hn, if_neg (by decide)] at hgroup
          cases hs : rt.cfg.strategy with
          | oneForOne => rfl
          | oneForAll =>
            rw [hs] at hgroup
            cases hgroup
          | restForOne =>
            rw [hs] at hgroup
            simp [head?_shown hp hmem he hgroup]
  · cases hif

theorem terminal_of_stopped (h : e.runtime.state = .stopped) : (childStateView e).isTerminal = true := by
  unfold childStateView
  rw [h]
  simp only
  split
  · split <;> rfl
  · rfl

/-- And of a finished child every snapshot gives the exit away. -/
theorem verdict_of_finished {k : ExitKind} (he : rt.children.get key = some e) (hx : e.lastExit = some k)
    (hfin : rt.lane.Finished key e.post) :
    taskVerdict rt.snapshotView (childSnapshot rt.now e) = some ⟨k, e.lastExitCancelled⟩ := by
  have hexit : (childSnapshot rt.now e).state.lastExit = some ⟨k, e.lastExitCancelled⟩ := by
    show (childStateView e).lastExit = _
    rw [shown_lastExit, hx]
    rfl
  have hterm : (childSnapshot rt.now e).state.isTerminal = true := terminal_of_stopped hfin.stopped
  have hnone : (childSnapshot rt.now e).nextRestartIn = none := by
    have hdue : e.runtime.nextRestartDeadline.isSome = false := hfin.due
    rw [Option.isSome_eq_false_iff, Option.isNone_iff_eq_none] at hdue
    show e.runtime.nextRestartDeadline.map _ = none
    rw [hdue]
    rfl
  have hcan : (decide (rt.snapshotView.state = .running) && decide ((childSnapshot rt.now e).membership = .active) &&
      ((childSnapshot rt.now e).restartPolicy.shouldRestart k.isFailure ||
        taskIsRevivableByGroup rt.snapshotView (childSnapshot rt.now e))) = false := by
    by_contra hc
    simp only [Bool.not_eq_false, Bool.and_eq_true, decide_eq_true_eq] at hc
    obtain ⟨⟨hstate, hview⟩, hany⟩ := hc
    have hrun : rt.lane.running = true := by
      refine decide_eq_true ?_
      cases hs : rt.state with
      | running => rfl
      | stopping =>
        unfold snapshotView at hstate
        rw [hs] at hstate
        cases hstate
      | stopped =>
        unfold snapshotView at hstate
        rw [hs] at hstate
        cases hstate
    have hm : e.membership ≠ .removing := by
      intro hm
      unfold childSnapshot at hview
      rw [hm] at hview
      cases hview
    obtain ⟨hw, hf⟩ := hfin.final hrun hm
    have hw : e.runtime.definition.restart.shouldRestart k.isFailure = false := by
      have hw : Option.any (fun x => e.runtime.definition.restart.shouldRestart x.isFailure) e.lastExit = false := hw
      rwa [hx, Option.any_some] at hw
    have hf : rt.stopIsFinal key e.runtime.definition.restart = true := hf
    have hany : (e.runtime.definition.restart.shouldRestart k.isFailure ||
        taskIsRevivableByGroup rt.snapshotView (childSnapshot rt.now e)) = true := hany
    rw [hw, Bool.false_or] at hany
    -- the strategy revives nobody whose stop it takes for final
    unfold taskIsRevivableByGroup at hany
    split at hany
    · cases hany
    · rename_i hnever
      have hnever : ¬ e.runtime.definition.restart.isNever = true := hnever
      unfold stopIsFinal at hf
      split at hany
      · cases hany
      · rename_i hs
        rw [show rt.cfg.strategy = .oneForAll from hs] at hf
        exact hnever hf
      · rename_i hs
        rw [show rt.cfg.strategy = .restForOne from hs] at hf
        simp only [Bool.or_eq_true, decide_eq_true_eq] at hf
        obtain ⟨rest, ho⟩ := List.head?_eq_some_iff.mp (hf.resolve_left hnever)
        have hhead : rt.snapshotView.children.head? = some (childSnapshot rt.now e) := by
          unfold snapshotView
          simp only
          rw [ho, List.filterMap_cons, he]
          rfl
        rw [hhead] at hany
        simp at hany
  unfold taskVerdict
  rw [hexit, Option.bind_some]
  simp only
  rw [hcan, hterm, hnone]
  rfl

/-! ## Everything shown so far -/

/-- What was sealed before, and what the snapshots published give away. -/
def SupervisorRuntime.Given (S₀ : Nat → Turn → Prop) (rt : SupervisorRuntime) (l : Nat) (t : Turn) : Prop :=
  S₀ l t ∨ ∃ s ∈ rt.published, ∃ c ∈ s.children, ∃ x, taskVerdict s c = some x ∧ c.lineage = l ∧ (c.generation, some x.kind) = t

/-- A later snapshot repeats what an earlier one gave away. -/
def SupervisorSnapshot.Repeats (earlier later : SupervisorSnapshot) : Prop :=
  ∀ c ∈ earlier.children, ∀ x, taskVerdict earlier c = some x → ∀ c' ∈ later.children, c'.lineage = c.lineage →
    c'.generation = c.generation ∧ ∃ x', taskVerdict later c' = some x' ∧ x'.kind = x.kind

structure Judged (S₀ : Nat → Turn → Prop) (D : List ClassifiedExit) (rt : SupervisorRuntime) : Prop
    extends rt.lane.Sound (rt.Given S₀) D where
  shown : ∀ s ∈ rt.published, ∀ c ∈ s.children, c.restartPolicy.isNever = true → c.generation = 0
  repeats : rt.published.Pairwise SupervisorSnapshot.Repeats

/-- Nothing is published. -/
theorem Judged.move (h : Judged S₀ D rt) (hp : rt'.published = rt.published) (hs : rt'.lane.Sound (rt.Given S₀) D') :
    Judged S₀ D' rt' := by
  have hg : rt'.Given S₀ = rt.Given S₀ := by
    unfold Given
    rw [hp]
  refine ⟨?_, ?_, ?_⟩
  · rw [hg]
    exact hs
  · rw [hp]
    exact h.shown
  · rw [hp]
    exact h.repeats

theorem Judged.still (h : Judged S₀ D rt) (hp : rt'.published = rt.published) (hl : rt'.lane = rt.lane) : Judged S₀ D rt' :=
  h.move hp (hl ▸ h.toSound)

/-- The same, for code that does not touch the ledger either. -/
theorem Judged.quiet (h : Judged S₀ D rt) (hled : rt'.ledger = rt.ledger) (hl : rt'.lane = rt.lane) : Judged S₀ D rt' :=
  h.still (congrArg Ledger.published hled) hl

theorem Judged.mono (h : Judged S₀ D rt) (hD : ∀ c ∈ D', c ∈ D) : Judged S₀ D' rt :=
  { h with latest := fun c hc => h.latest c (hD c hc) }

theorem Judged.nil (h : Judged S₀ D rt) : Judged S₀ [] rt := h.mono fun c hc => by cases hc

/-- What a snapshot gives away is true, so it is sealed. -/
theorem Judged.publish (h : Judged S₀ D rt) : Judged S₀ D rt.publishSnapshot := by
  have hof : ∀ c ∈ rt.snapshotView.children, ∃ key ∈ rt.childOrder, ∃ e, rt.children.get key = some e ∧
      childSnapshot rt.now e = c := by
    intro c hc
    obtain ⟨key, hmem, hshown⟩ := List.mem_filterMap.mp hc
    obtain ⟨e, he, rfl⟩ := Option.map_eq_some_iff.mp hshown
    exact ⟨key, hmem, e, he, rfl⟩
  have hsound : rt.lane.Sound (rt.publishSnapshot.Given S₀) D := { h.toSound with
    fixed := by
      intro k p hget t ht
      rcases ht with ht | ⟨s, hs, c, hc, x, hv, hl, ht⟩
      · exact h.fixed k p hget t (.inl ht)
      · rcases List.mem_append.mp hs with hs | hs
        · exact h.fixed k p hget t (.inr ⟨s, hs, c, hc, x, hv, hl, ht⟩)
        · rw [List.mem_singleton.mp hs] at hc hv
          obtain ⟨key, hmem, e, he, rfl⟩ := hof c hc
          have hk : key = k := h.inj key e.post k p (lane_get he) hget hl
          subst hk
          have hp : e.post = p := Option.some.inj ((lane_get he).symm.trans hget)
          subst hp
          obtain ⟨hturn, hfin⟩ := finished_of_verdict h.toProper hmem he hv
          exact ⟨hturn.trans ht, hfin⟩ }
  refine ⟨hsound, ?_, ?_⟩
  · intro s hs c hc hn
    rcases List.mem_append.mp hs with hs | hs
    · exact h.shown s hs c hc hn
    · rw [List.mem_singleton.mp hs] at hc
      obtain ⟨key, -, e, he, rfl⟩ := hof c hc
      exact (h.once key e.post (lane_get he) hn).1
  · refine List.pairwise_append.mpr ⟨h.repeats, List.pairwise_singleton .., fun s hs s' hs' => ?_⟩
    rw [List.mem_singleton.mp hs']
    intro c hc x hv c' hc' hl
    obtain ⟨key, -, e, he, rfl⟩ := hof c' hc'
    obtain ⟨hturn, hfin⟩ := h.fixed key e.post (lane_get he) (c.generation, some x.kind)
      (.inr ⟨s, hs, c, hc, x, hv, hl.symm, rfl⟩)
    have hg : e.runtime.generation = c.generation := congrArg Prod.fst hturn
    have hx : e.lastExit = some x.kind := congrArg Prod.snd hturn
    exact ⟨hg, ⟨x.kind, e.lastExitCancelled⟩, verdict_of_finished he hx hfin, rfl⟩

theorem Judged.notify {n : Notice} (h : Judged S₀ D rt) (hn : n.tellsParent = false) : Judged S₀ D (rt.notify n) :=
  h.still rfl (lane_notify hn)

theorem Judged.sendLifecycleDraft (h : Judged S₀ D rt) (d : LifecycleEventDraft) : Judged S₀ D (rt.sendLifecycleDraft d) := by
  have h₁ : Judged S₀ D { rt with seq := rt.seq + 1, log := rt.log ++ [d.at (rt.seq + 1)] } := by
    refine h.move rfl ?_
    have hl : ({ rt with seq := rt.seq + 1, log := rt.log ++ [d.at (rt.seq + 1)] } : SupervisorRuntime).lane =
        rt.lane.tell (d.kind.news d.childId d.lineage) := by
      unfold lane Lane.tell
      simp [List.flatMap_append, ChildEvent.news, LifecycleEventDraft.at, startQueue, startGate]
    rw [hl]
    exact h.toSound.tell _
  unfold SupervisorRuntime.sendLifecycleDraft
  simp only
  split
  · exact h₁
  · exact h₁.publish

theorem Judged.sendLifecycle (h : Judged S₀ D rt) (key : ChildKey) (kind : ChildEventKind) :
    Judged S₀ D (rt.sendLifecycle key kind) := by
  unfold SupervisorRuntime.sendLifecycle
  split
  · exact h.sendLifecycleDraft _
  · exact h

theorem Judged.sendSupervisorEvent (h : Judged S₀ D rt) (kind : SupervisorEventKind) :
    Judged S₀ D (rt.sendSupervisorEvent kind) := by
  unfold SupervisorRuntime.sendSupervisorEvent
  simp only
  split
  · exact h.publish
  · exact h.publish.notify rfl

/-- One entry changes, as a post of the lane may. -/
theorem Judged.edit {f : ChildEntry → ChildEntry} (h : Judged S₀ D rt) (he : rt.children.get key = some e)
    (hs : (rt.lane.put key (f e).post).Sound (rt.Given S₀) D) : Judged S₀ D (rt.edit key f) := by
  refine h.move rfl ?_
  rw [lane_edit he]
  exact hs

end Kokage.Supervisor
