/-
  Kokage.Supervisor.Tracking — how a task reference learns how its task ended
  (`runtime.rs`: `TaskRef`, `track_task`).

  The tracker reads one snapshot and then pops a watch that follows the membership. At
  every event of the task, and at every lag marker, it reads the latest snapshot and judges
  by it (`taskStateFromSnapshot`); `Removed` and the end of the stream end it with the exit
  it was told last. Popping and reading are separate steps, and the scope goes on between
  them: a `Tracking` is the tracker beside the feed of a run that does not wait for it.

  Proved of every run of a scope, every interleaving and every overflow of the queue:
    `task_outcome_final`   — an exit reported is final: the task is not started again and
                             no snapshot published from then on says otherwise.
    `task_outcome_reached` — a tracker that was told of the removal has an outcome: the
                             last exit of the membership, and an error only if it has none.

  A tracker that is ended by its stream reports the exit it was told last, which need not be
  the task's last; both theorems speak of the others.
-/

import Kokage.Supervisor.Finality
import Kokage.Supervisor.Removals
import Kokage.Lifecycle.Feed

namespace Kokage.Supervisor

open Kokage.Lib Kokage.Lifecycle Ledger SupervisorRuntime

def SupervisorRuntime.history (rt : SupervisorRuntime) : History := ⟨rt.published, rt.log⟩

/-! ## The tracker -/

inductive TrackPhase where
  | initial
  | popping
  /-- Nothing was queued: the terminal flag is read next. -/
  | checking
  /-- Something was popped that calls for a snapshot. -/
  | reading
  | finished (ended : Bool)
  deriving DecidableEq, Repr

/-- `TaskRefInner` and the locals of `track_task`. -/
structure Tracker where
  id : String
  lineage : Nat
  lastExit : Option ExitStatus := none
  state : TaskTrackingState := {}
  phase : TrackPhase := .initial

namespace Tracker

/-- The last exit, as the outcome of a membership that is gone. -/
def lastOutcome (id : String) : Option ExitStatus → Except TaskError ExitStatus
  | some exit => .ok exit
  | none => .error (.unavailable id)

def conclude (t : Tracker) (ended : Bool) : Tracker :=
  { t with state := { t.state with outcome := some (lastOutcome t.id t.lastExit) }, phase := .finished ended }

/-- A snapshot that does not show the task, or none yet, changes nothing. -/
def read (t : Tracker) (snapshot : Option SupervisorSnapshot) : Tracker :=
  match snapshot.bind (taskStateFromSnapshot · t.id t.lineage) with
  | some state => { t with state := state, phase := if state.outcome.isSome then .finished false else .popping }
  | none => { t with phase := .popping }

/-- What the loop makes of an event it popped. -/
def take (t : Tracker) : Item LifecycleEvent → Tracker
  | .lagged _ => { t with phase := .reading }
  | .event ⟨_, .supervisor _⟩ => { t with phase := .popping }
  | .event ⟨_, .child event⟩ =>
    if event.childId = t.id ∧ event.lineage = t.lineage then
      match event.kind with
      | .exited _ exit => { t with lastExit := some exit, phase := .reading }
      | .removed => t.conclude false
      | .added | .started _ | .restartScheduled _ _ => { t with phase := .reading }
    else { t with phase := .popping }

end Tracker

structure Tracking where
  feed : Feed
  tracker : Tracker

inductive TrackAction where
  | feed (a : FeedAction)
  | turn
  deriving DecidableEq, Repr

namespace Tracking

/-- The next atomic step of `track_task`. -/
def turn (H : History) (s : Tracking) : Tracking :=
  match s.tracker.phase with
  | .initial | .reading => { s with tracker := s.tracker.read (s.feed.latest H) }
  | .popping =>
    match s.feed.watch.queue with
    | i :: _ => { feed := { s.feed with watch := s.feed.watch.next }, tracker := s.tracker.take i }
    | [] => { s with tracker := { s.tracker with phase := .checking } }
  | .checking =>
    { s with tracker := if s.feed.terminal then s.tracker.conclude true else { s.tracker with phase := .popping } }
  | .finished _ => s

def step (H : History) (s : Tracking) : TrackAction → Tracking
  | .feed a => { s with feed := s.feed.step H a }
  | .turn => s.turn H

def run (H : History) (s : Tracking) (actions : List TrackAction) : Tracking := actions.foldl (step H) s

/-- `TaskRef::new`, with the watch as `add_task_spec` hands it over, and `ensure_tracking`. -/
def new (H : History) (id : String) (lineage shown n₀ n₁ : Nat) : Tracking :=
  ⟨.handedOff H id lineage shown n₀ n₁, { id := id, lineage := lineage }⟩

/-- The tracker has been told everything that is staged, and has acted on it. -/
def AtRest (s : Tracking) : Prop := s.feed.watch.direct = [] ∧ s.tracker.phase ≠ .initial ∧ s.tracker.phase ≠ .reading

end Tracking

/-! ## The end of a word -/

def ChildEventKind.exit? : ChildEventKind → Option ExitStatus
  | .exited _ exit => some exit
  | .added | .started _ | .restartScheduled _ _ | .removed => none

theorem latestExit_eq (w : List ChildEventKind) : latestExit w = w.reverse.findSome? ChildEventKind.exit? := by
  unfold latestExit
  congr 1
  funext k
  cases k <;> rfl

theorem snoc_split {α : Type} {w u v : List α} {a k : α} (h : w ++ [a] = u ++ k :: v) :
    (v = [] ∧ a = k) ∨ ∃ v', v = v' ++ [a] ∧ w = u ++ k :: v' := by
  rcases List.eq_nil_or_concat v with rfl | ⟨v', b, rfl⟩
  · obtain ⟨-, hk⟩ := List.append_inj' h rfl
    exact .inl ⟨rfl, List.singleton_inj.mp hk⟩
  · rw [List.concat_eq_append, ← List.cons_append, ← List.append_assoc] at h
    obtain ⟨hw, hb⟩ := List.append_inj' h rfl
    rw [List.concat_eq_append, List.singleton_inj.mp hb]
    exact .inr ⟨v', rfl, hw⟩

theorem Life.not_removed {w : List ChildEventKind} {s : Stage} (h : Life w s) (hs : s ≠ .removed) : .removed ∉ w := by
  have hsnoc : ∀ {u : List ChildEventKind} {k}, k ≠ .removed → .removed ∉ u → .removed ∉ u ++ [k] := by
    intro u k hk hu hm
    rcases List.mem_append.mp hm with hm | hm
    · exact hu hm
    · exact hk (List.mem_singleton.mp hm).symm
  induction h with
  | added => simp
  | started _ ih => exact hsnoc (fun hk => by cases hk) (ih fun hs => by cases hs)
  | aborted _ _ ih => exact hsnoc (fun hk => by cases hk) (ih fun hs => by cases hs)
  | exited _ _ ih => exact hsnoc (fun hk => by cases hk) (ih fun hs => by cases hs)
  | scheduled _ _ ih => exact hsnoc (fun hk => by cases hk) (ih fun hs => by cases hs)
  | removed _ _ => exact absurd rfl hs

/-- Nothing follows a removal. -/
theorem Life.removed_last {w u v : List ChildEventKind} {s : Stage} (h : Life w s) (hw : w = u ++ .removed :: v) : v = [] := by
  by_cases hs : s = .removed
  · subst hs
    cases h with
    | removed h hne =>
      rcases snoc_split hw with ⟨hv, -⟩ | ⟨v', -, hw⟩
      · exact hv
      · exact absurd (hw ▸ List.mem_append_right _ (List.mem_cons_self ..)) (h.not_removed hne)
  · exact absurd (hw ▸ List.mem_append_right _ (List.mem_cons_self ..)) (h.not_removed hs)

/-- How many events may have followed the last exit. -/
def Stage.since : Stage → Nat
  | .idle _ true => 0
  | .idle _ false => 1
  | .started _ => 2
  | .removed => 3

theorem Stage.since_le (s : Stage) : s.since ≤ 3 := by
  unfold since
  split <;> omega

/-- The last exit is never far from the end of the events. -/
theorem Life.exit_late {w u v : List ChildEventKind} {k : ChildEventKind} {s : Stage} (h : Life w s) (hw : w = u ++ k :: v)
    (hk : k.exit?.isSome = true) (hv : ∀ k' ∈ v, k'.exit? = none) : v.length ≤ s.since := by
  induction h generalizing v with
  | added =>
    rcases snoc_split (show [] ++ [_] = _ from hw) with ⟨-, rfl⟩ | ⟨v', -, hw⟩
    · cases hk
    · simp at hw
  | @started w g x _ ih =>
    rcases snoc_split hw with ⟨rfl, -⟩ | ⟨v', rfl, hbefore⟩
    · exact Nat.zero_le _
    · have := ih hbefore fun k' hk' => hv k' (List.mem_append_left _ hk')
      have hle : (Stage.idle g x).since ≤ 1 := by cases x <;> simp [Stage.since]
      rw [List.length_append, List.length_singleton]
      show v'.length + 1 ≤ 2
      omega
  | aborted exit _ _ =>
    rcases snoc_split hw with ⟨rfl, -⟩ | ⟨v', rfl, -⟩
    · exact Nat.zero_le _
    · cases hv _ (List.mem_append_right _ (List.mem_singleton.mpr rfl))
  | exited exit _ _ =>
    rcases snoc_split hw with ⟨rfl, -⟩ | ⟨v', rfl, -⟩
    · exact Nat.zero_le _
    · cases hv _ (List.mem_append_right _ (List.mem_singleton.mpr rfl))
  | scheduled delay _ ih =>
    rcases snoc_split hw with ⟨rfl, -⟩ | ⟨v', rfl, hbefore⟩
    · exact Nat.zero_le _
    · have : v'.length ≤ 0 := ih hbefore fun k' hk' => hv k' (List.mem_append_left _ hk')
      rw [List.length_append, List.length_singleton]
      show v'.length + 1 ≤ 1
      omega
  | @removed w s _ hne ih =>
    rcases snoc_split hw with ⟨rfl, -⟩ | ⟨v', rfl, hbefore⟩
    · exact Nat.zero_le _
    · have := ih hbefore fun k' hk' => hv k' (List.mem_append_left _ hk')
      have hle : s.since ≤ 2 := by
        cases s with
        | idle g x => cases x <;> simp [Stage.since]
        | started g => exact Nat.le_refl 2
        | removed => exact absurd rfl hne
      rw [List.length_append, List.length_singleton]
      show v'.length + 1 ≤ 3
      omega

/-! ## What the tracker was told -/

def exitOf (e : LifecycleEvent) : Option ExitStatus :=
  match e.kind with
  | .child event => event.kind.exit?
  | .supervisor _ => none

/-- The last exit among the events popped. -/
def lastTold (items : List (Item LifecycleEvent)) : Option ExitStatus := (items.filterMap Item.event?).reverse.findSome? exitOf

theorem lastTold_event (items : List (Item LifecycleEvent)) (e : LifecycleEvent) :
    lastTold (items ++ [.event e]) = (exitOf e).or (lastTold items) := by
  unfold lastTold
  rw [List.filterMap_append, List.reverse_append, List.findSome?_append]
  congr 1
  show [e].findSome? exitOf = _
  rw [List.findSome?_cons]
  cases exitOf e <;> rfl

theorem lastTold_lagged (items : List (Item LifecycleEvent)) (n : Nat) : lastTold (items ++ [.lagged n]) = lastTold items := by
  unfold lastTold
  rw [List.filterMap_append]
  exact congrArg (fun es => es.reverse.findSome? exitOf) (List.append_nil _)

theorem told_latestExit (log : List ChildEvent) (id : String) (lineage : Nat) :
    (Feed.told log id lineage).reverse.findSome? exitOf = latestExit (word log id lineage) := by
  rw [latestExit_eq]
  unfold Feed.told word
  rw [← List.map_reverse, ← List.map_reverse, List.findSome?_map, List.findSome?_map]
  rfl

/-- The events of each membership are a word of the grammar. -/
def Grammatical (H : History) : Prop := ∀ id lineage, word H.log id lineage = [] ∨ ∃ s, Life (word H.log id lineage) s

theorem word_split (log : List ChildEvent) (n : Nat) (id : String) (lineage : Nat) :
    word log id lineage = word (log.take n) id lineage ++ word (log.drop n) id lineage := by
  unfold word
  rw [← List.map_append, ← List.filter_append, List.take_append_drop]

/-- A removal that is staged is the last event of its membership. -/
theorem Grammatical.removed_staged {H : History} (hH : Grammatical H) {n : Nat} {id : String} {lineage : Nat} {u v : List ChildEventKind}
    (hw : word (H.log.take n) id lineage = u ++ .removed :: v) : v = [] ∧ word H.log id lineage = word (H.log.take n) id lineage := by
  have hsplit := word_split H.log n id lineage
  have hall : word H.log id lineage = u ++ .removed :: (v ++ word (H.log.drop n) id lineage) := by
    rw [hsplit, hw, List.append_assoc, List.cons_append]
  rcases hH id lineage with hnil | ⟨s, hs⟩
  · rw [hall] at hnil
    simp at hnil
  · obtain ⟨hv, hrest⟩ := List.append_eq_nil_iff.mp (hs.removed_last hall)
    refine ⟨hv, ?_⟩
    rw [hsplit, hrest, List.append_nil]

def isRemoval (e : LifecycleEvent) : Bool :=
  match e.kind with
  | .child event => event.kind = .removed
  | .supervisor _ => false

/-- When the removal is popped nothing is left in the queue, and the last exit popped is the
    last of the membership: a marker stands for older events only. -/
theorem removal_popped {H : History} (hH : Grammatical H) {f : Feed} {id : String} {lineage : Nat} (ht : f.Tells H id lineage)
    {e : LifecycleEvent} {rest : List (Item LifecycleEvent)} (hq : f.watch.direct = .event e :: rest)
    (hr : isRemoval e = true) :
    .removed ∈ word (H.log.take f.staged) id lineage ∧ lastTold f.watch.received = latestExit (word H.log id lineage) := by
  obtain ⟨es, hfollows, hes⟩ := ht
  have hrecent := hfollows.recent
  have hcovers := hfollows.covers
  rw [hes, hq] at hrecent hcovers
  obtain ⟨front, back, htold, -, hback⟩ := Covers.split hcovers
  cases hback with
  | @event back _ _ hback =>
    obtain ⟨before, after, hmine, rfl, hafter⟩ := List.map_eq_append_iff.mp htold
    obtain ⟨event, after, rfl, rfl, rfl⟩ := List.map_eq_cons_iff.mp hafter
    have hkind : event.kind = .removed := of_decide_eq_true hr
    have hword : word (H.log.take f.staged) id lineage = before.map (·.kind) ++ .removed :: after.map (·.kind) := by
      unfold word
      rw [hmine, List.map_append, List.map_cons, hkind]
    obtain ⟨hnil, hfull⟩ := hH.removed_staged hword
    refine ⟨hword ▸ List.mem_append_right _ (List.mem_cons_self ..), ?_⟩
    rw [List.map_eq_nil_iff.mp hnil] at hback
    have hrest : rest = [] := by
      by_contra hne
      exact hback.ne_nil hne rfl
    rw [hrest] at hrecent
    have hlast := hrecent.findSome (f := exitOf) fun pre e' suf hsplit hsome hnone => by
      obtain ⟨us, vs, hus, rfl, hvs⟩ := List.map_eq_append_iff.mp hsplit
      obtain ⟨ev, vs, rfl, rfl, rfl⟩ := List.map_eq_cons_iff.mp hvs
      have hw : word H.log id lineage = us.map (·.kind) ++ ev.kind :: vs.map (·.kind) := by
        rw [hfull]
        unfold word
        rw [hus, List.map_append, List.map_cons]
      rcases hH id lineage with hempty | ⟨s, hs⟩
      · rw [hempty] at hw
        simp at hw
      · have hlate := hs.exit_late hw hsome fun k hk => by
          obtain ⟨x, hx, rfl⟩ := List.mem_map.mp hk
          exact hnone _ (List.mem_map_of_mem hx)
        have hle := s.since_le
        rw [List.length_map] at hlate ⊢
        have hkept : EventQueue.kept = 126 := rfl
        omega
    have hsnoc := lastTold_event f.watch.received (direct event)
    have hexit : exitOf (direct event) = none := by
      unfold exitOf direct
      simp only
      rw [hkind]
      rfl
    rw [hexit, Option.none_or] at hsnoc
    rw [← hsnoc, hfull, ← told_latestExit]
    exact hlast

/-- A removal that is staged and not queued was popped. -/
theorem removal_told {H : History} (hH : Grammatical H) {f : Feed} {id : String} {lineage : Nat} (ht : f.Tells H id lineage)
    (hr : .removed ∈ word (H.log.take f.staged) id lineage) (hq : f.watch.direct = []) :
    ∃ e, .event e ∈ f.watch.received ∧ isRemoval e = true := by
  obtain ⟨es, hfollows, hes⟩ := ht
  have hrecent := hfollows.recent
  rw [hes, hq, List.append_nil] at hrecent
  obtain ⟨pre, front, suf, htold, hitems, -, hk⟩ := hrecent
  obtain ⟨u, v, huv⟩ := List.append_of_mem hr
  obtain ⟨rfl, -⟩ := hH.removed_staged huv
  obtain ⟨before, after, hmine, -, hafter⟩ := List.map_eq_append_iff.mp huv
  obtain ⟨event, rest, rfl, hkind, hrest⟩ := List.map_eq_cons_iff.mp hafter
  have htold' : Feed.told (H.log.take f.staged) id lineage = before.map direct ++ [direct event] := by
    unfold Feed.told
    rw [hmine, List.map_eq_nil_iff.mp hrest, List.map_append]
    rfl
  -- the last event told is told one by one
  have hlast : direct event ∈ suf := by
    rcases List.eq_nil_or_concat suf with rfl | ⟨suf', x, rfl⟩
    · rcases hk with rfl | hk
      · rw [htold'] at htold
        simp at htold
      · cases hk
    · rw [htold', List.concat_eq_append, ← List.append_assoc] at htold
      rw [List.concat_eq_append, List.singleton_inj.mp (List.append_inj' htold rfl).2]
      exact List.mem_append_right _ (List.mem_singleton.mpr rfl)
  refine ⟨direct event, ?_, decide_eq_true hkind⟩
  rw [hitems]
  exact List.mem_append_right _ (List.mem_map_of_mem hlast)

/-- What the watch lets through is of the membership. -/
theorem mine_of_accepts {id : String} {lineage : Nat} {path : List ScopePathSegment} {event : ChildEvent}
    (h : (DirectChildFilter.exact id lineage).accepts ⟨path, .child event⟩ = true) : event.childId = id ∧ event.lineage = lineage := by
  unfold DirectChildFilter.accepts DirectChildFilter.exact LifecycleEventKind.childIdentity at h
  simp only [Bool.and_eq_true, Option.any_some, Option.all_some, decide_eq_true_eq] at h
  exact h.2

theorem queue_of_tells {H : History} {f : Feed} {id : String} {lineage : Nat} (h : f.Tells H id lineage) :
    f.watch.queue = f.watch.direct := by
  obtain ⟨es, hfollows, -⟩ := h
  unfold Watcher.queue
  rw [hfollows.only]
  rfl

/-! ## What holds of a tracker -/

/-- A tracker that goes on. -/
structure Tracker.Open (t : Tracker) (received : List (Item LifecycleEvent)) : Prop where
  undecided : t.state.outcome = none
  lastExit : t.lastExit = lastTold received
  unremoved : ∀ e, .event e ∈ received → isRemoval e = false

namespace Tracking

variable {H : History} {id : String} {lineage : Nat} {s : Tracking}

/-- How a tracker that its stream did not end came to its outcome: by a snapshot, or by
    the removal. -/
inductive Decided (H : History) (id : String) (lineage : Nat) (s : Tracking) : Prop
  | shown {snapshot : SupervisorSnapshot} {state : TaskTrackingState} {x : ExitStatus} :
      snapshot ∈ H.published.take s.feed.shown → taskStateFromSnapshot snapshot id lineage = some state →
      state.outcome = some (.ok x) → s.tracker.state.outcome = some (.ok x) → Decided H id lineage s
  | removed : .removed ∈ word (H.log.take s.feed.staged) id lineage →
      s.tracker.state.outcome = some (Tracker.lastOutcome id (latestExit (word H.log id lineage))) → Decided H id lineage s

structure Inv (H : History) (id : String) (lineage : Nat) (s : Tracking) : Prop where
  id_eq : s.tracker.id = id
  lineage_eq : s.tracker.lineage = lineage
  aligned : s.feed.Aligned H
  tells : s.feed.Tells H id lineage
  goesOn : (∀ ended, s.tracker.phase ≠ .finished ended) → s.tracker.Open s.feed.watch.received
  decided : s.tracker.phase = .finished false → s.Decided H id lineage

theorem taken_of_latest {f : Feed} {snapshot : SupervisorSnapshot} (h : f.latest H = some snapshot) :
    snapshot ∈ H.published.take f.shown := List.mem_of_getLast? h

theorem step_shown_mem {f : Feed} (a : FeedAction) {snapshot : SupervisorSnapshot} (h : snapshot ∈ H.published.take f.shown) :
    snapshot ∈ H.published.take (f.step H a).shown :=
  (List.take_sublist_take_left (Feed.shown_le a)).subset h

theorem step_staged_mem {f : Feed} (a : FeedAction) {k : ChildEventKind} (h : k ∈ word (H.log.take f.staged) id lineage) :
    k ∈ word (H.log.take (f.step H a).staged) id lineage := by
  rcases @Feed.step_cases H f a with ⟨-, -, hs, -⟩ | ⟨e, he, -, -, hs, -⟩ | ⟨-, hs, -⟩
  · rw [hs]
    exact h
  · rw [hs, Feed.take_succ_log he, word_append]
    exact List.mem_append_left _ h
  · rw [hs]
    exact h

theorem step_received {f : Feed} (a : FeedAction) : (f.step H a).watch.received = f.watch.received := by
  rcases @Feed.step_cases H f a with ⟨-, -, -, hw⟩ | ⟨e, -, -, -, -, hw⟩ | ⟨-, -, hw⟩
  · rw [hw]
  · rw [hw]
    rfl
  · rcases hw with hw | ⟨kind, hw⟩
    · rw [hw]
    · rw [hw]
      rfl

theorem Inv.feed (h : s.Inv H id lineage) (a : FeedAction) : (s.step H (.feed a)).Inv H id lineage where
  id_eq := h.id_eq
  lineage_eq := h.lineage_eq
  aligned := h.aligned.step a
  tells := h.tells.step a
  goesOn hp := by
    show s.tracker.Open (s.feed.step H a).watch.received
    rw [step_received]
    exact h.goesOn hp
  decided hp := by
    cases h.decided hp with
    | shown hin hst hx ho => exact .shown (step_shown_mem a hin) hst hx ho
    | removed hr ho => exact .removed (step_staged_mem a hr) ho

/-- A snapshot is read. -/
theorem Inv.read (h : s.Inv H id lineage) (hp : ∀ ended, s.tracker.phase ≠ .finished ended) :
    Inv H id lineage { s with tracker := s.tracker.read (s.feed.latest H) } := by
  have hopen := h.goesOn hp
  unfold Tracker.read
  rw [h.id_eq, h.lineage_eq]
  cases hsn : (s.feed.latest H).bind (taskStateFromSnapshot · id lineage) with
  | none =>
    refine ⟨rfl, rfl, h.aligned, h.tells, fun _ => ?_, fun hf => by cases hf⟩
    exact ⟨hopen.undecided, hopen.lastExit, hopen.unremoved⟩
  | some state =>
    obtain ⟨snapshot, hlatest, hstate⟩ := Option.bind_eq_some_iff.mp hsn
    simp only
    cases ho : state.outcome with
    | none =>
      refine ⟨rfl, rfl, h.aligned, h.tells, fun _ => ?_, fun hf => by cases hf⟩
      exact ⟨ho, hopen.lastExit, hopen.unremoved⟩
    | some outcome =>
      refine ⟨rfl, rfl, h.aligned, h.tells, fun hgo => absurd rfl (hgo false), fun _ => ?_⟩
      have hok : ∃ x, outcome = .ok x := by
        obtain ⟨child, -, rfl⟩ := Option.map_eq_some_iff.mp hstate
        obtain ⟨x, -, hx⟩ := Option.map_eq_some_iff.mp ho
        exact ⟨x, hx.symm⟩
      obtain ⟨x, rfl⟩ := hok
      exact .shown (taken_of_latest hlatest) hstate ho ho

/-- Something is popped. -/
theorem Inv.take (hH : Grammatical H) (h : s.Inv H id lineage) (hp : ∀ ended, s.tracker.phase ≠ .finished ended)
    {i : Item LifecycleEvent} {rest : List (Item LifecycleEvent)} (hq : s.feed.watch.direct = i :: rest) :
    Inv H id lineage { feed := { s.feed with watch := s.feed.watch.next }, tracker := s.tracker.take i } := by
  have hopen := h.goesOn hp
  obtain ⟨es, hfollows, hes⟩ := h.tells
  have htells : Feed.Tells H id lineage { s.feed with watch := s.feed.watch.next } := ⟨es, hfollows.next, hes⟩
  have hreceived : s.feed.watch.next.received = s.feed.watch.received ++ [i] := by
    rcases Watcher.next_direct hfollows.toFollows with ⟨hnil, -⟩ | ⟨j, rest', hj, -, hr⟩
    · rw [hq] at hnil
      cases hnil
    · rw [hq] at hj
      cases hj
      exact hr
  cases i with
  | lagged n =>
    refine ⟨h.id_eq, h.lineage_eq, h.aligned, htells, fun _ => ?_, fun hf => by cases hf⟩
    show Tracker.Open _ s.feed.watch.next.received
    rw [hreceived]
    refine ⟨hopen.undecided, ?_, fun e he => ?_⟩
    · rw [lastTold_lagged]
      exact hopen.lastExit
    · rcases List.mem_append.mp he with he | he
      · exact hopen.unremoved e he
      · cases List.mem_singleton.mp he
  | event e =>
    -- the watch hands out no event of another membership
    have hown : (DirectChildFilter.exact id lineage).accepts e = true :=
      hfollows.own e (List.mem_append_right _ (hq ▸ List.mem_cons_self ..))
    obtain ⟨path, kind⟩ := e
    cases kind with
    | supervisor kind => simp [DirectChildFilter.accepts, LifecycleEventKind.childIdentity] at hown
    | child event =>
      have hmine : event.childId = s.tracker.id ∧ event.lineage = s.tracker.lineage := by
        rw [h.id_eq, h.lineage_eq]
        exact mine_of_accepts hown
      have hgo : ∀ (t : Tracker), t.id = id → t.lineage = lineage → t.phase = .reading → t.state.outcome = none →
          t.lastExit = (event.kind.exit?).or s.tracker.lastExit → isRemoval ⟨path, .child event⟩ = false →
          Inv H id lineage { feed := { s.feed with watch := s.feed.watch.next }, tracker := t } := by
        intro t hid hl hphase ho hlast hr
        refine ⟨hid, hl, h.aligned, htells, fun _ => ?_, fun hf => ?_⟩
        · show t.Open s.feed.watch.next.received
          rw [hreceived]
          refine ⟨ho, ?_, fun e he => ?_⟩
          · rw [lastTold_event, ← hopen.lastExit]
            exact hlast
          · rcases List.mem_append.mp he with he | he
            · exact hopen.unremoved e he
            · cases List.mem_singleton.mp he
              exact hr
        · cases hphase.symm.trans hf
      unfold Tracker.take
      simp only
      rw [if_pos hmine]
      cases hk : event.kind with
      | exited g exit =>
        exact hgo _ h.id_eq h.lineage_eq rfl hopen.undecided (by rw [hk]; rfl) (by simp [isRemoval, hk])
      | removed =>
        have hr : isRemoval ⟨path, .child event⟩ = true := by simp [isRemoval, hk]
        obtain ⟨hstaged, hlast⟩ := removal_popped hH h.tells hq hr
        refine ⟨h.id_eq, h.lineage_eq, h.aligned, htells, fun hgo => absurd rfl (hgo false), fun _ => .removed hstaged ?_⟩
        show some (Tracker.lastOutcome s.tracker.id s.tracker.lastExit) = _
        rw [h.id_eq, hopen.lastExit, hlast]
      | added => exact hgo _ h.id_eq h.lineage_eq rfl hopen.undecided (by rw [hk]; rfl) (by simp [isRemoval, hk])
      | started g => exact hgo _ h.id_eq h.lineage_eq rfl hopen.undecided (by rw [hk]; rfl) (by simp [isRemoval, hk])
      | restartScheduled g d => exact hgo _ h.id_eq h.lineage_eq rfl hopen.undecided (by rw [hk]; rfl) (by simp [isRemoval, hk])

/-- The same tracker in another of its waiting phases. -/
theorem Inv.rephase (h : s.Inv H id lineage) (hp : ∀ ended, s.tracker.phase ≠ .finished ended) {phase : TrackPhase}
    (hphase : phase ≠ .finished false) : Inv H id lineage { s with tracker := { s.tracker with phase := phase } } :=
  ⟨h.id_eq, h.lineage_eq, h.aligned, h.tells,
    fun _ => ⟨(h.goesOn hp).undecided, (h.goesOn hp).lastExit, (h.goesOn hp).unremoved⟩, fun hf => absurd hf hphase⟩

theorem Inv.turn (hH : Grammatical H) (h : s.Inv H id lineage) : (s.turn H).Inv H id lineage := by
  unfold Tracking.turn
  cases hphase : s.tracker.phase with
  | initial => exact h.read fun ended hf => by cases hphase.symm.trans hf
  | reading => exact h.read fun ended hf => by cases hphase.symm.trans hf
  | popping =>
    have hp : ∀ ended, s.tracker.phase ≠ .finished ended := fun ended hf => by cases hphase.symm.trans hf
    simp only
    rw [queue_of_tells h.tells]
    cases hq : s.feed.watch.direct with
    | nil => exact h.rephase hp fun hf => by cases hf
    | cons i rest => exact h.take hH hp hq
  | checking =>
    have hp : ∀ ended, s.tracker.phase ≠ .finished ended := fun ended hf => by cases hphase.symm.trans hf
    simp only
    split
    · exact ⟨h.id_eq, h.lineage_eq, h.aligned, h.tells, fun hgo => absurd rfl (hgo true), fun hf => by cases hf⟩
    · exact h.rephase hp fun hf => by cases hf
  | finished ended => exact h

theorem Inv.step (hH : Grammatical H) (h : s.Inv H id lineage) (a : TrackAction) : (s.step H a).Inv H id lineage := by
  cases a with
  | feed a => exact h.feed a
  | turn => exact h.turn hH

theorem Inv.run (hH : Grammatical H) (h : s.Inv H id lineage) (actions : List TrackAction) : (s.run H actions).Inv H id lineage := by
  induction actions generalizing s with
  | nil => exact h
  | cons a actions ih => exact ih (h.step hH a)

theorem new_inv {shown n₀ n₁ : Nat} (h : Feed.Handed H id lineage shown n₀ n₁) : (new H id lineage shown n₀ n₁).Inv H id lineage where
  id_eq := rfl
  lineage_eq := rfl
  aligned := h.aligned
  tells := h.tells
  goesOn _ := ⟨rfl, rfl, fun e he => by cases he⟩
  decided hf := by cases hf

end Tracking

/-! ## Runs -/

variable {c : SupervisorConfig} {b : Binding} {inputs : List Input}

theorem run_recorded (c : SupervisorConfig) (b : Binding) (inputs : List Input) :
    (run (start c b) inputs).rt.ledger.Recorded (c.static b) :=
  run_keeps_all c b (fun _ => blank_recorded c b) step_recorded inputs

theorem run_grammatical (c : SupervisorConfig) (b : Binding) (inputs : List Input) : Grammatical (run (start c b) inputs).rt.history := by
  have htold : (run (start c b) inputs).rt.ledger.Told := run_keeps (fun L => Announcing.toldAll) step_told c b inputs
  exact htold.grammatical

/-- What holds between snapshots in the order of their publication holds in that of their sequence. -/
theorem of_seq_lt {P : List SupervisorSnapshot} {Q : SupervisorSnapshot → SupervisorSnapshot → Prop}
    (hord : P.Pairwise fun s s' => s.lifecycleSeq ≤ s'.lifecycleSeq) (hQ : P.Pairwise Q) {s s' : SupervisorSnapshot}
    (hs : s ∈ P) (hs' : s' ∈ P) (hlt : s.lifecycleSeq < s'.lifecycleSeq) : Q s s' := by
  induction P with
  | nil => cases hs
  | cons a P ih =>
    obtain ⟨hord₁, hord⟩ := List.pairwise_cons.mp hord
    obtain ⟨hQ₁, hQ⟩ := List.pairwise_cons.mp hQ
    rcases List.mem_cons.mp hs with rfl | htail
    · rcases List.mem_cons.mp hs' with rfl | htail'
      · omega
      · exact hQ₁ s' htail'
    · rcases List.mem_cons.mp hs' with rfl | htail'
      · have := hord₁ s htail
        omega
      · exact ih hord hQ htail htail'

theorem latestExit_append (w w' : List ChildEventKind) : latestExit (w ++ w') = (latestExit w').or (latestExit w) := by
  rw [latestExit_eq, latestExit_eq, latestExit_eq, List.reverse_append, List.findSome?_append]

theorem word_append_log (log log' : List ChildEvent) (id : String) (lineage : Nat) :
    word (log ++ log') id lineage = word log id lineage ++ word log' id lineage := by
  unfold word
  rw [List.filter_append, List.map_append]

/-- Before an event of a membership it is not removed. -/
theorem Grammatical.unremoved {H : History} (hH : Grammatical H) {before after : List ChildEvent} {e : ChildEvent} {id : String}
    {lineage : Nat} (hlog : H.log = before ++ e :: after) (hid : e.childId = id) (hl : e.lineage = lineage) :
    .removed ∉ word before id lineage := by
  intro hrem
  obtain ⟨p, q, hpq⟩ := List.append_of_mem hrem
  have hcons : word (e :: after) id lineage = e.kind :: word after id lineage := by
    unfold word
    rw [List.filter_cons_of_pos (by simp [hid, hl]), List.map_cons]
  have hall : word H.log id lineage = p ++ .removed :: (q ++ e.kind :: word after id lineage) := by
    rw [hlog, word_append_log, hpq, hcons, List.append_assoc, List.cons_append]
  rcases hH id lineage with hnil | ⟨stage, hstage⟩
  · rw [hall] at hnil
    simp at hnil
  · have := hstage.removed_last hall
    simp at this

/-- The event of the last exit. -/
theorem latestExit_split {log : List ChildEvent} {id : String} {lineage : Nat} {y : ExitStatus}
    (h : latestExit (word log id lineage) = some y) :
    ∃ before e after, log = before ++ e :: after ∧ e.childId = id ∧ e.lineage = lineage ∧ e.kind.exit? = some y ∧
      latestExit (word after id lineage) = none := by
  induction log with
  | nil => cases h
  | cons e log ih =>
    have hcons : word (e :: log) id lineage = word [e] id lineage ++ word log id lineage := word_append_log [e] log id lineage
    rw [hcons, latestExit_append] at h
    cases hl : latestExit (word log id lineage) with
    | some z =>
      rw [hl, Option.some_or] at h
      obtain ⟨before, e', after, rfl, h⟩ := ih (hl.trans h)
      exact ⟨e :: before, e', after, rfl, h⟩
    | none =>
      rw [hl, Option.none_or] at h
      refine ⟨[], e, log, rfl, ?_⟩
      unfold word at h
      by_cases hmine : e.childId = id ∧ e.lineage = lineage
      · rw [List.filter_cons_of_pos (by simpa using hmine), List.filter_nil, latestExit_eq] at h
        refine ⟨hmine.1, hmine.2, ?_, hl⟩
        simpa using h
      · rw [List.filter_cons_of_neg (by simpa using hmine)] at h
        cases h

/-- An event is the last of those up to its own sequence. -/
theorem upTo_of_split {log before after : List ChildEvent} {e : ChildEvent} (hsorted : log.Pairwise fun e e' => e.seq < e'.seq)
    (hlog : log = before ++ e :: after) : upTo log e.seq = before ++ [e] := by
  subst hlog
  obtain ⟨-, htail, hcross⟩ := List.pairwise_append.mp hsorted
  obtain ⟨hafter, -⟩ := List.pairwise_cons.mp htail
  unfold upTo
  rw [List.filter_append, List.filter_cons_of_pos (by simp)]
  have hbefore : before.filter (fun e' => decide (e'.seq ≤ e.seq)) = before :=
    List.filter_eq_self.mpr fun e' he' => decide_eq_true (Nat.le_of_lt (hcross e' he' e (List.mem_cons_self ..)))
  have hnone : after.filter (fun e' => decide (e'.seq ≤ e.seq)) = [] := by
    refine List.filter_eq_nil_iff.mpr fun e' he' => ?_
    have := hafter e' he'
    simp only [decide_eq_true_eq]
    omega
  rw [hbefore, hnone]

/-- An exit that a snapshot shows for the last one is the last of the membership's events,
    once it is removed and the snapshot of each of its events was published. -/
theorem latestExit_of_verdict {s : SupervisorSnapshot} {child : ChildSnapshot} {x : ExitStatus} {n : Nat}
    (hs : s ∈ (run (start c b) inputs).rt.published) (hc : child ∈ s.children) (hv : taskVerdict s child = some x)
    (hr : .removed ∈ word ((run (start c b) inputs).rt.log.take n) child.id child.lineage)
    (halign : ∀ e ∈ (run (start c b) inputs).rt.log.take n, ∃ s ∈ (run (start c b) inputs).rt.published, s.lifecycleSeq = e.seq) :
    latestExit (word (run (start c b) inputs).rt.log child.id child.lineage) = some x := by
  have hrec := run_recorded c b inputs
  have hH := run_grammatical c b inputs
  have hkept := verdicts_kept c b inputs
  generalize (run (start c b) inputs).rt = rt at hs hr halign hrec hH hkept ⊢
  obtain ⟨u, v, huv⟩ := List.append_of_mem hr
  obtain ⟨-, hfull⟩ := hH.removed_staged huv
  have hag := (hrec.shown s hs).2
  have hexit : latestExit (word (upTo rt.log s.lifecycleSeq) child.id child.lineage) = some x :=
    (hag.exit_eq child hc).symm.trans (shown_of_verdict hv).1
  obtain ⟨rest, hrest⟩ := @upTo_append_rest s.lifecycleSeq rt.log hrec.sorted
  have hlast : latestExit (word rt.log child.id child.lineage) = (latestExit (word rest child.id child.lineage)).or (some x) := by
    have hword : word rt.log child.id child.lineage =
        word (upTo rt.log s.lifecycleSeq) child.id child.lineage ++ word rest child.id child.lineage := by
      rw [← word_append_log, ← show rt.log = _ from hrest]
    rw [hword, latestExit_append, hexit]
  cases hy : latestExit (word rest child.id child.lineage) with
  | none => rw [hlast, hy, Option.none_or]
  | some y =>
    obtain ⟨before, e, after, hsplit, hid, hl, hey, -⟩ := latestExit_split hy
    have hlog : rt.log = (upTo rt.log s.lifecycleSeq ++ before) ++ e :: after := by
      rw [List.append_assoc, ← hsplit, ← hrest]
    have hlt : s.lifecycleSeq < e.seq := by
      by_contra hle
      have hin : e ∈ upTo rt.log s.lifecycleSeq :=
        List.mem_filter.mpr ⟨hlog ▸ List.mem_append_right _ (List.mem_cons_self ..), decide_eq_true (by omega)⟩
      have hsorted := hrec.sorted
      rw [show rt.ledger.log = upTo rt.log s.lifecycleSeq ++ rest from hrest] at hsorted
      have := (List.pairwise_append.mp hsorted).2.2 e hin e (hsplit ▸ List.mem_append_right _ (List.mem_cons_self ..))
      omega
    have hword : word (upTo rt.log e.seq) child.id child.lineage =
        word (upTo rt.log s.lifecycleSeq ++ before) child.id child.lineage ++ [e.kind] := by
      rw [show upTo rt.log e.seq = _ from upTo_of_split hrec.sorted hlog, word_append, if_pos ⟨hid, hl⟩]
    -- the exit is staged, so the snapshot it is aligned with was published, and shows the membership
    have hstaged : e ∈ rt.log.take n := by
      have hdrop : word (rt.log.drop n) child.id child.lineage = [] := by
        have hsame := word_split rt.log n child.id child.lineage
        rw [show word rt.log child.id child.lineage = word (rt.log.take n) child.id child.lineage from hfull] at hsame
        exact List.self_eq_append_right.mp hsame
      have hin : e ∈ rt.log.take n ++ rt.log.drop n := by
        rw [List.take_append_drop, hlog]
        exact List.mem_append_right _ (List.mem_cons_self ..)
      rcases List.mem_append.mp hin with hin | hin
      · exact hin
      · have hmem : e.kind ∈ word (rt.log.drop n) child.id child.lineage :=
          List.mem_map.mpr ⟨e, List.mem_filter.mpr ⟨hin, by simp [hid, hl]⟩, rfl⟩
        rw [hdrop] at hmem
        cases hmem
    obtain ⟨s', hs', hseq⟩ := halign e hstaged
    have hag' := (hrec.shown s' hs').2
    rw [hseq] at hag'
    have henrolled : Enrolled (c.static b) (upTo rt.log e.seq) child.id child.lineage := by
      have hold := (hag.member_iff child.id child.lineage).mp ⟨child, hc, rfl, rfl⟩
      refine ⟨hold.1.imp_right fun ha => ?_, fun hrem => ?_⟩
      · show .added ∈ word (upTo rt.log e.seq) child.id child.lineage
        rw [hword, word_append_log]
        exact List.mem_append_left _ (List.mem_append_left _ ha)
      · have hrem : .removed ∈ word (upTo rt.log e.seq) child.id child.lineage := hrem
        rw [hword] at hrem
        rcases List.mem_append.mp hrem with hrem | hrem
        · exact hH.unremoved hlog hid hl hrem
        · rw [← List.mem_singleton.mp hrem] at hey
          cases hey
    obtain ⟨child', hc', hid', hl'⟩ := (hag'.member_iff child.id child.lineage).mpr henrolled
    have hv' := of_seq_lt hrec.ordered hkept hs hs' (by omega) child hc x hv child' hc' hl'
    have hshown := hag'.exit_eq child' hc'
    have hword' : word (upTo rt.ledger.log e.seq) child'.id child'.lineage =
        word (upTo rt.log s.lifecycleSeq ++ before) child.id child.lineage ++ [e.kind] := by
      rw [hid', hl']
      exact hword
    rw [(shown_of_verdict hv').1, hword', latestExit_append] at hshown
    have hone : latestExit [e.kind] = some y := by
      rw [latestExit_eq]
      simpa using hey
    rw [hone, Option.some_or] at hshown
    rw [hlast, hy, Option.some_or, ← hshown]

variable {id : String} {lineage shown n₀ n₁ : Nat}

/-- The tracker of a task, somewhere in a run that goes on. -/
def Tracking.of (rt : SupervisorRuntime) (id : String) (lineage shown n₀ n₁ : Nat) (actions : List TrackAction) : Tracking :=
  (Tracking.new rt.history id lineage shown n₀ n₁).run rt.history actions

/-- An exit that a tracker reports before its stream ends is final: as long as the task
    exists it has retired with that exit, and every snapshot published later says so. -/
theorem task_outcome_final (c : SupervisorConfig) (b : Binding) (inputs : List Input) (id : String) (lineage shown n₀ n₁ : Nat)
    (h : Feed.Handed (run (start c b) inputs).rt.history id lineage shown n₀ n₁) (actions : List TrackAction) :
    let rt := (run (start c b) inputs).rt
    let t := Tracking.of rt id lineage shown n₀ n₁ actions
    ∀ x, t.tracker.phase = .finished false → t.tracker.state.outcome = some (.ok x) →
      (∀ key e, rt.children.get key = some e → e.id = id → e.lineage = lineage →
        rt.HasRetired key e ∧ e.lastExit = some x.kind ∧ e.lastExitCancelled = x.cancelled) ∧
      ∀ s ∈ rt.published.drop t.feed.shown, ∀ child ∈ s.children, child.id = id → child.lineage = lineage →
        taskVerdict s child = some x := by
  intro rt t x hphase hx
  have hH := run_grammatical c b inputs
  have hrec := run_recorded c b inputs
  have hinv : t.Inv rt.history id lineage := (Tracking.new_inv h).run hH actions
  have hcut : rt.published.take t.feed.shown ++ rt.published.drop t.feed.shown = rt.published := List.take_append_drop ..
  cases hinv.decided hphase with
  | @shown s state y hs hstate hy ho =>
    rw [hx] at ho
    cases ho
    have hs : s ∈ rt.published.take t.feed.shown := hs
    obtain ⟨child, hc, hcid, hcl, hv⟩ := verdict_of_outcome hstate hy
    refine ⟨fun key e he _ hl => ?_, fun s' hs' child' hc' _ hl' => ?_⟩
    · exact retired_of_verdict c b inputs (List.mem_of_mem_take hs) hc hv he (hl.trans hcl.symm)
    · have hkept := verdicts_kept c b inputs
      rw [← show _ = (run (start c b) inputs).rt.published from hcut] at hkept
      exact (List.pairwise_append.mp hkept).2.2 s hs s' hs' child hc x hv child' hc' (hl'.trans hcl.symm)
  | removed hr _ =>
    obtain ⟨e, he, hkind⟩ := List.mem_map.mp hr
    obtain ⟨hin, hmine⟩ := List.mem_filter.mp he
    obtain ⟨s, hs, hseq⟩ := hinv.aligned e hin
    -- nothing shows a membership whose removal was announced
    have hgone : ∀ log : List ChildEvent, e ∈ log → ¬ Enrolled (c.static b) log id lineage := fun log hlog henrolled =>
      henrolled.2 (hkind ▸ List.mem_map.mpr ⟨e, List.mem_filter.mpr ⟨hlog, hmine⟩, rfl⟩)
    refine ⟨fun key entry he hid hl => ?_, fun s' hs' child hc hid hl => ?_⟩
    · refine absurd ((hrec.agreed.has_iff id lineage).mp ⟨key, entry.member, ledger_get he, hid, hl⟩) (hgone _ (List.mem_of_mem_take hin))
    · have hord := hrec.ordered
      rw [← show _ = rt.ledger.published from hcut] at hord
      have hle := (List.pairwise_append.mp hord).2.2 s hs s' hs'
      have hag := (hrec.shown s' (List.mem_of_mem_drop hs')).2
      refine absurd ((hag.member_iff id lineage).mp ⟨child, hc, hid, hl⟩) (hgone _ (List.mem_filter.mpr ⟨List.mem_of_mem_take hin, ?_⟩))
      exact decide_eq_true (hseq ▸ hle)

/-- A tracker that looks once before anything is published, and then after all of it. -/
def lateTracker (published staged turns : Nat) : List TrackAction :=
  .turn :: List.replicate published (.feed .publish) ++ List.replicate staged (.feed .stage) ++ List.replicate turns .turn

/-- The tracker of the child that is not restarted. -/
def skippedTracker : Tracking :=
  Tracking.of (run (start oneShotPair rootBinding) (firstStops ++ secondRestarts)).rt "a" 0 0 0 0 (lateTracker 10 5 2)

/-- The sibling is restarted after the tracker has reported. -/
theorem task_outcome_final_skipped : skippedTracker.tracker.state.outcome = some (.ok ⟨.completed, false⟩) ∧
    skippedTracker.feed.shown < (run (start oneShotPair rootBinding) (firstStops ++ secondRestarts)).rt.published.length ∧
    ∀ s ∈ (run (start oneShotPair rootBinding) (firstStops ++ secondRestarts)).rt.published.drop skippedTracker.feed.shown,
      ∀ child ∈ s.children, child.id = "a" → child.lineage = 0 → taskVerdict s child = some ⟨.completed, false⟩ := by
  have hx : skippedTracker.tracker.state.outcome = some (.ok ⟨.completed, false⟩) := by decide +kernel
  have hphase : skippedTracker.tracker.phase = .finished false := by decide +kernel
  have hall := task_outcome_final oneShotPair rootBinding (firstStops ++ secondRestarts) "a" 0 0 0 0 .fresh (lateTracker 10 5 2)
    ⟨.completed, false⟩ hphase hx
  exact ⟨hx, by decide +kernel, hall.2⟩

/-- A tracker that was told of its task's removal has an outcome, and if its stream had not
    ended before, it is the last exit of the task; it is an error only if the task never exited. -/
theorem task_outcome_reached (c : SupervisorConfig) (b : Binding) (inputs : List Input) (id : String) (lineage shown n₀ n₁ : Nat)
    (h : Feed.Handed (run (start c b) inputs).rt.history id lineage shown n₀ n₁) (actions : List TrackAction) :
    let rt := (run (start c b) inputs).rt
    let t := Tracking.of rt id lineage shown n₀ n₁ actions
    .removed ∈ word (rt.log.take t.feed.staged) id lineage → t.AtRest →
      ∃ ended, t.tracker.phase = .finished ended ∧
        (ended = false → t.tracker.state.outcome = some (Tracker.lastOutcome id (latestExit (word rt.log id lineage)))) := by
  intro rt t hr hrest
  have hH := run_grammatical c b inputs
  have hinv : t.Inv rt.history id lineage := (Tracking.new_inv h).run hH actions
  by_cases hgo : ∀ ended, t.tracker.phase ≠ .finished ended
  · obtain ⟨e, he, hrem⟩ := removal_told hH hinv.tells hr hrest.1
    rw [(hinv.goesOn hgo).unremoved e he] at hrem
    cases hrem
  · obtain ⟨ended, hphase⟩ := not_forall_not.mp hgo
    refine ⟨ended, hphase, fun hf => ?_⟩
    subst hf
    cases hinv.decided hphase with
    | removed _ ho => exact ho
    | @shown s state x hs hstate hx ho =>
      obtain ⟨child, hc, rfl, rfl, hv⟩ := verdict_of_outcome hstate hx
      have hlast := latestExit_of_verdict (List.mem_of_mem_take hs) hc hv hr fun e he => by
        obtain ⟨s', hs', hseq⟩ := hinv.aligned e he
        exact ⟨s', List.mem_of_mem_take hs', hseq⟩
      rw [ho, hlast]
      rfl

def removedTracker : Tracking := Tracking.of (run (start (oneChild .dynamic) rootBinding) joinedRemoval).rt "a" 0 0 0 0 (lateTracker 9 4 7)

/-- The removed child was aborted. -/
theorem task_outcome_reached_aborted : removedTracker.tracker.phase = .finished false ∧
    removedTracker.tracker.state.outcome =
      some (Tracker.lastOutcome "a" (latestExit (word (run (start (oneChild .dynamic) rootBinding) joinedRemoval).rt.log "a" 0))) ∧
    latestExit (word (run (start (oneChild .dynamic) rootBinding) joinedRemoval).rt.log "a" 0) = some ⟨.aborted false, true⟩ := by
  have hphase : removedTracker.tracker.phase = .finished false := by decide +kernel
  have hstaged : .removed ∈
      word ((run (start (oneChild .dynamic) rootBinding) joinedRemoval).rt.log.take removedTracker.feed.staged) "a" 0 := by decide +kernel
  have hempty : removedTracker.feed.watch.direct = [] := by decide +kernel
  have hrest : removedTracker.AtRest := ⟨hempty, by rw [hphase]; decide, by rw [hphase]; decide⟩
  obtain ⟨ended, hended, hall⟩ := task_outcome_reached (oneChild .dynamic) rootBinding joinedRemoval "a" 0 0 0 0 .fresh
    (lateTracker 9 4 7) hstaged hrest
  have hfalse : ended = false := by
    have := hended.symm.trans hphase
    cases this
    rfl
  exact ⟨hphase, hall hfalse, by decide +kernel⟩

end Kokage.Supervisor
