/-
  Kokage.Supervisor.Reporting — what waiting for a task's start reports
  (`runtime.rs`: `TaskRef::wait_started`).

  The waiter looks at the state of the task's tracker whenever it changes. A snapshot shows
  whether the present incarnation has reported readiness, and goes on to show it after the
  incarnation has ended.

  Proved of every run of a scope, every interleaving and every overflow of the queue:
    `wait_started_sound`   — readiness is reported only of a task that was announced as started
                             by then, and a missed deadline only of one that exited by it.
    `wait_started_reached` — a task that is up and ready is reported as started, when its
                             tracker has nothing left to act on.

  A start that is followed by a new incarnation before the tracker looks is not reported.
-/

import Kokage.Supervisor.Tracking
import Kokage.Supervisor.Awaiting

namespace Kokage.Supervisor

open Kokage.Lib Kokage.Lifecycle Ledger SupervisorRuntime

/-- What `wait_started` returns in a state, unless it waits on. -/
def TaskTrackingState.waitStarted (state : TaskTrackingState) (id : String) : Option (Except TaskError Unit) :=
  if state.started then some (.ok ())
  else
    match state.outcome with
    | some (.ok ⟨.readinessTimedOut timeout, _⟩) => some (.error (.readinessTimedOut id timeout))
    | some (.ok _) => some (.error (.stoppedBeforeReady id))
    | some (.error error) => some (.error error)
    | none => none

theorem TaskTrackingState.started_of_ok {state : TaskTrackingState} {id : String} (h : state.waitStarted id = some (.ok ())) :
    state.started = true := by
  unfold waitStarted at h
  cases hs : state.started with
  | true => rfl
  | false =>
    rw [hs] at h
    simp only [Bool.false_eq_true, if_false] at h
    split at h <;> cases h

theorem TaskTrackingState.outcome_of_timedOut {state : TaskTrackingState} {id id' : String} {timeout : Duration}
    (h : state.waitStarted id = some (.error (.readinessTimedOut id' timeout))) :
    (∃ cancelled, state.outcome = some (.ok ⟨.readinessTimedOut timeout, cancelled⟩)) ∨
      state.outcome = some (.error (.readinessTimedOut id' timeout)) := by
  unfold waitStarted at h
  split at h
  · cases h
  · split at h
    · rename_i t cancelled ho
      cases h
      exact .inl ⟨cancelled, ho⟩
    · cases h
    · rename_i error ho
      cases h
      exact .inr ho
    · cases h

/-! ## What the events say of readiness -/

namespace Ledger

variable {static : List (String × Nat)} {L L' : Ledger} {l : Label}

/-- Whoever has reported readiness was announced as started, and so was whoever is shown to
    have; one whose latest turn is a start is shown so. -/
structure ReadyTold (L : Ledger) : Prop where
  members : ∀ k m, L.members.get k = some m → m.hasReportedReady = true → ∃ g, .started g ∈ word L.log m.id m.lineage
  unready : ∀ k m, L.members.get k = some m → m.state = .starting → m.hasReportedReady = false
  shown : ∀ s ∈ L.published, ∀ c ∈ s.children,
    (c.state.isStarted = true → ∃ g, .started g ∈ word (upTo L.log s.lifecycleSeq) c.id c.lineage) ∧
      ∀ g, latestTurn (word (upTo L.log s.lifecycleSeq) c.id c.lineage) = some (.started g) → c.state.isStarted = true

theorem started_of_latestTurn {w : List ChildEventKind} {g : Nat} (h : latestTurn w = some (.started g)) : .started g ∈ w := by
  unfold latestTurn at h
  exact List.mem_reverse.mp (List.mem_of_find?_eq_some h)

/-- Only one that has reported readiness is shown as started. -/
theorem ready_of_view {m : Member} {w : List ChildEventKind} (h : m.Fits w) (hv : m.view.isStarted = true) :
    m.hasReportedReady = true := by
  unfold Member.view at hv
  cases hs : m.state with
  | startQueued | starting =>
    rw [hs] at hv
    cases hv
  | running => exact h.running hs
  | stopping =>
    rw [hs] at hv
    exact hv
  | stopped =>
    rw [hs] at hv
    simp only at hv
    split at hv
    · split at hv <;> cases hv
    · exact hv

theorem view_of_started {m : Member} {w : List ChildEventKind} {g : Nat} (h : m.Fits w) (hu : m.state = .starting → m.hasReportedReady = false)
    (hw : latestTurn w = some (.started g)) : m.view.isStarted = true := by
  have hturned := h.turned
  unfold Member.Turned at hturned
  split at hturned
  · rename_i hready
    obtain ⟨hact, hr⟩ := Bool.and_eq_true_iff.mp hready
    unfold Member.view
    unfold Member.isActive at hact
    cases hs : m.state with
    | starting =>
      rw [hu hs] at hr
      cases hr
    | running => rfl
    | stopping => exact hr
    | startQueued | stopped =>
      rw [hs] at hact
      cases hact
  · obtain ⟨g', x, hx⟩ := hturned _ hw
    cases hx

theorem step_word {id : String} {lineage : Nat} {k : ChildEventKind} (hs : Step l L L') (h : k ∈ word L.log id lineage) :
    k ∈ word L'.log id lineage := by
  rcases step_log hs with ⟨hlog, -, -⟩ | ⟨s, -, -, rfl⟩ | ⟨e, -, hlog, -, -⟩
  · rw [hlog]
    exact h
  · exact h
  · rw [hlog, word_append_log]
    exact List.mem_append_left _ h

/-- An active member agrees with its latest turn; of an idle one it was true before. -/
theorem step_announced (hs : Step l L L') (hb : L.Books) (hmatch : L'.Matches static) (h : L.ReadyTold) {k : ChildKey} {m' : Member}
    (hm' : L'.members.get k = some m') (hr : m'.hasReportedReady = true) : ∃ g, .started g ∈ word L'.log m'.id m'.lineage := by
  by_cases hact : m'.isActive = true
  · have hturned := (hmatch.fits k m' hm').turned
    unfold Member.Turned at hturned
    rw [hact, hr] at hturned
    exact ⟨_, started_of_latestTurn hturned⟩
  · rcases step_change hs hb hm' with ⟨m, hm, hc⟩ | hf
    · have hold : m.hasReportedReady = true → ∃ g, .started g ∈ word L'.log m.id m.lineage := by
        intro hready
        obtain ⟨g, hg⟩ := h.members k m hm hready
        exact ⟨g, step_word hs hg⟩
      cases hc with
      | spawned =>
        refine absurd ?_ hact
        unfold Member.spawn Member.isActive
        simp only
        split <;> rfl
      | ready => exact absurd rfl hact
      | queued => cases hr
      | same | exited | stopped | removing | flagged => exact hold hr
    · rw [hf.hasReportedReady_eq] at hr
      cases hr

theorem step_unready (hs : Step l L L') (hb : L.Books) (h : L.ReadyTold) {k : ChildKey} {m' : Member}
    (hm' : L'.members.get k = some m') (hst : m'.state = .starting) : m'.hasReportedReady = false := by
  rcases step_change hs hb hm' with ⟨m, hm, hc⟩ | hf
  · have hold := h.unready k m hm
    cases hc with
    | same | flagged => exact hold hst
    | spawned =>
      have hst : (if m.definition.readiness = .immediate then RuntimeChildState.running else .starting) = .starting := hst
      split at hst
      · cases hst
      · rename_i hi
        exact decide_eq_false hi
    | removing =>
      have hst : (if m.state.isActive = true then RuntimeChildState.stopping else m.state) = .starting := hst
      split at hst
      · cases hst
      · exact hold hst
    | ready | exited | stopped | queued => cases hst
  · exact hf.hasReportedReady_eq

theorem step_readyTold (hs : Step l L L') (hb : L.Books) (hrec : L.Recorded static) (h : L.ReadyTold) : L'.ReadyTold := by
  have hmembers := fun k m' (hm' : L'.members.get k = some m') => step_announced hs hb (step_matches hs hb hrec.agreed) h hm'
  refine ⟨hmembers, fun k m' hm' => step_unready hs hb h hm', ?_⟩
  rcases step_log hs with ⟨hlog, -, hpub⟩ | ⟨s, hseq, hrows, rfl⟩ | ⟨e, he, hlog, -, hpub⟩
  · rw [hlog, hpub]
    exact h.shown
  · intro s' hs' c hc
    rcases List.mem_append.mp hs' with hs' | hs'
    · exact h.shown s' hs' c hc
    · rw [List.mem_singleton.mp hs'] at hc ⊢
      obtain ⟨k, m, hm, hid, hl, hview⟩ := shown_member hrows hc
      have hfits := hrec.agreed.fits k m hm
      show (c.state.isStarted = true → ∃ g, .started g ∈ word (upTo L.log s.lifecycleSeq) c.id c.lineage) ∧
        ∀ g, latestTurn (word (upTo L.log s.lifecycleSeq) c.id c.lineage) = some (.started g) → c.state.isStarted = true
      rw [hseq, upTo_all hrec.seq_le, ← hid, ← hl, ← hview]
      exact ⟨fun hv => h.members k m hm (ready_of_view hfits hv), fun g hw => view_of_started hfits (h.unready k m hm) hw⟩
  · rw [hlog, hpub]
    intro s hs' c hc
    have hle := (hrec.shown s hs').1
    rw [upTo_append (by omega)]
    exact h.shown s hs' c hc

end Ledger

theorem run_readyTold (c : SupervisorConfig) (b : Binding) (inputs : List Input) : (run (start c b) inputs).rt.ledger.ReadyTold := by
  have h : (run (start c b) inputs).rt.ledger.Recorded (c.static b) ∧ (run (start c b) inputs).rt.ledger.ReadyTold := by
    refine run_keeps_all (I := fun L => L.Recorded (c.static b) ∧ L.ReadyTold) c b (fun hblank => ⟨blank_recorded c b, ?_, ?_, ?_⟩)
      (fun hs hb h => ⟨step_recorded hs hb h.1, step_readyTold hs hb h.1 h.2⟩) inputs
    · intro k m hm hr
      rw [(hblank.fresh k m hm).hasReportedReady_eq] at hr
      cases hr
    · intro k m hm _
      exact (hblank.fresh k m hm).hasReportedReady_eq
    · rw [hblank.published_eq]
      intro s hs
      cases hs
  exact h.2

/-! ## What the tracker knows of it -/

theorem Tracker.take_keeps (t : Tracker) (i : Item LifecycleEvent) :
    (t.take i).id = t.id ∧ (t.take i).lineage = t.lineage ∧ (t.take i).state.started = t.state.started := by
  unfold take
  split
  · exact ⟨rfl, rfl, rfl⟩
  · exact ⟨rfl, rfl, rfl⟩
  · split
    · split <;> exact ⟨rfl, rfl, rfl⟩
    · exact ⟨rfl, rfl, rfl⟩

namespace Tracking

variable {H : History} {id : String} {lineage : Nat} {s : Tracking}

/-- What the tracker takes for started was shown as started. -/
structure Knows (H : History) (id : String) (lineage : Nat) (s : Tracking) : Prop where
  id_eq : s.tracker.id = id
  lineage_eq : s.tracker.lineage = lineage
  shown : s.tracker.state.started = true →
    ∃ snapshot ∈ H.published.take s.feed.shown, ∃ child ∈ snapshot.children,
      child.id = id ∧ child.lineage = lineage ∧ child.state.isStarted = true

theorem Knows.read (h : s.Knows H id lineage) : Knows H id lineage { s with tracker := s.tracker.read (s.feed.latest H) } := by
  unfold Tracker.read
  rw [h.id_eq, h.lineage_eq]
  cases hsn : (s.feed.latest H).bind (taskStateFromSnapshot · id lineage) with
  | none => exact ⟨rfl, rfl, h.shown⟩
  | some state =>
    obtain ⟨snapshot, hlatest, hstate⟩ := Option.bind_eq_some_iff.mp hsn
    obtain ⟨child, hchild, rfl⟩ := Option.map_eq_some_iff.mp hstate
    have hmine := List.find?_some hchild
    simp only [Bool.and_eq_true, decide_eq_true_eq] at hmine
    exact ⟨rfl, rfl, fun hs => ⟨snapshot, taken_of_latest hlatest, child, List.mem_of_find?_eq_some hchild, hmine.1, hmine.2, hs⟩⟩

theorem Knows.turn (h : s.Knows H id lineage) : (s.turn H).Knows H id lineage := by
  unfold Tracking.turn
  cases s.tracker.phase with
  | initial => exact h.read
  | reading => exact h.read
  | popping =>
    simp only
    split
    · rename_i i rest _
      obtain ⟨hid, hl, hstarted⟩ := s.tracker.take_keeps i
      refine ⟨hid.trans h.id_eq, hl.trans h.lineage_eq, fun hs => ?_⟩
      exact h.shown (hstarted.symm.trans hs)
    · exact ⟨h.id_eq, h.lineage_eq, h.shown⟩
  | checking =>
    simp only
    split
    · exact ⟨h.id_eq, h.lineage_eq, h.shown⟩
    · exact ⟨h.id_eq, h.lineage_eq, h.shown⟩
  | finished ended => exact h

theorem Knows.step (h : s.Knows H id lineage) (a : TrackAction) : (s.step H a).Knows H id lineage := by
  cases a with
  | feed a =>
    refine ⟨h.id_eq, h.lineage_eq, fun hs => ?_⟩
    obtain ⟨snapshot, hin, hc⟩ := h.shown hs
    exact ⟨snapshot, step_shown_mem a hin, hc⟩
  | turn => exact h.turn

theorem Knows.run (h : s.Knows H id lineage) (actions : List TrackAction) : (s.run H actions).Knows H id lineage := by
  induction actions generalizing s with
  | nil => exact h
  | cons a actions ih => exact ih (h.step a)

theorem new_knows {shown n₀ n₁ : Nat} : (new H id lineage shown n₀ n₁).Knows H id lineage where
  id_eq := rfl
  lineage_eq := rfl
  shown hs := by cases hs

end Tracking

/-! ## No report is missed -/

/-- A tracker that pops nothing but events of its task does not go on popping without a look. -/
theorem Tracker.take_looks {t : Tracker} {i : Item LifecycleEvent}
    (hown : ∀ e, i = .event e → (DirectChildFilter.exact t.id t.lineage).accepts e = true) :
    (t.take i).phase ≠ .popping ∧ (t.take i).phase ≠ .checking := by
  cases i with
  | lagged n => exact ⟨(fun hp => by cases hp), fun hp => by cases hp⟩
  | event e =>
    have ha := hown e rfl
    obtain ⟨path, kind⟩ := e
    cases kind with
    | supervisor kind => simp [DirectChildFilter.accepts, LifecycleEventKind.childIdentity] at ha
    | child event =>
      unfold take
      simp only
      rw [if_pos (mine_of_accepts ha)]
      cases event.kind <;> exact ⟨(fun hp => by cases hp), fun hp => by cases hp⟩

namespace Tracking

variable {static : List (String × Nat)} {H : History} {id : String} {lineage : Nat} {s : Tracking}

/-- When `n` events were staged a snapshot was read, if there was one; nothing was popped since. -/
structure Looked (H : History) (id : String) (lineage : Nat) (s : Tracking) (n : Nat) : Prop where
  staged : n ≤ s.feed.staged
  covered : ∃ front, front <+: Feed.told (H.log.take n) id lineage ∧ Covers front s.feed.watch.received
  seen : (∃ r ∈ H.published.take s.feed.shown, (∀ e ∈ H.log.take n, e.seq ≤ r.lifecycleSeq) ∧
    ∀ child, taskSnapshot r id lineage = some child → s.tracker.state.started = child.state.isStarted) ∨ H.log.take n = []

/-- A tracker that waits has looked. -/
def Waits (H : History) (id : String) (lineage : Nat) (s : Tracking) : Prop :=
  s.tracker.phase = .popping ∨ s.tracker.phase = .checking → ∃ n, s.Looked H id lineage n

theorem Waits.read (hH : Faithful static H) (h : s.Inv H id lineage) :
    Waits H id lineage { s with tracker := s.tracker.read (s.feed.latest H) } := by
  intro _
  obtain ⟨es, hfollows, hes⟩ := h.tells
  have hcovers := hfollows.covers
  rw [hes] at hcovers
  obtain ⟨front, back, htold, hfront, -⟩ := hcovers.split
  refine ⟨s.feed.staged, Nat.le_refl _, ⟨front, htold ▸ List.prefix_append .., hfront⟩, ?_⟩
  cases hr : s.feed.latest H with
  | none =>
    refine .inr (List.eq_nil_iff_forall_not_mem.mpr fun e he => ?_)
    obtain ⟨r, hin, -⟩ := h.aligned e he
    rw [List.getLast?_eq_none_iff.mp hr] at hin
    cases hin
  | some r =>
    refine .inl ⟨r, taken_of_latest hr, fun e he => ?_, fun child hchild => ?_⟩
    · obtain ⟨r', hin, hseq⟩ := h.aligned e he
      have := (hH.latest_newest hr hin).1
      omega
    · unfold Tracker.read
      rw [h.id_eq, h.lineage_eq]
      unfold taskStateFromSnapshot
      simp only [Option.bind_some, hchild, Option.map_some]

theorem Waits.turn (hH : Faithful static H) (h : s.Inv H id lineage) (hw : s.Waits H id lineage) : (s.turn H).Waits H id lineage := by
  unfold Tracking.turn
  cases hphase : s.tracker.phase with
  | initial => exact .read hH h
  | reading => exact .read hH h
  | popping =>
    obtain ⟨es, hfollows, -⟩ := h.tells
    simp only
    rw [queue_of_tells h.tells]
    cases hq : s.feed.watch.direct with
    | nil =>
      intro _
      obtain ⟨n, hn⟩ := hw (.inl hphase)
      exact ⟨n, hn.staged, hn.covered, hn.seen⟩
    | cons i rest =>
      have hlook := s.tracker.take_looks (i := i) fun e he => by
        rw [h.id_eq, h.lineage_eq]
        exact hfollows.own e (List.mem_append_right _ (hq ▸ he ▸ List.mem_cons_self ..))
      intro hp
      rcases hp with hp | hp
      · exact absurd hp hlook.1
      · exact absurd hp hlook.2
  | checking =>
    obtain ⟨n, hn⟩ := hw (.inr hphase)
    simp only
    split
    · intro _
      exact ⟨n, hn.staged, hn.covered, hn.seen⟩
    · intro _
      exact ⟨n, hn.staged, hn.covered, hn.seen⟩
  | finished ended => exact hw

theorem Waits.step (hH : Faithful static H) (h : s.Inv H id lineage) (hw : s.Waits H id lineage) (a : TrackAction) :
    (s.step H a).Waits H id lineage := by
  cases a with
  | feed a =>
    intro hp
    obtain ⟨n, hn⟩ := hw hp
    refine ⟨n, Nat.le_trans hn.staged (Feed.staged_le a), ?_, hn.seen.imp_left fun hseen => ?_⟩
    · show ∃ front, _ ∧ Covers front (s.feed.step H a).watch.received
      rw [step_received]
      exact hn.covered
    · obtain ⟨r, hr, hall⟩ := hseen
      exact ⟨r, step_shown_mem a hr, hall⟩
  | turn => exact hw.turn hH h

theorem Waits.run (hH : Faithful static H) (h : s.Inv H id lineage) (hw : s.Waits H id lineage) (actions : List TrackAction) :
    (s.run H actions).Waits H id lineage := by
  induction actions generalizing s with
  | nil => exact hw
  | cons a actions ih => exact ih (h.step hH.grammatical a) (hw.step hH h a)

theorem new_waits {shown n₀ n₁ : Nat} : (new H id lineage shown n₀ n₁).Waits H id lineage := by
  intro hp
  rcases hp with hp | hp <;> cases hp

/-- With an empty queue, all the events of the task were staged when it looked. -/
theorem Looked.own_eq {n : Nat} (h : s.Inv H id lineage) (hn : s.Looked H id lineage n) (hq : s.feed.watch.direct = [])
    (hall : H.log.length ≤ s.feed.staged) :
    ((H.log.take n).filter fun e => e.childId = id && e.lineage = lineage) = H.log.filter fun e => e.childId = id && e.lineage = lineage := by
  obtain ⟨es, hfollows, hes⟩ := h.tells
  have hcovers := hfollows.covers
  rw [hes, hq, List.append_nil, List.take_of_length_le hall] at hcovers
  obtain ⟨front, hprefix, hfront⟩ := hn.covered
  have hle := hprefix.length_le
  rw [hfront.length_eq hcovers] at hle
  unfold Feed.told at hle
  rw [List.length_map, List.length_map] at hle
  have hsub := (List.take_prefix n H.log).filter fun e => e.childId = id && e.lineage = lineage
  exact hsub.eq_of_length_le hle

end Tracking

/-! ## Runs -/

theorem word_upTo {log : List ChildEvent} {id : String} {lineage n : Nat}
    (h : ∀ e ∈ log.filter fun e => e.childId = id && e.lineage = lineage, e.seq ≤ n) :
    word (upTo log n) id lineage = word log id lineage := by
  unfold word upTo
  rw [List.filter_comm, List.filter_eq_self.mpr fun e he => decide_eq_true (h e he)]

theorem exited_of_latestExit {w : List ChildEventKind} {x : ExitStatus} (h : latestExit w = some x) : ∃ g, .exited g x ∈ w := by
  rw [latestExit_eq] at h
  obtain ⟨k, hk, hx⟩ := List.exists_of_findSome?_eq_some h
  cases k with
  | exited g y =>
    cases hx
    exact ⟨g, List.mem_reverse.mp hk⟩
  | _ => cases hx

/-- Readiness is reported only of a task that a snapshot shows as started by then, whose start
    was announced up to it, and a deadline is reported as missed only of a task that exited by
    missing it. -/
theorem wait_started_sound (c : SupervisorConfig) (b : Binding) (inputs : List Input) (id : String) (lineage shown n₀ n₁ : Nat)
    (h : Feed.Handed (run (start c b) inputs).rt.history id lineage shown n₀ n₁) (actions : List TrackAction) :
    let rt := (run (start c b) inputs).rt
    let t := Tracking.of rt id lineage shown n₀ n₁ actions
    (t.tracker.state.waitStarted id = some (.ok ()) →
      ∃ s ∈ rt.published.take t.feed.shown,
        (∃ child ∈ s.children, child.id = id ∧ child.lineage = lineage ∧ child.state.isStarted = true) ∧
          ∃ g, .started g ∈ word (upTo rt.log s.lifecycleSeq) id lineage) ∧
      ∀ taskId timeout, t.tracker.phase = .finished false →
        t.tracker.state.waitStarted id = some (.error (.readinessTimedOut taskId timeout)) →
          ∃ g cancelled, .exited g ⟨.readinessTimedOut timeout, cancelled⟩ ∈ word rt.log id lineage := by
  intro rt t
  have hrec := run_recorded c b inputs
  refine ⟨fun hok => ?_, fun taskId timeout hphase herror => ?_⟩
  · have hknows : t.Knows rt.history id lineage := Tracking.new_knows.run actions
    obtain ⟨s, hs, child, hc, rfl, rfl, hstarted⟩ := hknows.shown (TaskTrackingState.started_of_ok hok)
    exact ⟨s, hs, ⟨child, hc, rfl, rfl, hstarted⟩, ((run_readyTold c b inputs).shown s (List.mem_of_mem_take hs) child hc).1 hstarted⟩
  · have hinv : t.Inv rt.history id lineage := (Tracking.new_inv h).run (run_grammatical c b inputs) actions
    -- the outcome is an exit that the events tell of, or an error of its own
    have hexit : ∀ outcome, t.tracker.state.outcome = some outcome →
        (∃ x g, outcome = .ok x ∧ .exited g x ∈ word rt.log id lineage) ∨ outcome = .error (.unavailable id) := by
      intro outcome ho
      cases hinv.decided hphase with
      | @shown s state x hs hstate hx ho' =>
        rw [ho] at ho'
        cases ho'
        obtain ⟨child, hc, rfl, rfl, hv⟩ := verdict_of_outcome hstate hx
        have hag := (hrec.shown s (List.mem_of_mem_take hs)).2
        obtain ⟨g, hg⟩ := exited_of_latestExit ((hag.exit_eq child hc).symm.trans (shown_of_verdict hv).1)
        exact .inl ⟨x, g, rfl, upTo_sub hg⟩
      | removed _ ho' =>
        rw [ho] at ho'
        cases ho'
        cases hlast : latestExit (word rt.log id lineage) with
        | none => exact .inr (congrArg (Tracker.lastOutcome id) hlast)
        | some x =>
          obtain ⟨g, hg⟩ := exited_of_latestExit hlast
          exact .inl ⟨x, g, congrArg (Tracker.lastOutcome id) hlast, hg⟩
    rcases TaskTrackingState.outcome_of_timedOut herror with ⟨cancelled, ho⟩ | ho
    · rcases hexit _ ho with ⟨x, g, hx, hg⟩ | hx
      · cases hx
        exact ⟨g, cancelled, hg⟩
      · cases hx
    · rcases hexit _ ho with ⟨x, g, hx, -⟩ | hx
      · cases hx
      · cases hx

/-- The child that is not restarted was ready before it stopped. -/
theorem wait_started_sound_skipped : skippedTracker.tracker.state.waitStarted "a" = some (.ok ()) ∧
    ∃ s ∈ (run (start oneShotPair rootBinding) (firstStops ++ secondRestarts)).rt.published.take skippedTracker.feed.shown,
      (∃ child ∈ s.children, child.id = "a" ∧ child.lineage = 0 ∧ child.state.isStarted = true) ∧ ∃ g, .started g ∈
        word (upTo (run (start oneShotPair rootBinding) (firstStops ++ secondRestarts)).rt.log s.lifecycleSeq) "a" 0 := by
  have hok : skippedTracker.tracker.state.waitStarted "a" = some (.ok ()) := by decide +kernel
  exact ⟨hok, (wait_started_sound oneShotPair rootBinding (firstStops ++ secondRestarts) "a" 0 0 0 0 .fresh (lateTracker 10 5 2)).1 hok⟩

/-- A task that is up and has reported readiness is reported as started, once everything is
    staged and its tracker has acted on it; a stream that has ended may leave it out. -/
theorem wait_started_reached (c : SupervisorConfig) (b : Binding) (inputs : List Input) (id : String) (lineage shown n₀ n₁ : Nat)
    (h : Feed.Handed (run (start c b) inputs).rt.history id lineage shown n₀ n₁) (actions : List TrackAction) :
    let rt := (run (start c b) inputs).rt
    let t := Tracking.of rt id lineage shown n₀ n₁ actions
    ∀ key e, rt.children.get key = some e → e.id = id → e.lineage = lineage →
      e.runtime.state.isActive = true → e.runtime.hasReportedReady = true →
        rt.log.length ≤ t.feed.staged → t.AtRest →
          t.tracker.state.waitStarted id = some (.ok ()) ∨ t.tracker.phase = .finished true := by
  intro rt t key e he hid hl hact hready hall hrest
  have hrec := run_recorded c b inputs
  have hH := run_faithful c b inputs
  have hnew : (Tracking.new rt.history id lineage shown n₀ n₁).Inv rt.history id lineage := Tracking.new_inv h
  have hinv : t.Inv rt.history id lineage := hnew.run hH.grammatical actions
  have henrolled : Enrolled (c.static b) rt.log id lineage :=
    (hrec.agreed.has_iff id lineage).mp ⟨key, e.member, ledger_get he, hid, hl⟩
  have hturn : latestTurn (word rt.log id lineage) = some (.started e.runtime.generation) := by
    have hturned := (hrec.agreed.fits key e.member (ledger_get he)).turned
    unfold Member.Turned Member.isActive at hturned
    rw [show e.member.state.isActive = true from hact, show e.member.hasReportedReady = true from hready] at hturned
    rw [← hid, ← hl]
    exact hturned
  have hwaits : (t.tracker.phase = .popping ∨ t.tracker.phase = .checking) → t.tracker.state.waitStarted id = some (.ok ()) := by
    intro hp
    obtain ⟨n, hn⟩ := Tracking.new_waits.run hH hnew actions hp
    have hown := hn.own_eq hinv hrest.1 hall
    rcases hn.seen with ⟨r, hr, hbefore, hstarted⟩ | hnone
    · have hsame : word (upTo rt.log r.lifecycleSeq) id lineage = word rt.log id lineage := word_upTo fun e' he' =>
        hbefore e' (List.mem_filter.mp (hown.symm ▸ he')).1
      have hmem := List.mem_of_mem_take hr
      have hthere : Enrolled (c.static b) (upTo rt.log r.lifecycleSeq) id lineage := by
        unfold Enrolled
        rw [hsame]
        exact henrolled
      obtain ⟨child, hc, hcid, hcl⟩ := ((hH.agrees r hmem).member_iff id lineage).mpr hthere
      have hfound : (taskSnapshot r id lineage).isSome = true :=
        List.find?_isSome.mpr ⟨child, hc, by simp [hcid, hcl]⟩
      obtain ⟨child', hchild'⟩ := Option.isSome_iff_exists.mp hfound
      have hmine := List.find?_some hchild'
      simp only [Bool.and_eq_true, decide_eq_true_eq] at hmine
      have hstart : latestTurn (word (upTo rt.log r.lifecycleSeq) child'.id child'.lineage) = some (.started e.runtime.generation) := by
        rw [hmine.1, hmine.2, hsame]
        exact hturn
      have hshown := ((run_readyTold c b inputs).shown r hmem child' (List.mem_of_find?_eq_some hchild')).2 _ hstart
      unfold TaskTrackingState.waitStarted
      rw [show t.tracker.state.started = true from (hstarted child' hchild').trans hshown]
      rfl
    · rw [hnone] at hown
      have hempty : word rt.log id lineage = [] := congrArg (List.map ChildEvent.kind) hown.symm
      rw [hempty] at hturn
      cases hturn
  cases hphase : t.tracker.phase with
  | initial => exact absurd hphase hrest.2.1
  | reading => exact absurd hphase hrest.2.2
  | popping => exact .inl (hwaits (.inl hphase))
  | checking => exact .inl (hwaits (.inr hphase))
  | finished ended =>
    cases ended with
    | true => exact .inr rfl
    | false =>
      cases hinv.decided hphase with
      | @shown s state x hs hstate hx ho =>
        obtain ⟨child, hc, -, hcl, hv⟩ := verdict_of_outcome hstate hx
        have hstopped := (retired_of_verdict c b inputs (List.mem_of_mem_take hs) hc hv he (hl.trans hcl.symm)).1.stopped
        rw [hstopped] at hact
        cases hact
      | removed hr _ =>
        refine absurd ?_ henrolled.2
        rw [word_split rt.log t.feed.staged]
        exact List.mem_append_left _ hr

/-- The tracker of a child that was restarted. -/
def readyTracker : Tracking :=
  Tracking.of (run (start oneShotPair rootBinding) (firstStops ++ secondRestarts)).rt "b" 1 0 0 0 (lateTracker 20 10 10)

theorem wait_started_reached_restarted :
    readyTracker.tracker.state.waitStarted "b" = some (.ok ()) ∨ readyTracker.tracker.phase = .finished true := by
  have hup : ((run (start oneShotPair rootBinding) (firstStops ++ secondRestarts)).rt.children.get 2).map
      (fun e => (e.id, e.lineage, e.runtime.state.isActive, e.runtime.hasReportedReady)) = some ("b", 1, true, true) := by decide +kernel
  obtain ⟨e, he, hfacts⟩ := Option.map_eq_some_iff.mp hup
  simp only [Prod.mk.injEq] at hfacts
  obtain ⟨hid, hl, hact, hready⟩ := hfacts
  have hall : (run (start oneShotPair rootBinding) (firstStops ++ secondRestarts)).rt.log.length ≤ readyTracker.feed.staged := by
    decide +kernel
  have hempty : readyTracker.feed.watch.direct = [] := by decide +kernel
  have hphase : readyTracker.tracker.phase = .popping := by decide +kernel
  have hrest : readyTracker.AtRest := ⟨hempty, by rw [hphase]; decide, by rw [hphase]; decide⟩
  unfold readyTracker at hall hrest ⊢
  exact wait_started_reached oneShotPair rootBinding (firstStops ++ secondRestarts) "b" 1 0 0 0 .fresh (lateTracker 20 10 10)
    2 e he hid hl hact hready hall hrest

end Kokage.Supervisor
