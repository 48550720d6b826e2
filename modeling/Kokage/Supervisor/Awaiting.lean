/-
  Kokage.Supervisor.Awaiting — what a wait for finite work tells, and when it ends
  (`supervisor/completion.rs`: `CompletionOperation::wait`).

  Proved of every run of a scope, every interleaving and every overflow of the queue:
    `completion_sound`   — completion is reported of one moment since the subscription at
                           which every awaited child was done, or had been there and was gone.
    `completion_settles` — a waiter that has nothing left to read waits for a reason: some
                           awaited child is not done, or was never seen.

  A waiter that has come to rest depends on the last snapshot it read and on the events
  popped since (`Since`); none of them began a membership or ended a generation, or it
  would have read again.
-/

import Kokage.Supervisor.Completion
import Kokage.Supervisor.Succession

namespace Kokage.Supervisor

open Kokage.Lib Kokage.Lifecycle Ledger SupervisorRuntime

/-! ## What a history says of a membership -/

/-- What a run puts on record. -/
structure Faithful (static : List (String × Nat)) (H : History) : Prop where
  sorted : H.log.Pairwise fun e e' => e.seq < e'.seq
  grammatical : Grammatical H
  agrees : ∀ s ∈ H.published, Agrees static (upTo H.log s.lifecycleSeq) s
  shown : ∀ s ∈ H.published, ∀ e ∈ H.log, e.seq ≤ s.lifecycleSeq → ∀ c ∈ s.children, c.id = e.childId → e.lineage ≤ c.lineage
  single : ∀ s ∈ H.published, ∀ c ∈ s.children, ∀ c' ∈ s.children, c.id = c'.id → c.lineage = c'.lineage
  follows : H.published.Pairwise fun s s' =>
    s.lifecycleSeq ≤ s'.lifecycleSeq ∧ ∀ c ∈ s.children, ∀ c' ∈ s'.children, c.id = c'.id → c.lineage ≤ c'.lineage

theorem run_faithful (c : SupervisorConfig) (b : Binding) (inputs : List Input) :
    Faithful (c.static b) (run (start c b) inputs).rt.history := by
  have hrec := run_recorded c b inputs
  have hnew := run_newest c b inputs
  exact ⟨hrec.sorted, run_grammatical c b inputs, fun s hs => (hrec.shown s hs).2, hnew.shown, hnew.single, hrec.ordered.and hnew.follows⟩

theorem Life.head {w : List ChildEventKind} {s : Stage} (h : Life w s) : ∃ v, w = .added :: v := by
  induction h with
  | added => exact ⟨[], rfl⟩
  | started _ ih | aborted _ _ ih | exited _ _ ih | scheduled _ _ ih | removed _ _ ih =>
    obtain ⟨v, rfl⟩ := ih
    exact ⟨_, rfl⟩

/-- The events after a sequence. -/
def after (log : List ChildEvent) (n : Nat) : List ChildEvent := log.filter fun e => decide (n < e.seq)

theorem upTo_append_after {log : List ChildEvent} (h : log.Pairwise fun e e' => e.seq < e'.seq) (n : Nat) :
    log = upTo log n ++ after log n := by
  induction log with
  | nil => rfl
  | cons e log ih =>
    obtain ⟨hfirst, h⟩ := List.pairwise_cons.mp h
    have ih := ih h
    unfold upTo after at *
    by_cases hle : e.seq ≤ n
    · have hnot : ¬ n < e.seq := by omega
      simp only [List.filter_cons, hle, hnot, decide_true, decide_false, if_true, Bool.false_eq_true, if_false, List.cons_append]
      rw [← ih]
    · have hnone : log.filter (fun e => decide (e.seq ≤ n)) = [] := by
        refine List.filter_eq_nil_iff.mpr fun e' he' => ?_
        have := hfirst e' he'
        simp only [decide_eq_true_eq]
        omega
      have hlt : n < e.seq := by omega
      rw [hnone, List.nil_append] at ih
      simp only [List.filter_cons, hle, hlt, decide_true, decide_false, if_true, Bool.false_eq_true, if_false, hnone, List.nil_append]
      rw [← ih]

section Record

variable {static : List (String × Nat)} {H : History} {f : Feed} {r : SupervisorSnapshot}

/-- The first events of a membership hold its `Added`. -/
theorem Faithful.added_of_event (hH : Faithful static H) {n : Nat} {e : ChildEvent} (he : e ∈ H.log) (hle : e.seq ≤ n) :
    .added ∈ word (upTo H.log n) e.childId e.lineage := by
  have hin : e.kind ∈ word (upTo H.log n) e.childId e.lineage :=
    mem_word.mpr ⟨e, List.mem_filter.mpr ⟨he, decide_eq_true hle⟩, rfl, rfl, rfl⟩
  have hall : word H.log e.childId e.lineage =
      word (upTo H.log n) e.childId e.lineage ++ word (after H.log n) e.childId e.lineage := by
    rw [← word_append_log, ← upTo_append_after hH.sorted n]
  cases hw : word (upTo H.log n) e.childId e.lineage with
  | nil =>
    rw [hw] at hin
    cases hin
  | cons k w =>
    rw [hw] at hall
    rcases hH.grammatical e.childId e.lineage with hnil | ⟨stage, hstage⟩
    · rw [hall] at hnil
      cases hnil
    · obtain ⟨v, hv⟩ := hstage.head
      rw [hall, List.cons_append, List.cons.injEq] at hv
      rw [hv.1]
      exact List.mem_cons_self ..

/-- The latest snapshot is at least as new as any that is published. -/
theorem Faithful.latest_newest (hH : Faithful static H) (hr : f.latest H = some r) {s : SupervisorSnapshot}
    (hs : s ∈ H.published.take f.shown) :
    s.lifecycleSeq ≤ r.lifecycleSeq ∧ ∀ c ∈ s.children, ∀ c' ∈ r.children, c.id = c'.id → c.lineage ≤ c'.lineage := by
  have hlast : H.published.take f.shown = (H.published.take f.shown).dropLast ++ [r] := (List.dropLast_append_getLast? r hr).symm
  have hmem : r ∈ H.published := List.mem_of_mem_take (List.mem_of_getLast? hr)
  have hpair := hH.follows.sublist (List.take_sublist f.shown _)
  rw [hlast] at hpair hs
  rcases List.mem_append.mp hs with hs | hs
  · exact (List.pairwise_append.mp hpair).2.2 s hs r (List.mem_singleton.mpr rfl)
  · rw [List.mem_singleton.mp hs]
    exact ⟨Nat.le_refl _, fun c hc c' hc' hid => Nat.le_of_eq (hH.single r hmem c hc c' hc' hid)⟩

/-- A membership that a snapshot has shown or an event has named. -/
def Observed (H : History) (f : Feed) (id : String) (lineage : Nat) : Prop :=
  (∃ s ∈ H.published.take f.shown, ∃ child ∈ s.children, child.id = id ∧ child.lineage = lineage) ∨
    ∃ e ∈ H.log.take f.staged, e.childId = id ∧ e.lineage = lineage

theorem Observed.step {id : String} {lineage : Nat} (h : Observed H f id lineage) (a : FeedAction) :
    Observed H (f.step H a) id lineage := by
  rcases h with ⟨s, hs, hc⟩ | ⟨e, he, hmine⟩
  · exact .inl ⟨s, Tracking.step_shown_mem a hs, hc⟩
  · refine .inr ⟨e, ?_, hmine⟩
    rcases @Feed.step_cases H f a with ⟨-, -, hs, -⟩ | ⟨e', he', -, -, hs, -⟩ | ⟨-, hs, -⟩
    · rw [hs]
      exact he
    · rw [hs, Feed.take_succ_log he']
      exact List.mem_append_left _ he
    · rw [hs]
      exact he

/-- The latest snapshot shows no membership older than one observed. -/
theorem Observed.le_shown (hH : Faithful static H) (ha : f.Aligned H) (hr : f.latest H = some r) {id : String} {lineage : Nat}
    (h : Observed H f id lineage) {c : ChildSnapshot} (hc : c ∈ r.children) (hid : c.id = id) : lineage ≤ c.lineage := by
  rcases h with ⟨s, hs, c', hc', hid', rfl⟩ | ⟨e, he, hmine, rfl⟩
  · exact (hH.latest_newest hr hs).2 c' hc' c hc (hid'.trans hid.symm)
  · obtain ⟨s, hs, hseq⟩ := ha e he
    have hle := (hH.latest_newest hr hs).1
    have hmem : r ∈ H.published := List.mem_of_mem_take (List.mem_of_getLast? hr)
    exact hH.shown r hmem e (List.mem_of_mem_take he) (by omega) c hc (hid.trans hmine.symm)

/-- A membership that was observed and is not shown by the latest snapshot was removed. -/
theorem Observed.removed (hH : Faithful static H) (ha : f.Aligned H) (hr : f.latest H = some r) {id : String} {lineage : Nat}
    (h : Observed H f id lineage) (hgone : ∀ c ∈ r.children, c.id ≠ id) : .removed ∈ word (upTo H.log r.lifecycleSeq) id lineage := by
  have hmem : r ∈ H.published := List.mem_of_mem_take (List.mem_of_getLast? hr)
  have hborn : (id, lineage) ∈ static ∨ .added ∈ word (upTo H.log r.lifecycleSeq) id lineage := by
    rcases h with ⟨s, hs, c, hc, rfl, rfl⟩ | ⟨e, he, rfl, rfl⟩
    · have hagrees := hH.agrees s (List.mem_of_mem_take hs)
      have henrolled := (hagrees.member_iff c.id c.lineage).mp ⟨c, hc, rfl, rfl⟩
      exact henrolled.1.imp_right fun hadded => upTo_mono (hH.latest_newest hr hs).1 hadded
    · obtain ⟨s, hs, hseq⟩ := ha e he
      have hle := (hH.latest_newest hr hs).1
      exact .inr (hH.added_of_event (List.mem_of_mem_take he) (by omega))
  by_contra hkept
  obtain ⟨c, hc, hid, -⟩ := ((hH.agrees r hmem).member_iff id lineage).mpr ⟨hborn, hkept⟩
  exact hgone c hc hid

end Record

/-- What is known of an id is known of a membership that was observed. -/
structure Awaited.Grounded (H : History) (f : Feed) (id : String) (a : Awaited) : Prop where
  latest : ∀ l, a.latestLineage = some l → Observed H f id l
  seen : a.seen = true → a.latestLineage.isSome = true

namespace Awaited.Grounded

variable {H : History} {f : Feed} {id : String} {a : Awaited}

theorem step (h : a.Grounded H f id) (action : FeedAction) : a.Grounded H (f.step H action) id :=
  ⟨fun l hl => (h.latest l hl).step action, h.seen⟩

theorem popped (h : a.Grounded H f id) (w : Watcher) : a.Grounded H { f with watch := w } id := ⟨h.latest, h.seen⟩

theorem realign {r : SupervisorSnapshot} (h : a.Grounded H f id) (hr : f.latest H = some r) : (a.realign (r.child id)).Grounded H f id := by
  cases hc : r.child id with
  | none => exact ⟨h.latest, h.seen⟩
  | some c =>
    obtain ⟨hin, hid⟩ := r.child_some hc
    unfold Awaited.realign
    simp only
    split
    · exact h
    · refine ⟨fun l hl => ?_, fun _ => rfl⟩
      cases hl
      exact .inl ⟨r, List.mem_of_getLast? hr, c, hin, hid, rfl⟩

theorem apply {e : ChildEvent} (h : a.Grounded H f id) (he : e ∈ H.log.take f.staged) (hid : e.childId = id) (t : CompletionTransition) :
    (a.apply e.lineage t).Grounded H f id := by
  unfold Awaited.apply
  simp only
  split
  · exact h
  · refine ⟨fun l hl => ?_, fun _ => rfl⟩
    cases hl
    exact .inr ⟨e, he, hid, rfl⟩

end Awaited.Grounded

/-! ## What holds of a waiter -/

namespace CompletionOperation

theorem loop_phase (op : CompletionOperation) : op.loop.phase = .confirming ∨ op.loop.phase = .popping := by
  unfold loop
  simp only
  split
  · exact .inl rfl
  · exact .inr rfl

theorem loop_not_done {op : CompletionOperation} {result : Except CompletionError Unit} : op.loop.phase ≠ .done result := by
  intro hd
  rcases op.loop_phase with hp | hp
  · cases hp.symm.trans hd
  · cases hp.symm.trans hd

/-- The loop goes on to pop when something is still awaited. -/
theorem incomplete_of_loop {op : CompletionOperation} (h : op.loop.phase = .popping ∨ op.loop.phase = .checking) :
    op.set.isComplete = false := by
  by_contra hc
  have hcomplete : op.set.isComplete = true := by simpa using hc
  have hp : op.loop.phase = .confirming := by
    unfold loop
    simp only [hcomplete, if_true]
  rcases h with h | h
  · cases hp.symm.trans h
  · cases hp.symm.trans h

end CompletionOperation

/-- The events popped that a snapshot does not show. -/
def fresh (n : Nat) (tail : List LifecycleEvent) : List ChildEvent := after (tail.filterMap LifecycleEvent.child?) n

/-- Since `r` was read only `tail` was popped, and all that changed the set is told by it. -/
structure Since (H : History) (ids : List String) (n₀ : Nat) (es : List LifecycleEvent) (f : Feed) (op : CompletionOperation)
    (r : SupervisorSnapshot) (received : List (Item LifecycleEvent)) (tail : List LifecycleEvent) (set : CompletionSet) : Prop where
  published : r ∈ H.published.take f.shown
  received_eq : f.watch.received = received ++ tail.map .event
  before : ∃ front, front <+: es ∧ Covers front received ∧ ∀ e ∈ front.filterMap LifecycleEvent.child?, e.seq ≤ r.lifecycleSeq
  earlier : ∀ e ∈ H.log.take n₀, e.seq ≤ r.lifecycleSeq
  awaited : set.awaited = ids
  passes : ∀ id c, r.child id = some c → ∀ l, (set.entry id).latestLineage = some l → l ≤ c.lineage
  baseline_eq : op.baseline = r.lifecycleSeq
  set_eq : op.set = (fresh r.lifecycleSeq tail).foldl CompletionSet.apply (set.realign r)
  incomplete : op.set.isComplete = false
  calm : ∀ e ∈ fresh r.lifecycleSeq tail, CompletionOperation.needsRealign e.kind = false

theorem Since.inPhase {H : History} {ids : List String} {n₀ : Nat} {es : List LifecycleEvent} {f : Feed} {op : CompletionOperation}
    {r : SupervisorSnapshot} {received : List (Item LifecycleEvent)} {tail : List LifecycleEvent} {set : CompletionSet}
    (h : Since H ids n₀ es f op r received tail set) (phase : CompletionPhase) :
    Since H ids n₀ es f { op with phase := phase } r received tail set :=
  ⟨h.published, h.received_eq, h.before, h.earlier, h.awaited, h.passes, h.baseline_eq, h.set_eq, h.incomplete, h.calm⟩

/-- There was a moment after the first `m₀` snapshots at which every awaited child was done, or
    had been there and was gone. -/
def Confirmed (H : History) (ids : List String) (m₀ : Nat) (f : Feed) : Prop :=
  ∃ n r, m₀ ≤ n ∧ n ≤ f.shown ∧ (H.published.take n).getLast? = some r ∧ ∀ id ∈ ids,
    (∃ child ∈ r.children, child.id = id ∧ isCompleted child = true) ∨
      ((∀ child ∈ r.children, child.id ≠ id) ∧ ∃ lineage, .removed ∈ word (upTo H.log r.lifecycleSeq) id lineage)

namespace CompletionWait

variable {static : List (String × Nat)} {H : History} {ids : List String} {m₀ n₀ : Nat} {es : List LifecycleEvent} {s : CompletionWait}

structure Inv (H : History) (ids : List String) (m₀ n₀ : Nat) (es : List LifecycleEvent) (s : CompletionWait) : Prop where
  later : m₀ ≤ s.feed.shown
  awaited : s.op.set.awaited = ids
  early : n₀ ≤ s.feed.staged
  aligned : s.feed.Aligned H
  tells : s.feed.TellsAll H n₀ es
  grounded : ∀ id, (s.op.set.entry id).Grounded H s.feed id
  confirmed : s.op.phase = .done (.ok ()) → Confirmed H ids m₀ s.feed
  waiting : s.op.phase = .popping ∨ s.op.phase = .checking →
    ∃ r received tail set, Since H ids n₀ es s.feed s.op r received tail set

theorem new_inv {kind : ScopeKind} {allowFutureMembers : Bool} {shown : Nat} (h : (Feed.subscribed shown n₀).Aligned H) :
    (new kind ids allowFutureMembers shown n₀).Inv H ids shown n₀ [] := by
  have hphase : (new kind ids allowFutureMembers shown n₀).op.phase = .initial ∨
      (new kind ids allowFutureMembers shown n₀).op.phase = .done (.error .notDynamic) := by
    unfold new
    simp only
    split
    · exact .inr rfl
    · exact .inl rfl
  have hgrounded : ∀ id, (({} : Awaited)).Grounded H (Feed.subscribed shown n₀) id := fun id =>
    ⟨(fun l hl => by cases hl), fun hs => by cases hs⟩
  refine ⟨Nat.le_refl _, rfl, Nat.le_refl _, h, Feed.subscribed_tells, hgrounded, fun hp => ?_, fun hp => ?_⟩
  · rcases hphase with h | h <;> rw [h] at hp <;> cases hp
  · rcases hphase with h | h <;> rw [h] at hp <;> rcases hp with hp | hp <;> cases hp

theorem Inv.feed (h : s.Inv H ids m₀ n₀ es) (a : FeedAction) : ∃ more, (s.step H (.feed a)).Inv H ids m₀ n₀ (es ++ more) := by
  obtain ⟨more, htells⟩ := h.tells.step a
  have hmono : ∀ {r}, r ∈ H.published.take s.feed.shown → r ∈ H.published.take (s.feed.step H a).shown := Tracking.step_shown_mem a
  refine ⟨more, Nat.le_trans h.later (Feed.shown_le a), h.awaited, ?_, h.aligned.step a, htells,
    fun id => (h.grounded id).step a, fun hp => ?_, fun hp => ?_⟩
  · exact Nat.le_trans h.early (Feed.staged_le a)
  · obtain ⟨n, r, hfrom, hto, hall⟩ := h.confirmed hp
    exact ⟨n, r, hfrom, Nat.le_trans hto (Feed.shown_le a), hall⟩
  · obtain ⟨r, received, tail, set, hs⟩ := h.waiting hp
    obtain ⟨front, hfront, hcover, hseq⟩ := hs.before
    refine ⟨r, received, tail, set, { hs with published := hmono hs.published, received_eq := ?_, before := ?_ }⟩
    · exact (Tracking.step_received a).trans hs.received_eq
    · exact ⟨front, hfront.trans (List.prefix_append ..), hcover, hseq⟩

/-- An event that is queued was staged. -/
theorem staged_of_queued (h : s.Inv H ids m₀ n₀ es) {e : ChildEvent} (he : .event (direct e) ∈ s.feed.watch.direct) :
    e ∈ H.log.take s.feed.staged := by
  have hes : direct e ∈ es := h.tells.follows.covers.sublist.subset
    (List.mem_filterMap.mpr ⟨_, List.mem_append_right _ he, rfl⟩)
  rw [h.tells.staged]
  exact List.mem_append_right _ (List.mem_filterMap.mpr ⟨_, hes, rfl⟩)

/-- All that was staged is in the latest snapshot. -/
theorem Inv.staged_le_latest (hH : Faithful static H) (h : s.Inv H ids m₀ n₀ es) {r : SupervisorSnapshot} (hr : s.feed.latest H = some r) :
    ∀ e ∈ H.log.take s.feed.staged, e.seq ≤ r.lifecycleSeq := by
  intro e he
  obtain ⟨s', hs', hseq⟩ := h.aligned e he
  have := (hH.latest_newest hr hs').1
  omega

/-- A set that was realigned is that of a waiter which has just read the latest snapshot. -/
theorem Inv.since_read (hH : Faithful static H) (h : s.Inv H ids m₀ n₀ es) {r : SupervisorSnapshot} (hr : s.feed.latest H = some r)
    {op : CompletionOperation} (hset : op.set = s.op.set.realign r) (hbase : op.baseline = r.lifecycleSeq)
    (hinc : op.set.isComplete = false) : Since H ids n₀ es s.feed op r s.feed.watch.received [] s.op.set where
  published := List.mem_of_getLast? hr
  received_eq := (List.append_nil _).symm
  before := by
    obtain ⟨front, back, hes, hcover, -⟩ := h.tells.follows.covers.split
    refine ⟨front, hes ▸ List.prefix_append .., hcover, fun e he => ?_⟩
    refine h.staged_le_latest hH hr e ?_
    rw [h.tells.staged, hes, List.filterMap_append]
    exact List.mem_append_right _ (List.mem_append_left _ he)
  earlier := by
    intro e he
    refine h.staged_le_latest hH hr e ?_
    rw [h.tells.staged]
    exact List.mem_append_left _ he
  awaited := h.awaited
  passes := by
    intro id c hc l hl
    obtain ⟨hin, hid⟩ := r.child_some hc
    exact ((h.grounded id).latest l hl).le_shown hH h.aligned hr hin hid
  baseline_eq := hbase
  set_eq := hset
  incomplete := hinc
  calm := by
    intro e he
    cases he

/-- What a complete set says, when it has just been realigned. -/
theorem Inv.confirms (hH : Faithful static H) (h : s.Inv H ids m₀ n₀ es) {r : SupervisorSnapshot} (hr : s.feed.latest H = some r)
    (hc : (s.op.set.realign r).isComplete = true) : Confirmed H ids m₀ s.feed := by
  refine ⟨s.feed.shown, r, h.later, Nat.le_refl _, hr, fun id hid => ?_⟩
  have hsat : ((s.op.set.realign r).entry id).satisfied = true := by
    unfold CompletionSet.isComplete at hc
    rw [CompletionSet.realign_awaited, h.awaited] at hc
    exact List.all_eq_true.mp hc id hid
  rw [CompletionSet.realign_entry r (h.awaited ▸ hid)] at hsat
  cases hchild : r.child id with
  | some c =>
    obtain ⟨hin, hcid⟩ := r.child_some hchild
    rw [hchild, Awaited.realign_some fun l hl => ((h.grounded id).latest l hl).le_shown hH h.aligned hr hin hcid] at hsat
    exact .inl ⟨c, hin, hcid, hsat⟩
  | none =>
    rw [hchild] at hsat
    have hseen : (s.op.set.entry id).seen = true := hsat
    obtain ⟨l, hl⟩ := Option.isSome_iff_exists.mp ((h.grounded id).seen hseen)
    have hgone := r.child_none hchild
    exact .inr ⟨hgone, l, ((h.grounded id).latest l hl).removed hH h.aligned hr hgone⟩

theorem grounded_realign {r : SupervisorSnapshot} (h : s.Inv H ids m₀ n₀ es) (hr : s.feed.latest H = some r) (id : String) :
    ((s.op.set.realign r).entry id).Grounded H s.feed id := by
  rcases s.op.set.realign_entry_cases r id with hsame | hread
  · rw [hsame]
    exact h.grounded id
  · rw [hread]
    exact (h.grounded id).realign hr

/-- Reading the latest snapshot. -/
theorem Inv.read (hH : Faithful static H) (h : s.Inv H ids m₀ n₀ es) {r : SupervisorSnapshot} (hr : s.feed.latest H = some r)
    (hphase : s.op.phase ≠ .popping ∧ s.op.phase ≠ .checking ∧ ∀ result, s.op.phase ≠ .done result) :
    Inv H ids m₀ n₀ es { s with op := s.op.read r } := by
  -- a phase after the read, with the set realigned
  have hgo : ∀ phase, (phase = .done (.ok ()) → (s.op.set.realign r).isComplete = true) →
      (phase = .popping ∨ phase = .checking → (s.op.set.realign r).isComplete = false) →
      Inv H ids m₀ n₀ es { s with op := { s.op.realign r with phase := phase } } := by
    intro phase hdone hwait
    refine ⟨h.later, ?_, h.early, h.aligned, h.tells, grounded_realign h hr, fun hp => ?_, fun hp => ?_⟩
    · exact (CompletionSet.realign_awaited r).trans h.awaited
    · show Confirmed H ids m₀ s.feed
      exact h.confirms hH hr (hdone hp)
    · exact ⟨r, _, _, _, h.since_read hH hr rfl rfl (hwait hp)⟩
  have hloop : Inv H ids m₀ n₀ es { s with op := (s.op.realign r).loop } := by
    refine hgo _ (fun hp => ?_) fun hp => ?_
    · exact absurd hp CompletionOperation.loop_not_done
    · exact CompletionOperation.incomplete_of_loop hp
  unfold CompletionOperation.read
  cases hp : s.op.phase with
  | initial =>
    simp only
    unfold CompletionOperation.initializeFrom
    split
    · refine ⟨h.later, h.awaited, h.early, h.aligned, h.tells, h.grounded, (fun hd => by cases hd), fun hw => ?_⟩
      rcases hw with hw | hw <;> cases hw
    · exact hloop
  | realigning => exact hloop
  | confirming =>
    refine hgo _ (fun hd => ?_) fun hw => ?_
    · show (s.op.realign r).set.isComplete = true
      by_contra hc
      rw [if_neg hc] at hd
      cases hd
    · show (s.op.realign r).set.isComplete = false
      by_contra hc
      rw [if_pos (by simpa using hc)] at hw
      rcases hw with hw | hw <;> cases hw
  | popping => exact absurd hp hphase.1
  | checking => exact absurd hp hphase.2.1
  | done result => exact absurd hp (hphase.2.2 result)

theorem fresh_snoc (n : Nat) (tail : List LifecycleEvent) (e : LifecycleEvent) :
    fresh n (tail ++ [e]) = fresh n tail ++ (e.child?.toList.filter fun event => decide (n < event.seq)) := by
  unfold fresh after
  rw [List.filterMap_append, List.filter_append]
  cases he : e.child? <;> simp [he]

/-- Popping an event of the queue. -/
theorem Inv.take (h : s.Inv H ids m₀ n₀ es) (hphase : s.op.phase = .popping) {i : Item LifecycleEvent} {rest : List (Item LifecycleEvent)}
    (hq : s.feed.watch.direct = i :: rest) :
    Inv H ids m₀ n₀ es { feed := { s.feed with watch := s.feed.watch.next }, op := s.op.take i } := by
  obtain ⟨-, hreceived⟩ := h.tells.follows.next_eq hq
  have htells : Feed.TellsAll H n₀ es { s.feed with watch := s.feed.watch.next } := ⟨h.tells.follows.next, h.tells.staged⟩
  obtain ⟨r, received, tail, set, hs⟩ := h.waiting (.inl hphase)
  -- nothing of an event that calls for a snapshot is relied on
  have hread : ∀ set' : CompletionSet, set'.awaited = ids → (∀ id, (set'.entry id).Grounded H s.feed id) →
      Inv H ids m₀ n₀ es { feed := { s.feed with watch := s.feed.watch.next }, op := { s.op with set := set', phase := .realigning } } := by
    intro set' hawaited hgrounded
    refine ⟨h.later, hawaited, h.early, h.aligned, htells, fun id => (hgrounded id).popped _, (fun hd => by cases hd), fun hw => ?_⟩
    rcases hw with hw | hw <;> cases hw
  -- an event that does not: it is the last of the tail
  have hloop : ∀ (e : LifecycleEvent) (set' : CompletionSet), i = .event e → set'.awaited = ids →
      (∀ id, (set'.entry id).Grounded H s.feed id) →
      set' = (fresh r.lifecycleSeq (tail ++ [e])).foldl CompletionSet.apply (set.realign r) →
      (∀ event ∈ fresh r.lifecycleSeq (tail ++ [e]), CompletionOperation.needsRealign event.kind = false) →
      Inv H ids m₀ n₀ es
        { feed := { s.feed with watch := s.feed.watch.next }, op := CompletionOperation.loop { s.op with set := set' } } := by
    intro e set' hi hawaited hgrounded hset hcalm
    refine ⟨h.later, hawaited, h.early, h.aligned, htells, fun id => (hgrounded id).popped _, fun hd => ?_, fun hw => ?_⟩
    · exact absurd hd CompletionOperation.loop_not_done
    · have hinc : set'.isComplete = false := CompletionOperation.incomplete_of_loop hw
      refine ⟨r, received, tail ++ [e], set, { hs with received_eq := ?_, set_eq := hset, incomplete := hinc, calm := hcalm }⟩
      show s.feed.watch.next.received = _
      rw [hreceived, hs.received_eq, hi, List.map_append, List.append_assoc]
      rfl
  cases i with
  | lagged n => exact hread s.op.set h.awaited h.grounded
  | event e =>
    have hmem : e ∈ es := h.tells.follows.covers.sublist.subset
      (List.mem_filterMap.mpr ⟨.event e, List.mem_append_right _ (hq ▸ List.mem_cons_self ..), rfl⟩)
    have hown := h.tells.follows.own e hmem
    obtain ⟨path, kind⟩ := e
    have hown : path = [] := hown
    subst hown
    -- an event that the snapshot shows, or of the scope itself, leaves the set as it is
    have hskip : (LifecycleEvent.child? ⟨[], kind⟩).toList.filter (fun event => decide (r.lifecycleSeq < event.seq)) = [] →
        Inv H ids m₀ n₀ es { feed := { s.feed with watch := s.feed.watch.next }, op := s.op.loop } := by
      intro hnone
      refine hloop ⟨[], kind⟩ s.op.set rfl h.awaited h.grounded ?_ ?_
      · rw [fresh_snoc, hnone, List.append_nil]
        exact hs.set_eq
      · rw [fresh_snoc, hnone, List.append_nil]
        exact hs.calm
    cases kind with
    | supervisor kind => exact hskip rfl
    | child event =>
      unfold CompletionOperation.take
      simp only
      by_cases hnew : s.op.baseline < event.seq
      · rw [if_pos hnew]
        have hin : event ∈ H.log.take s.feed.staged := staged_of_queued h (hq ▸ List.mem_cons_self ..)
        have hawaited : (s.op.set.apply event).awaited = ids := (CompletionSet.apply_awaited event).trans h.awaited
        have hgrounded : ∀ id, ((s.op.set.apply event).entry id).Grounded H s.feed id := by
          intro id
          rcases s.op.set.apply_entry event id with hsame | ⟨hid, t, -, happ⟩
          · rw [hsame]
            exact h.grounded id
          · rw [happ]
            exact (h.grounded id).apply hin hid t
        by_cases hneeds : CompletionOperation.needsRealign event.kind = true
        · rw [if_pos hneeds]
          exact hread _ hawaited hgrounded
        · rw [if_neg hneeds]
          have hfresh : fresh r.lifecycleSeq (tail ++ [⟨[], .child event⟩]) = fresh r.lifecycleSeq tail ++ [event] := by
            rw [fresh_snoc, ← hs.baseline_eq]
            simp [LifecycleEvent.child?, hnew]
          refine hloop ⟨[], .child event⟩ _ rfl hawaited hgrounded ?_ ?_
          · rw [hfresh, List.foldl_append, ← hs.set_eq]
            rfl
          · rw [hfresh]
            intro e he
            rcases List.mem_append.mp he with he | he
            · exact hs.calm e he
            · rw [List.mem_singleton.mp he]
              simpa using hneeds
      · rw [if_neg hnew]
        refine hskip ?_
        rw [← hs.baseline_eq]
        simp [LifecycleEvent.child?, hnew]

theorem turn_reads {r : SupervisorSnapshot} (hr : s.feed.latest H = some r)
    (hphase : s.op.phase = .initial ∨ s.op.phase = .realigning ∨ s.op.phase = .confirming) :
    s.turn H = { s with op := s.op.read r } := by
  unfold CompletionWait.turn
  rcases hphase with hp | hp | hp <;> simp only [hp, hr]

theorem turn_unread (hr : s.feed.latest H = none)
    (hphase : s.op.phase = .initial ∨ s.op.phase = .realigning ∨ s.op.phase = .confirming) : s.turn H = s := by
  unfold CompletionWait.turn
  rcases hphase with hp | hp | hp <;> simp only [hp, hr]

theorem turn_pops {i : Item LifecycleEvent} {rest : List (Item LifecycleEvent)} (hw : s.feed.watch.directOnly = true)
    (hp : s.op.phase = .popping) (hq : s.feed.watch.direct = i :: rest) :
    s.turn H = { feed := { s.feed with watch := s.feed.watch.next }, op := s.op.take i } := by
  unfold CompletionWait.turn Watcher.queue
  simp only [hp, hw, hq, if_true]

theorem turn_checks (hw : s.feed.watch.directOnly = true) (hp : s.op.phase = .popping) (hq : s.feed.watch.direct = []) :
    s.turn H = { s with op := { s.op with phase := .checking } } := by
  unfold CompletionWait.turn Watcher.queue
  simp only [hp, hw, hq, if_true]

theorem turn_checked (hp : s.op.phase = .checking) :
    s.turn H =
      { s with op := { s.op with phase := if s.feed.terminal then .done (.error .scopeClosed) else .popping } } := by
  unfold CompletionWait.turn
  simp only [hp]

theorem turn_done {result : Except CompletionError Unit} (hp : s.op.phase = .done result) : s.turn H = s := by
  unfold CompletionWait.turn
  simp only [hp]

theorem Inv.turn (hH : Faithful static H) (h : s.Inv H ids m₀ n₀ es) : (s.turn H).Inv H ids m₀ n₀ es := by
  have hreads : (s.op.phase = .initial ∨ s.op.phase = .realigning ∨ s.op.phase = .confirming) → (s.turn H).Inv H ids m₀ n₀ es := by
    intro hphase
    cases hr : s.feed.latest H with
    | none =>
      rw [turn_unread hr hphase]
      exact h
    | some r =>
      rw [turn_reads hr hphase]
      refine h.read hH hr ?_
      rcases hphase with hp | hp | hp <;> rw [hp] <;>
        exact ⟨(fun hc => by cases hc), (fun hc => by cases hc), fun result hc => by cases hc⟩
  cases hp : s.op.phase with
  | initial => exact hreads (.inl hp)
  | realigning => exact hreads (.inr (.inl hp))
  | confirming => exact hreads (.inr (.inr hp))
  | popping =>
    cases hq : s.feed.watch.direct with
    | cons i rest =>
      rw [turn_pops h.tells.follows.only hp hq]
      exact h.take hp hq
    | nil =>
      rw [turn_checks h.tells.follows.only hp hq]
      obtain ⟨r, received, tail, set, hs⟩ := h.waiting (.inl hp)
      exact ⟨h.later, h.awaited, h.early, h.aligned, h.tells, h.grounded, (fun hd => by cases hd),
        fun _ => ⟨r, received, tail, set, hs.inPhase _⟩⟩
  | checking =>
    rw [turn_checked hp]
    obtain ⟨r, received, tail, set, hs⟩ := h.waiting (.inr hp)
    refine ⟨h.later, h.awaited, h.early, h.aligned, h.tells, h.grounded, fun hd => ?_, fun _ => ⟨r, received, tail, set, hs.inPhase _⟩⟩
    have hd : (if s.feed.terminal then CompletionPhase.done (.error .scopeClosed) else .popping) = .done (.ok ()) := hd
    split at hd <;> cases hd
  | done result =>
    rw [turn_done hp]
    exact h

theorem Inv.run (hH : Faithful static H) (h : s.Inv H ids m₀ n₀ es) (actions : List WaitAction) :
    ∃ more, (s.run H actions).Inv H ids m₀ n₀ (es ++ more) := by
  induction actions generalizing s es with
  | nil => exact ⟨[], by rw [List.append_nil]; exact h⟩
  | cons a actions ih =>
    cases a with
    | feed a =>
      obtain ⟨more, hstep⟩ := h.feed a
      obtain ⟨more', hrun⟩ := ih hstep
      refine ⟨more ++ more', ?_⟩
      rw [← List.append_assoc]
      exact hrun
    | turn => exact ih (h.turn hH)

/-! ## At rest -/

/-- Nothing is left to read, and the stream has not ended. -/
structure AtRest (s : CompletionWait) : Prop where
  empty : s.feed.watch.direct = []
  waiting : s.op.phase = .popping ∨ s.op.phase = .checking
  going : s.feed.terminal = false

/-- A waiter at rest stays there until something happens. -/
theorem AtRest.turn (hrest : s.AtRest) (h : s.Inv H ids m₀ n₀ es) : (s.turn H).AtRest := by
  rcases hrest.waiting with hp | hp
  · rw [turn_checks h.tells.follows.only hp hrest.empty]
    exact ⟨hrest.empty, .inr rfl, hrest.going⟩
  · rw [turn_checked hp, hrest.going]
    exact ⟨hrest.empty, .inl rfl, hrest.going⟩

theorem AtRest.turns (hH : Faithful static H) (hrest : s.AtRest) (h : s.Inv H ids m₀ n₀ es) (k : Nat) :
    (s.run H (List.replicate k .turn)).AtRest := by
  induction k generalizing s with
  | zero => exact hrest
  | succ k ih => exact ih (hrest.turn h) (h.turn hH)

/-- How many turns are left, at most. -/
def left (s : CompletionWait) : Nat :=
  5 * s.feed.watch.direct.length +
    match s.op.phase with
    | .initial => 5
    | .realigning => 4
    | .confirming => 3
    | .popping => if s.feed.terminal then 2 else 0
    | .checking => 1
    | .done _ => 0

theorem turn_feed (H : History) (s : CompletionWait) :
    (s.turn H).feed.shown = s.feed.shown ∧ (s.turn H).feed.staged = s.feed.staged := by
  unfold CompletionWait.turn
  split
  · split <;> exact ⟨rfl, rfl⟩
  · split <;> exact ⟨rfl, rfl⟩
  · split <;> exact ⟨rfl, rfl⟩
  · split <;> exact ⟨rfl, rfl⟩
  · exact ⟨rfl, rfl⟩
  · exact ⟨rfl, rfl⟩

theorem take_phase (op : CompletionOperation) (i : Item LifecycleEvent) :
    (op.take i).phase = .realigning ∨ (op.take i).phase = .confirming ∨ (op.take i).phase = .popping := by
  unfold CompletionOperation.take
  split
  · exact .inl rfl
  · split
    · simp only
      split
      · exact .inl rfl
      · exact .inr (CompletionOperation.loop_phase _)
    · exact .inr (CompletionOperation.loop_phase _)
  · exact .inr (CompletionOperation.loop_phase _)

/-- A snapshot that is read brings the operation on. -/
theorem read_phase (op : CompletionOperation) (r : SupervisorSnapshot) :
    (op.phase = .initial →
      (∃ result, (op.read r).phase = .done result) ∨ (op.read r).phase = .confirming ∨ (op.read r).phase = .popping) ∧
    (op.phase = .realigning → (op.read r).phase = .confirming ∨ (op.read r).phase = .popping) ∧
    (op.phase = .confirming → (∃ result, (op.read r).phase = .done result) ∨ (op.read r).phase = .popping) := by
  refine ⟨fun hp => ?_, fun hp => ?_, fun hp => ?_⟩ <;> unfold CompletionOperation.read <;> simp only [hp]
  · unfold CompletionOperation.initializeFrom
    split
    · exact .inl ⟨_, rfl⟩
    · exact .inr (CompletionOperation.loop_phase _)
  · exact CompletionOperation.loop_phase _
  · split
    · exact .inl ⟨_, rfl⟩
    · exact .inr rfl

theorem turn_left (h : s.Inv H ids m₀ n₀ es) {r : SupervisorSnapshot} (hr : s.feed.latest H = some r)
    (hgo : ∀ result, s.op.phase ≠ .done result) (hrest : ¬ s.AtRest) :
    (∃ result, (s.turn H).op.phase = .done result) ∨ (s.turn H).left < s.left := by
  cases hp : s.op.phase with
  | initial =>
    rw [turn_reads hr (.inl hp)]
    rcases (read_phase s.op r).1 hp with hd | hn | hn
    · exact .inl hd
    · refine .inr ?_
      unfold left
      simp only [hp, hn]
      omega
    · refine .inr ?_
      unfold left
      simp only [hp, hn]
      split <;> omega
  | realigning =>
    rw [turn_reads hr (.inr (.inl hp))]
    refine .inr ?_
    rcases (read_phase s.op r).2.1 hp with hn | hn
    · unfold left
      simp only [hp, hn]
      omega
    · unfold left
      simp only [hp, hn]
      split <;> omega
  | confirming =>
    rw [turn_reads hr (.inr (.inr hp))]
    rcases (read_phase s.op r).2.2 hp with hd | hn
    · exact .inl hd
    · refine .inr ?_
      unfold left
      simp only [hp, hn]
      split <;> omega
  | popping =>
    cases hq : s.feed.watch.direct with
    | nil =>
      -- the queue is empty, so the stream has ended, and the check will find that
      rw [turn_checks h.tells.follows.only hp hq]
      have hended : s.feed.terminal = true := by
        by_contra hgoing
        exact hrest ⟨hq, .inl hp, Bool.not_eq_true _ ▸ hgoing⟩
      refine .inr ?_
      unfold left
      simp only [hp, hended, if_true]
      omega
    | cons i rest =>
      rw [turn_pops h.tells.follows.only hp hq]
      obtain ⟨hdirect, -⟩ := h.tells.follows.next_eq hq
      refine .inr ?_
      unfold left
      simp only [hp, hq, hdirect, List.length_cons]
      rcases take_phase s.op i with hn | hn | hn <;> simp only [hn] <;> grind
  | checking =>
    rw [turn_checked hp]
    by_cases ht : s.feed.terminal = true
    · exact .inl ⟨.error .scopeClosed, if_pos ht⟩
    · refine .inr ?_
      unfold left
      simp only [hp, ht]
      simp
  | done result => exact absurd hp (hgo result)

/-- With nothing new to see, a waiter is done or comes to rest. -/
theorem Inv.rests (hH : Faithful static H) (h : s.Inv H ids m₀ n₀ es) {r : SupervisorSnapshot} (hr : s.feed.latest H = some r) :
    ∃ n, (s.run H (List.replicate n .turn)).feed.staged = s.feed.staged ∧
      ((∃ result, (s.run H (List.replicate n .turn)).op.phase = .done result) ∨ (s.run H (List.replicate n .turn)).AtRest) := by
  induction hk : s.left using Nat.strong_induction_on generalizing s with
  | _ k ih =>
    by_cases hdone : ∃ result, s.op.phase = .done result
    · exact ⟨0, rfl, .inl hdone⟩
    · by_cases hrest : s.AtRest
      · exact ⟨0, rfl, .inr hrest⟩
      · obtain ⟨hshown, hstaged⟩ := turn_feed H s
        rcases turn_left h hr (not_exists.mp hdone) hrest with hd | hlt
        · exact ⟨1, hstaged, .inl hd⟩
        · have hr' : (s.turn H).feed.latest H = some r := by
            unfold Feed.latest
            rw [hshown]
            exact hr
          obtain ⟨n, hst, hend⟩ := ih _ (hk ▸ hlt) (h.turn hH) hr' rfl
          exact ⟨n + 1, hst.trans hstaged, hend⟩

end CompletionWait

/-- Why a waiter still waits for `id`: it has never seen a child of that id and there is none, or
    the child that is there is not done. -/
def Outstanding (static : List (String × Nat)) (H : History) (r : SupervisorSnapshot) (set : CompletionSet) (id : String) : Prop :=
  ((set.entry id).seen = false ∧ ∀ lineage, ¬ Enrolled static H.log id lineage) ∨
    ∃ child ∈ r.children, child.id = id ∧ Enrolled static H.log id child.lineage ∧
      (isCompleted child = false ∨
        ∃ e ∈ after H.log r.lifecycleSeq, e.childId = id ∧ e.lineage = child.lineage ∧ ∃ g, e.kind = .started g)

section Rest

variable {static : List (String × Nat)} {H : History} {r : SupervisorSnapshot} {set : CompletionSet} {id : String}

/-- Without a new membership since, an event is of a membership that the snapshot shows. -/
theorem Faithful.shown_of_after (hH : Faithful static H) (hr : r ∈ H.published)
    (hcalm : ∀ e ∈ after H.log r.lifecycleSeq, CompletionOperation.needsRealign e.kind = false) {e : ChildEvent}
    (he : e ∈ after H.log r.lifecycleSeq) : ∃ c ∈ r.children, c.id = e.childId ∧ c.lineage = e.lineage := by
  have hlog := upTo_append_after hH.sorted r.lifecycleSeq
  obtain ⟨before, later, hsplit⟩ := List.append_of_mem he
  have hat : H.log = (upTo H.log r.lifecycleSeq ++ before) ++ e :: later := by
    rw [List.append_assoc, ← hsplit]
    exact hlog
  refine ((hH.agrees r hr).member_iff e.childId e.lineage).mpr ⟨.inr ?_, fun hrem => ?_⟩
  · obtain ⟨a, ha, hid, hl, hk⟩ := mem_word.mp (hH.added_of_event (n := e.seq) (List.mem_filter.mp he).1 (Nat.le_refl _))
    refine mem_word.mpr ⟨a, ?_, hid, hl, hk⟩
    have hin : a ∈ upTo H.log r.lifecycleSeq ++ after H.log r.lifecycleSeq := hlog ▸ (List.mem_filter.mp ha).1
    rcases List.mem_append.mp hin with hin | hin
    · exact hin
    · have := hcalm a hin
      rw [hk] at this
      cases this
  · have hgone : .removed ∈ word (upTo H.log r.lifecycleSeq ++ before) e.childId e.lineage := by
      rw [word_append_log]
      exact List.mem_append_left _ hrem
    exact hH.grammatical.unremoved hat rfl rfl hgone

/-- Without a new membership since, one that is there was there. -/
theorem Faithful.shown_of_enrolled (hH : Faithful static H) (hr : r ∈ H.published)
    (hcalm : ∀ e ∈ after H.log r.lifecycleSeq, CompletionOperation.needsRealign e.kind = false) {lineage : Nat}
    (h : Enrolled static H.log id lineage) : ∃ c ∈ r.children, c.id = id ∧ c.lineage = lineage := by
  refine ((hH.agrees r hr).member_iff id lineage).mpr ⟨h.1.imp_right fun hadded => ?_, fun hrem => h.2 (upTo_sub hrem)⟩
  obtain ⟨a, ha, hid, hl, hk⟩ := mem_word.mp hadded
  refine mem_word.mpr ⟨a, ?_, hid, hl, hk⟩
  rw [upTo_append_after hH.sorted r.lifecycleSeq] at ha
  rcases List.mem_append.mp ha with ha | ha
  · exact ha
  · have := hcalm a ha
    rw [hk] at this
    cases this

/-- A child whose removal came in is satisfied. -/
theorem Faithful.unremoved_of_unsatisfied (hH : Faithful static H) (hr : r ∈ H.published) {c : ChildSnapshot} (hc : c ∈ r.children)
    (hcid : c.id = id) (hin : id ∈ set.awaited) (hl : (set.entry id).latestLineage = some c.lineage)
    (hsame : ∀ e ∈ after H.log r.lifecycleSeq, e.childId = id → e.lineage = c.lineage)
    (h : (((after H.log r.lifecycleSeq).foldl CompletionSet.apply set).entry id).satisfied = false) :
    Enrolled static H.log id c.lineage := by
  have henrolled := ((hH.agrees r hr).member_iff id c.lineage).mp ⟨c, hc, hcid, rfl⟩
  refine ⟨henrolled.1.imp_right upTo_sub, fun hrem => ?_⟩
  have hlog := upTo_append_after hH.sorted r.lifecycleSeq
  obtain ⟨e, he, hid, hlin, hk⟩ := mem_word.mp hrem
  rw [hlog] at he
  rcases List.mem_append.mp he with he | he
  · exact henrolled.2 (mem_word.mpr ⟨e, he, hid, hlin, hk⟩)
  · obtain ⟨before, later, hsplit⟩ := List.append_of_mem he
    have hnone : ∀ e' ∈ later, e'.childId ≠ id := by
      intro e' he' hid'
      obtain ⟨u, v, huv⟩ := List.append_of_mem he'
      have hat : H.log = (upTo H.log r.lifecycleSeq ++ before ++ e :: u) ++ e' :: v := by
        rw [List.append_assoc, List.append_assoc, List.cons_append, ← huv, ← hsplit]
        exact hlog
      have hlin' : e'.lineage = c.lineage :=
        hsame e' (hsplit ▸ List.mem_append_right _ (List.mem_cons_of_mem _ he')) hid'
      refine hH.grammatical.unremoved hat hid' hlin' (mem_word.mpr ⟨e, ?_, hid, hlin, hk⟩)
      exact List.mem_append_right _ (List.mem_cons_self ..)
    rw [hsplit] at h hsame
    rw [CompletionSet.applies_removed hin hl hsame hid hk hnone] at h
    cases h

theorem outstanding_of_unsatisfied (hH : Faithful static H) (hr : r ∈ H.published)
    (hcalm : ∀ e ∈ after H.log r.lifecycleSeq, CompletionOperation.needsRealign e.kind = false)
    (hpasses : ∀ c, r.child id = some c → ∀ l, (set.entry id).latestLineage = some l → l ≤ c.lineage) (hin : id ∈ set.awaited)
    (h : (((after H.log r.lifecycleSeq).foldl CompletionSet.apply (set.realign r)).entry id).satisfied = false) :
    Outstanding static H r ((after H.log r.lifecycleSeq).foldl CompletionSet.apply (set.realign r)) id := by
  have hread := CompletionSet.realign_entry r hin
  cases hchild : r.child id with
  | none =>
    have hgone := r.child_none hchild
    have hquiet : ∀ e ∈ after H.log r.lifecycleSeq, e.childId ≠ id := by
      intro e he hid
      obtain ⟨c, hc, hcid, -⟩ := hH.shown_of_after hr hcalm he
      exact hgone c hc (hcid.trans hid)
    refine .inl ⟨?_, fun lineage henrolled => ?_⟩
    · rw [CompletionSet.applies_other hquiet, hread, hchild] at h ⊢
      exact h
    · obtain ⟨c, hc, hcid, -⟩ := hH.shown_of_enrolled hr hcalm henrolled
      exact hgone c hc hcid
  | some c =>
    obtain ⟨hc, hcid⟩ := r.child_some hchild
    rw [hchild, Awaited.realign_some (hpasses c hchild)] at hread
    have hin' : id ∈ (set.realign r).awaited := by
      rw [CompletionSet.realign_awaited]
      exact hin
    have hl : ((set.realign r).entry id).latestLineage = some c.lineage := by rw [hread]
    have hsame : ∀ e ∈ after H.log r.lifecycleSeq, e.childId = id → e.lineage = c.lineage := by
      intro e he hid
      obtain ⟨c', hc', hcid', hl'⟩ := hH.shown_of_after hr hcalm he
      rw [← hl']
      exact hH.single r hr c' hc' c hc (hcid'.trans (hid.trans hcid.symm))
    refine .inr ⟨c, hc, hcid, hH.unremoved_of_unsatisfied hr hc hcid hin' hl hsame h, ?_⟩
    rcases CompletionSet.applies_unsatisfied hin' hl hsame hcalm h with hnot | ⟨e, he, hid, hstart⟩
    · rw [hread] at hnot
      exact .inl hnot
    · exact .inr ⟨e, he, hid, hsame e he hid, hstart⟩

end Rest

namespace CompletionWait

variable {static : List (String × Nat)} {H : History} {ids : List String} {m₀ n₀ : Nat} {es : List LifecycleEvent} {s : CompletionWait}

/-- All that came after the snapshot a waiter at rest has read was popped one by one. -/
theorem after_eq_fresh (h : s.Inv H ids m₀ n₀ es) (hq : s.feed.watch.direct = []) (hall : H.log.length ≤ s.feed.staged)
    {r : SupervisorSnapshot} {received : List (Item LifecycleEvent)} {tail : List LifecycleEvent} {set : CompletionSet}
    (hs : Since H ids n₀ es s.feed s.op r received tail set) : after H.log r.lifecycleSeq = fresh r.lifecycleSeq tail := by
  have hcovers := h.tells.follows.covers
  rw [hq, List.append_nil, hs.received_eq] at hcovers
  obtain ⟨front, back, hes, hfront, hback⟩ := hcovers.split
  rw [hback.eq_events] at hes
  obtain ⟨front', hprefix, hcover, hold⟩ := hs.before
  have hsame : front' = front := by
    have hlen := hcover.length_eq hfront
    have hle : front' <+: front := List.prefix_of_prefix_length_le hprefix (hes ▸ List.prefix_append ..) (Nat.le_of_eq hlen)
    exact hle.eq_of_length hlen
  rw [hsame] at hold
  have hlog : H.log = H.log.take n₀ ++ (front.filterMap LifecycleEvent.child? ++ tail.filterMap LifecycleEvent.child?) := by
    rw [← List.filterMap_append, ← hes, ← h.tells.staged, List.take_of_length_le hall]
  have hnone : ∀ events : List ChildEvent, (∀ e ∈ events, e.seq ≤ r.lifecycleSeq) → after events r.lifecycleSeq = [] := by
    intro events hle
    refine List.filter_eq_nil_iff.mpr fun e he => ?_
    have := hle e he
    simp only [decide_eq_true_eq]
    omega
  unfold fresh
  rw [hlog]
  unfold after
  rw [List.filter_append, List.filter_append]
  show after _ _ ++ (after _ _ ++ after _ _) = after _ _
  rw [hnone _ hs.earlier, hnone _ hold, List.nil_append, List.nil_append]

theorem Inv.outstanding (hH : Faithful static H) (h : s.Inv H ids m₀ n₀ es) (hrest : s.AtRest) (hall : H.log.length ≤ s.feed.staged) :
    ∃ r ∈ H.published.take s.feed.shown, s.op.baseline = r.lifecycleSeq ∧
      (∀ e ∈ after H.log r.lifecycleSeq, CompletionOperation.needsRealign e.kind = false) ∧
        ∃ id ∈ ids, Outstanding static H r s.op.set id := by
  obtain ⟨r, received, tail, set, hs⟩ := h.waiting hrest.waiting
  have hafter := after_eq_fresh h hrest.empty hall hs
  have hcalm := hs.calm
  have hset := hs.set_eq
  have hinc := hs.incomplete
  rw [← hafter] at hcalm hset
  unfold CompletionSet.isComplete at hinc
  rw [h.awaited] at hinc
  obtain ⟨id, hid, hunsat⟩ := List.all_eq_false.mp hinc
  refine ⟨r, hs.published, hs.baseline_eq, hcalm, id, hid, ?_⟩
  rw [hset] at hunsat ⊢
  exact outstanding_of_unsatisfied hH (List.mem_of_mem_take hs.published) hcalm (hs.passes id) (hs.awaited ▸ hid)
    (by simpa using hunsat)

end CompletionWait

/-! ## Runs -/

/-- An operation on the scope of a run, somewhere in it. -/
def CompletionWait.of (c : SupervisorConfig) (rt : SupervisorRuntime) (ids : List String) (allowFutureMembers : Bool)
    (shown staged : Nat) (actions : List WaitAction) : CompletionWait :=
  (CompletionWait.new c.kind ids allowFutureMembers shown staged).run rt.history actions

theorem completionWait_inv (c : SupervisorConfig) (b : Binding) (inputs : List Input) (ids : List String) (allowFutureMembers : Bool)
    {shown staged : Nat} (h : (Feed.subscribed shown staged).Aligned (run (start c b) inputs).rt.history) (actions : List WaitAction) :
    ∃ es, (CompletionWait.of c (run (start c b) inputs).rt ids allowFutureMembers shown staged actions).Inv
      (run (start c b) inputs).rt.history ids shown staged es := by
  have hnew : (CompletionWait.new c.kind ids allowFutureMembers shown staged).Inv (run (start c b) inputs).rt.history ids shown staged [] :=
    CompletionWait.new_inv h
  obtain ⟨more, hinv⟩ := hnew.run (run_faithful c b inputs) actions
  exact ⟨_, hinv⟩

/-- When completion is reported, there was a moment since the subscription at which every awaited
    child was done at once, or had been a member and was removed. -/
theorem completion_sound (c : SupervisorConfig) (b : Binding) (inputs : List Input) (ids : List String) (allowFutureMembers : Bool)
    (shown staged : Nat) (h : (Feed.subscribed shown staged).Aligned (run (start c b) inputs).rt.history) (actions : List WaitAction) :
    let rt := (run (start c b) inputs).rt
    let t := CompletionWait.of c rt ids allowFutureMembers shown staged actions
    t.op.phase = .done (.ok ()) →
      ∃ n s, shown ≤ n ∧ n ≤ t.feed.shown ∧ (rt.published.take n).getLast? = some s ∧ ∀ id ∈ ids,
        (∃ child ∈ s.children, child.id = id ∧ isCompleted child = true) ∨
          ((∀ child ∈ s.children, child.id ≠ id) ∧ ∃ lineage, .removed ∈ word (upTo rt.log s.lifecycleSeq) id lineage) := by
  intro rt t hdone
  obtain ⟨es, hinv⟩ := completionWait_inv c b inputs ids allowFutureMembers h actions
  exact hinv.confirmed hdone

def lateWait (published staged turns : Nat) : List WaitAction :=
  .turn :: List.replicate published (.feed .publish) ++ List.replicate staged (.feed .stage) ++ List.replicate turns .turn

/-- A wait for the child that is not restarted. -/
def pairWait : CompletionWait :=
  CompletionWait.of oneShotPair (run (start oneShotPair rootBinding) (firstStops ++ secondRestarts)).rt ["a"] false 1 0 (lateWait 9 5 3)

/-- It ends while the sibling fails and is restarted. -/
theorem completion_sound_skipped : pairWait.op.phase = .done (.ok ()) ∧
    ∃ n s, 1 ≤ n ∧ n ≤ pairWait.feed.shown ∧
      ((run (start oneShotPair rootBinding) (firstStops ++ secondRestarts)).rt.published.take n).getLast? = some s ∧
      ∀ id ∈ ["a"], (∃ child ∈ s.children, child.id = id ∧ isCompleted child = true) ∨
        ((∀ child ∈ s.children, child.id ≠ id) ∧ ∃ lineage,
          .removed ∈ word (upTo (run (start oneShotPair rootBinding) (firstStops ++ secondRestarts)).rt.log s.lifecycleSeq) id lineage) := by
  have hphase : pairWait.op.phase = .done (.ok ()) := by decide +kernel
  exact ⟨hphase, completion_sound oneShotPair rootBinding (firstStops ++ secondRestarts) ["a"] false 1 0 Feed.subscribed_aligned
    (lateWait 9 5 3) hphase⟩

/-- When everything is staged and nothing more happens, a waiter comes to an end or to rest for
    good, and if it rests, no child was added and none exited since the snapshot it last read,
    and some awaited child is not done. -/
theorem completion_settles (c : SupervisorConfig) (b : Binding) (inputs : List Input) (ids : List String) (allowFutureMembers : Bool)
    (shown staged : Nat) (h : (Feed.subscribed shown staged).Aligned (run (start c b) inputs).rt.history) (actions : List WaitAction) :
    let rt := (run (start c b) inputs).rt
    let t := CompletionWait.of c rt ids allowFutureMembers shown staged actions
    (t.feed.latest rt.history).isSome = true → rt.log.length ≤ t.feed.staged →
      ∃ n, let t' := CompletionWait.of c rt ids allowFutureMembers shown staged (actions ++ List.replicate n .turn)
        (∃ result, t'.op.phase = .done result) ∨
          (∀ k, (t'.run rt.history (List.replicate k .turn)).AtRest) ∧
          ∃ r ∈ rt.published.take t'.feed.shown, t'.op.baseline = r.lifecycleSeq ∧
            (∀ e ∈ after rt.log r.lifecycleSeq, CompletionOperation.needsRealign e.kind = false) ∧
              ∃ id ∈ ids, Outstanding (c.static b) rt.history r t'.op.set id := by
  intro rt t hlatest hall
  have hH := run_faithful c b inputs
  obtain ⟨es, hinv⟩ := completionWait_inv c b inputs ids allowFutureMembers h actions
  obtain ⟨r, hr⟩ := Option.isSome_iff_exists.mp hlatest
  obtain ⟨n, hstaged, hend⟩ := hinv.rests hH hr
  refine ⟨n, ?_⟩
  have hmore : CompletionWait.of c rt ids allowFutureMembers shown staged (actions ++ List.replicate n .turn) =
      t.run rt.history (List.replicate n .turn) := List.foldl_append
  show (∃ result, (CompletionWait.of c rt ids allowFutureMembers shown staged (actions ++ List.replicate n .turn)).op.phase = _) ∨ _
  rw [hmore]
  rcases hend with hdone | hrest
  · exact .inl hdone
  · obtain ⟨more', hinv'⟩ := hinv.run hH (List.replicate n .turn)
    exact .inr ⟨fun k => hrest.turns hH hinv' k, hinv'.outstanding hH hrest (hstaged ▸ hall)⟩

/-- A wait for both children, when the second runs again. -/
def bothWait : CompletionWait :=
  CompletionWait.of oneShotPair (run (start oneShotPair rootBinding) (firstStops ++ secondRestarts)).rt ["a", "b"] false 1 0 (lateWait 15 8 3)

theorem completion_settles_restarted : ∃ n,
    let t' := CompletionWait.of oneShotPair (run (start oneShotPair rootBinding) (firstStops ++ secondRestarts)).rt ["a", "b"] false 1 0
      (lateWait 15 8 3 ++ List.replicate n .turn)
    (∃ result, t'.op.phase = .done result) ∨
      (∀ k, (t'.run (run (start oneShotPair rootBinding) (firstStops ++ secondRestarts)).rt.history (List.replicate k .turn)).AtRest) ∧
      ∃ r ∈ (run (start oneShotPair rootBinding) (firstStops ++ secondRestarts)).rt.published.take t'.feed.shown,
        t'.op.baseline = r.lifecycleSeq ∧ (∀ e ∈ after (run (start oneShotPair rootBinding) (firstStops ++ secondRestarts)).rt.log r.lifecycleSeq,
          CompletionOperation.needsRealign e.kind = false) ∧
          ∃ id ∈ ["a", "b"], Outstanding (oneShotPair.static rootBinding)
            (run (start oneShotPair rootBinding) (firstStops ++ secondRestarts)).rt.history r t'.op.set id := by
  have hlatest : (bothWait.feed.latest (run (start oneShotPair rootBinding) (firstStops ++ secondRestarts)).rt.history).isSome = true := by
    decide +kernel
  have hall : (run (start oneShotPair rootBinding) (firstStops ++ secondRestarts)).rt.log.length ≤ bothWait.feed.staged := by
    decide +kernel
  exact completion_settles oneShotPair rootBinding (firstStops ++ secondRestarts) ["a", "b"] false 1 0 Feed.subscribed_aligned
    (lateWait 15 8 3) hlatest hall

end Kokage.Supervisor
