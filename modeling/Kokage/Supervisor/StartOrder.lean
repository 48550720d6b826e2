/-
  Kokage.Supervisor.StartOrder — the start sequence over whole runs of an ordered scope.

  The runtime keeps the invariants of `Staging`: handler by handler through `Act.Ends`,
  then for every wake, every step and every run.
-/

import Mathlib.Data.List.TakeWhile
import Kokage.Supervisor.Regrouping

namespace Kokage.Supervisor

open Kokage.Lib SupervisorRuntime Lane

variable {roster : List Seat} {rt : SupervisorRuntime} {keys pre : List ChildKey} {D : ChildKey → Post → Prop}

/-- At rest: nothing awaits its policy. -/
def Rests (roster : List Seat) (L : Lane) : Prop := Kept roster L ∧ Staged roster (fun _ _ => False) L

def Phase.Orderly (roster : List Seat) : Phase → Lane → Prop
  | .main, L | .deadlineYield, L => Staged roster (fun _ _ => False) L
  | .drain p (.restart keys freshGroupToken), L =>
    p.scope = (if freshGroupToken then .all else .subset keys) ∧
      ∃ pre, Held roster pre keys p.deferred L ∧ (freshGroupToken = true → pre = [])
  | .drain _ (.shutdown _), _ | .exited _, _ => True

structure Machine.Orderly (roster : List Seat) (m : Machine) : Prop where
  kept : Kept roster m.rt.lane
  phase : m.phase.Orderly roster m.rt.lane

/-! ## Leaving the loop -/

theorem Lane.Kept.stop {L : Lane} (h : Kept roster L) (running : Bool) : Kept roster { L with running := running } where
  kind_eq := h.kind_eq
  commands_eq := h.commands_eq
  keys_nodup := h.keys_nodup
  seated := h.seated
  active := h.active
  willing := h.willing
  order_eq := h.order_eq
  ready := h.ready
  exited := h.exited
  exits := h.exits
  earlier := h.earlier
  upheld := h.upheld
  told := h.told

theorem endShutdown_orderly (after : ExitReason) (result : Except SupervisorError Unit) (h : Kept roster rt.lane) :
    (endShutdown after result rt).Orderly roster := by
  unfold endShutdown
  split
  · refine ⟨?_, trivial⟩
    show Kept roster (SupervisorRuntime.lane _)
    rw [lane_finalizeStableChannels, lane_resolvePendingRemovals]
    exact h
  · refine ⟨?_, trivial⟩
    show Kept roster (SupervisorRuntime.lane _)
    rw [lane_finalizeStableChannels, lane_resolvePendingRemovals]
    exact h

theorem resumeShutdown_orderly (after : ExitReason) (out : DrainOut) (h : Kept roster rt.lane) :
    (resumeShutdown after (out, rt)).Orderly roster := by
  cases out with
  | await p => exact ⟨h, trivial⟩
  | done result =>
    cases result with
    | error e => exact endShutdown_orderly after _ h
    | ok ds =>
      refine endShutdown_orderly after _ ?_
      unfold finish
      rw [lane_sendSupervisorEvent]
      exact h.stop _

theorem exitWith_orderly (reason : ExitReason) (h : Kept roster rt.lane) : (exitWith reason rt).Orderly roster := by
  have hshut : ∀ after, (shutdownAll after rt).Orderly roster := by
    intro after
    unfold shutdownAll
    refine resumeShutdown_orderly after _ (Kept.halts ?_ (startDrain_halts .shutdown .all))
    rw [lane_sendSupervisorEvent]
    exact h.stop _
  unfold exitWith
  split
  · exact hshut _
  · exact hshut _
  · refine ⟨?_, trivial⟩
    show Kept roster (SupervisorRuntime.lane _)
    rw [lane_finalizeStableChannels, lane_resolvePendingRemovals]
    split
    · rw [lane_detachNested]
      exact h
    · exact h

theorem continueMain_orderly {m : RuntimeM Unit}
    (h : Act.Ends m rt (fun _ rt' => Rests roster rt'.lane) fun rt' => Kept roster rt'.lane) :
    (continueMain m rt).Orderly roster := by
  unfold continueMain
  obtain ⟨_, rt', hm, hq⟩ | ⟨e, rt', hm, he⟩ := h.cases
  · rw [hm]
    exact ⟨hq.1, hq.2⟩
  · rw [hm]
    exact exitWith_orderly e he

/-! ## Group restarts -/

theorem pop_order : ∀ (queue : List StartItem) (L : Lane), (pop queue L).order = L.order
  | [], _ => rfl
  | item :: rest, L => by
    have h : ({ L with queue := rest }.startItem item).order = L.order := by
      obtain h | ⟨p, -, -, -, -, _, _, _, h⟩ := Lane.startItem_cases { L with queue := rest } item
      · rw [h]
      · rw [h]
        unfold Lane.spawn
        simp only
        split <;> rfl
    unfold pop
    simp only
    split
    · exact h
    · exact (pop_order rest _).trans h

/-- The loop of `schedule_start_sequence` and the pop after it. -/
theorem scheduleStartSequence_ends {emitRestartEvents : Bool} (hk : Kept roster rt.lane)
    (h : Rebuilding roster D emitRestartEvents pre [] keys rt.lane) :
    Act.Ends (scheduleStartSequence keys emitRestartEvents) rt
      (fun _ rt' => Kept roster rt'.lane ∧ Staged roster D rt'.lane ∧ (∀ k, k ∉ keys → rt'.lane.posts k = rt.lane.posts k) ∧
        ∃ A, rt'.lane.order = pre ++ A ∧ (∀ k ∈ A, k ∈ keys) ∧ ∀ g, rt'.lane.gate = some g → g.key ∈ A)
      (fun rt' => Kept roster rt'.lane) := by
  unfold scheduleStartSequence
  -- the members seen are among `keys`, and no other child was touched
  let I : List ChildKey → SupervisorRuntime → Prop := fun rest rt' =>
    Kept roster rt'.lane ∧ (∀ k ∈ rest, k ∈ keys) ∧ (∀ k, k ∉ keys → rt'.lane.posts k = rt.lane.posts k) ∧
      ∃ A, (∀ k ∈ A, k ∈ keys) ∧ Rebuilding roster D emitRestartEvents pre A rest rt'.lane
  refine Act.ends_bind (Q := fun _ => I []) (Act.ends_forEach ?_ keys rt ⟨hk, fun _ hm => hm, fun _ _ => rfl, [], ?_, h⟩) ?_
  · rintro key rest rt₁ ⟨hk₁, hrest, hframe, A, hA, h₁⟩
    refine Act.ends_get ?_
    obtain ⟨hk', ⟨A', hA', h'⟩, hother⟩ := h₁.next hk₁
    refine (scheduleOne_lane key emitRestartEvents hk₁.willing).weaken ?_ ?_
    · intro _ rt₂ hl
      rw [← hl] at hk' h' hother
      refine ⟨hk', fun k hm => hrest k (List.mem_cons_of_mem _ hm), fun k hnot => ?_, A', fun k hm => ?_, h'⟩
      · rw [hother k fun he => hnot (he ▸ hrest key (List.mem_cons_self ..)), hframe k hnot]
      · rcases hA' k hm with hm | rfl
        · exact hA k hm
        · exact hrest k (List.mem_cons_self ..)
    · intro rt₂ hl
      rw [hl]
      exact hk₁
  · intro k hm
    cases hm
  · rintro _ rt₁ ⟨hk₁, -, hframe, A, hA, h₁⟩
    refine Act.ends_get ?_
    have hkind : rt₁.cfg.kind = .ordered := hk₁.kind_eq
    rw [if_pos hkind]
    refine Act.ends_modify_bind ?_
    have hp := h₁.popping
    have hin : ∀ item ∈ rt₁.publishSnapshot.lane.queue, item.key ∈ A := by
      intro item hi
      have hm : item.key ∈ rt₁.lane.queue.map (·.key) := List.mem_map.mpr ⟨item, hi, rfl⟩
      rw [hp.queue_eq] at hm
      exact (List.mem_filter.mp hm).1
    have hkp : Kept roster rt₁.publishSnapshot.lane := hk₁
    obtain ⟨rt₂, hrun, hl⟩ := @advanceStartSequence_open rt₁.publishSnapshot hp.gate_eq hkp.willing
    refine Act.ends_ok hrun ?_
    obtain ⟨hk₂, hs₂⟩ := Popping.pop _ rfl hkp hp
    rw [hl]
    refine ⟨hk₂, hs₂, fun k hnot => ?_, A, ?_, hA, fun g hg => ?_⟩
    · rw [(pop_frame (k := k) _ fun item hi he => hnot (hA k (he ▸ hin item hi))).1]
      exact hframe k hnot
    · rw [pop_order]
      exact hp.order_eq
    · by_contra hnot
      exact (pop_frame (k := g.key) _ fun item hi he => hnot (he ▸ hin item hi)).2 g hg hp.gate_eq rfl

/-- With nobody being removed, completions inside the scope change nothing. -/
theorem applyDrainedCompletionPolicy_still (c : ClassifiedExit) (hk : Kept roster rt.lane) :
    applyDrainedCompletionPolicy c rt = (.ok (), rt) := by
  unfold applyDrainedCompletionPolicy applyExitPolicyInner
  rw [Act.run_get_bind]
  split
  · rfl
  · cases h : rt.children.get c.key with
    | none => rfl
    | some e =>
      have hm : e.membership ≠ .removing := by
        have : e.post.membership = .active := hk.active _ _ (lane_get h)
        rw [show e.membership = .active from this]
        simp
      simp [hm]

theorem respawnGroup_ends {ds : List ClassifiedExit} (freshGroupToken : Bool) (hk : Kept roster rt.lane)
    (h : Held roster pre keys ds rt.lane) (hidle : ∀ k ∈ keys, ∀ p, rt.lane.posts k = some p → p.state.isActive = false) :
    Act.Ends (respawnGroup keys freshGroupToken ds) rt
      (fun es rt' => es = ds.filter (fun c => !keys.contains c.key) ∧ Kept roster rt'.lane ∧
        Staged roster (fun k p => k ∉ keys ∧ Awaiting ds k p) rt'.lane ∧
        (∀ k, k ∉ keys → rt'.lane.posts k = rt.lane.posts k) ∧
        ∃ A, rt'.lane.order = pre ++ A ∧ (∀ k ∈ A, k ∈ keys) ∧ ∀ g, rt'.lane.gate = some g → g.key ∈ A)
      (fun rt' => Kept roster rt'.lane) := by
  unfold respawnGroup
  simp only [List.partition_eq_filter_filter]
  refine Act.ends_bind (Q := fun _ rt' => rt' = rt) (Act.ends_ok (Act.run_forEach_still fun c _ => ?_) rfl) ?_
  · rw [Act.run_get_bind]
    split
    · exact applyDrainedCompletionPolicy_still c hk
    · rfl
  intro _ rt' hrt
  rw [hrt]
  -- whatever the group token, the sequence is emptied and rebuilt
  have hgo : ∀ rt₁ : SupervisorRuntime, rt₁.lane = rt.lane →
      Act.Ends (do
        Act.modify fun rt => { rt with startSequence := rt.startSequence.map fun s =>
          { queue := s.queue.filter fun item => !keys.contains item.key
            gate := s.gate.filter fun g => !keys.contains g.key } }
        scheduleStartSequence keys true
        pure (ds.filter (not ∘ fun c => keys.contains c.key)) : RuntimeM (List ClassifiedExit)) rt₁
        (fun es rt' => es = ds.filter (fun c => !keys.contains c.key) ∧ Kept roster rt'.lane ∧
          Staged roster (fun k p => k ∉ keys ∧ Awaiting ds k p) rt'.lane ∧
          (∀ k, k ∉ keys → rt'.lane.posts k = rt.lane.posts k) ∧
          ∃ A, rt'.lane.order = pre ++ A ∧ (∀ k ∈ A, k ∈ keys) ∧ ∀ g, rt'.lane.gate = some g → g.key ∈ A)
        (fun rt' => Kept roster rt'.lane) := by
    intro rt₁ h₁
    refine Act.ends_modify_bind ?_
    let rt₂ : SupervisorRuntime := { rt₁ with startSequence := rt₁.startSequence.map fun s =>
      { queue := s.queue.filter fun item => !keys.contains item.key
        gate := s.gate.filter fun g => !keys.contains g.key } }
    have hq : rt₁.lane.queue.filter (fun item => !keys.contains item.key) = [] := by
      rw [List.filter_eq_nil_iff, h₁]
      intro item hi
      simp [h.queue_in item hi]
    have hgate : rt₁.lane.gate.filter (fun g => !keys.contains g.key) = none := by
      rw [h₁]
      cases hg : rt.lane.gate with
      | none => rfl
      | some g => simp [h.gate_in g hg]
    have h₂ : rt₂.lane = { rt.lane with queue := [], gate := none } := by
      rw [← h₁, ← hq, ← hgate]
      unfold lane rt₂ startQueue startGate
      cases rt₁.startSequence <;> rfl
    have hreb := h.rebuild hk hidle
    have hk₂ : Kept roster rt₂.lane := by
      rw [h₂]
      exact hk.requeue [] none
    rw [← h₂] at hreb
    refine Act.ends_bind (scheduleStartSequence_ends hk₂ hreb) ?_
    rintro _ rt₃ ⟨hk₃, hs₃, hframe, hA⟩
    refine Act.ends_ok rfl ⟨rfl, hk₃, hs₃, fun k hnot => ?_, hA⟩
    rw [hframe k hnot, h₂]
  cases freshGroupToken with
  | false => exact hgo rt rfl
  | true => exact Act.ends_modify_bind (hgo { rt with groupToken := false } rfl)

/-- The exits handed back, each applied if it is still current. -/
theorem applyDeferred_ends {es : List ClassifiedExit} (hrun : rt.lane.running = true) (hk : Kept roster rt.lane)
    (hs : Staged roster (Awaiting es) rt.lane) (hr : Regrouped keys es rt.lane) :
    Act.Ends (applyDeferred es) rt (fun _ rt' => Rests roster rt'.lane) (fun rt' => Kept roster rt'.lane) := by
  let I : List ClassifiedExit → SupervisorRuntime → Prop := fun rest rt' =>
    Kept roster rt'.lane ∧ Staged roster (Awaiting rest) rt'.lane ∧ Regrouped keys rest rt'.lane ∧ rt'.lane.running = true
  have hloop : Act.Ends (applyDeferred es) rt (fun _ => I []) (fun rt' => Kept roster rt'.lane) := by
    refine Act.ends_forEach (I := I) ?_ es rt ⟨hk, hs, hr, hrun⟩
    rintro c rest rt₁ ⟨hk₁, hs₁, hr₁, hrun₁⟩
    refine Act.ends_get ?_
    split
    · rename_i hm
      obtain ⟨e, he, hl, hg⟩ := (currentChildMatches_iff (t := c.record)).mp hm
      obtain ⟨hk₂, hs₂, hr₂, hrun₂⟩ := hr₁.apply hrun₁ hk₁ hs₁ (lane_get he) hl hg
      refine (applyExitPolicy_lane c hk₁.willing).weaken ?_ ?_
      · intro _ rt₂ h₂
        rw [← h₂] at hk₂ hs₂ hr₂ hrun₂
        exact ⟨hk₂, hs₂, hr₂, hrun₂⟩
      · rintro rt₂ (h₂ | ⟨p, -, -, h₂⟩)
        · rw [h₂]
          exact hk₁
        · rw [h₂]
          exact hk₁.fallen c.key p
    · rename_i hm
      refine Act.ends_ok rfl ?_
      obtain ⟨hs₂, hr₂⟩ := hr₁.stale hs₁ (by
        rintro p hp ⟨hl, hg⟩
        obtain ⟨e, he, rfl⟩ := get_of_lane hp
        exact hm ((currentChildMatches_iff (t := c.record)).mpr ⟨e, he, hl, hg⟩))
      exact ⟨hk₁, hs₂, hr₂, hrun₁⟩
  refine hloop.weaken ?_ fun _ h => h
  rintro _ rt' ⟨hk', hs', -, -⟩
  refine ⟨hk', hs'.settle ?_⟩
  rintro k p - ⟨c, hc, -⟩
  cases hc

theorem finishRestart_ends {ds : List ClassifiedExit} (freshGroupToken : Bool) (ho : rt.ledger.Open) (hn : keys.Nodup)
    (hi : ∀ k ∈ keys, Inactive rt.ledger k) (hk : Kept roster rt.lane) (h : Held roster pre keys ds rt.lane)
    (hfresh : freshGroupToken = true → pre = []) :
    Act.Ends (finishRestart keys freshGroupToken ds) rt (fun _ rt' => Rests roster rt'.lane)
      (fun rt' => Kept roster rt'.lane) := by
  have hidle : ∀ k ∈ keys, ∀ p, rt.lane.posts k = some p → p.state.isActive = false := by
    intro k hm p hp
    obtain ⟨e, he, rfl⟩ := get_of_lane hp
    exact hi k hm e.member (ledger_get he)
  have hopen : ∀ es rt', respawnGroup keys freshGroupToken ds rt = (.ok es, rt') → rt'.lane.running = true := by
    intro es rt' hrun
    have hlead := (@respawnGroup_runs rt keys freshGroupToken ds ho hn hi).1
    rw [hrun] at hlead
    exact (leads_open (fun _ => Schedules.not_shutdown) hlead ho).running
  unfold finishRestart
  refine Act.ends_bind ((respawnGroup_ends freshGroupToken hk h hidle).and hopen) ?_
  rintro es rt' ⟨⟨rfl, hk', hs', hframe, A, hA, hAin, hgate⟩, hrun⟩
  cases freshGroupToken with
  | true =>
    refine Act.ends_ok rfl ⟨hk', hs'.settle ?_⟩
    rintro k p - ⟨hnot, c, hc, hck, -⟩
    have hm := h.known c hc
    rw [h.order_eq, hfresh rfl, List.nil_append, hck] at hm
    exact absurd hm hnot
  | false =>
    refine applyDeferred_ends hrun hk' (hs'.settle ?_) ⟨⟨pre, A, hA, hAin, hgate⟩, ?_, ?_⟩
    · rintro k p - ⟨hnot, c, hc, hck, hrest⟩
      refine .inr ⟨c, List.mem_filter.mpr ⟨hc, ?_⟩, hck, hrest⟩
      simp [hck, hnot]
    · intro c hc
      simpa using (List.mem_filter.mp hc).2
    · intro c hc p hp
      have hnot : c.key ∉ keys := by simpa using (List.mem_filter.mp hc).2
      rw [hframe _ hnot] at hp
      exact h.fits c (List.mem_filter.mp hc).1 p hp

/-- What a drain answers to a restart. -/
theorem resumeRestart_orderly {scope : DrainScope} {ds : List ClassifiedExit} {freshGroupToken : Bool} {out : DrainOut}
    (ho : rt.ledger.Open) (hn : keys.Nodup) (hin : ∀ k ∈ keys, scope.contains k = true)
    (hscope : scope = if freshGroupToken then .all else .subset keys) (hgood : out.Good scope ds rt.ledger)
    (hk : Kept roster rt.lane) (h : Held roster pre keys ds rt.lane) (hfresh : freshGroupToken = true → pre = []) :
    (resumeRestart keys freshGroupToken (out, rt)).Orderly roster := by
  cases out with
  | await p =>
    obtain ⟨hs, hd, -⟩ := hgood
    refine ⟨hk, hs.trans hscope, pre, ?_, hfresh⟩
    rw [hd]
    exact h
  | done result =>
    cases result with
    | error e => exact exitWith_orderly _ hk
    | ok completed =>
      obtain ⟨rfl, hi⟩ := hgood
      exact continueMain_orderly (finishRestart_ends freshGroupToken ho hn (fun k hm => hi k (hin k hm)) hk h hfresh)

/-! ## Deadlines -/

theorem restartAll_ends (due : List ChildKey) (h : Rests roster rt.lane) :
    Act.Ends (Act.forEach due restartOne) rt (fun _ rt' => Rests roster rt'.lane) (fun rt' => Kept roster rt'.lane) := by
  refine Act.ends_forEach (I := fun _ rt' => Rests roster rt'.lane) ?_ due rt h
  rintro key rest rt₁ ⟨hk₁, hs₁⟩
  refine (restartOne_lane key hk₁.willing).weaken ?_ ?_
  · intro _ rt₂ h₂
    rw [h₂]
    exact hs₁.restartOne hk₁ key
  · rintro rt₂ ⟨p, hp, -, -, hdue, -, h₂⟩
    rw [h₂]
    have hst := ((hs₁.rows key p hp).due hdue).2.1
    refine (hk₁.respawn hp (fun hd => ?_) hst).requeue _ _
    rw [Post.Done, hdue] at hd
    cases hd.2.1

/-- The keys a restart of `key` covers are a suffix of the order that contains it. -/
theorem restartScope_suffix {key : ChildKey} (freshGroupToken : Bool) {e : ChildEntry} (hget : rt.children.get key = some e)
    (hm : e.membership = .active) (hmem : key ∈ rt.childOrder) :
    ∃ keys pre, rt.restartScope key freshGroupToken = some keys ∧ rt.childOrder = pre ++ keys ∧ key ∈ keys ∧
      (freshGroupToken = true → pre = []) := by
  unfold restartScope
  rw [hget]
  cases freshGroupToken with
  | true => exact ⟨rt.childOrder, [], by simp [hm], rfl, hmem, fun _ => rfl⟩
  | false =>
    refine ⟨rt.childOrder.dropWhile (· ≠ key), rt.childOrder.takeWhile (· ≠ key), ?_, ?_, ?_, nofun⟩
    · simp [hm, hmem]
    · exact (List.takeWhile_append_dropWhile ..).symm
    · rw [← List.takeWhile_append_dropWhile (p := (· ≠ key)) (l := rt.childOrder)] at hmem
      rcases List.mem_append.mp hmem with h | h
      · have := List.mem_takeWhile_imp h
        simp at this
      · exact h

/-- What `handle_deadlines` leaves behind: a scope at rest, or a group to restart, held. -/
def Tended (roster : List Seat) (group : Option (List ChildKey)) (rt : SupervisorRuntime) : Prop :=
  Kept roster rt.lane ∧ match group with
    | none => Staged roster (fun _ _ => False) rt.lane
    | some keys => ∃ pre, Held roster pre keys [] rt.lane ∧ (rt.cfg.strategy = .oneForAll → pre = [])

theorem handleDeadlines_ends (h : Rests roster rt.lane) :
    Act.Ends handleDeadlines rt (Tended roster) (fun rt' => Kept roster rt'.lane) := by
  let rt₂ := rt.serveRemovals
  have hl : rt₂.lane = rt.lane :=
    (lane_foldl (fun _ k => lane_hardAbortRemoval k) _).trans (lane_foldl (fun _ (x : ChildKey × Duration) => lane_expireRemoval x.1 x.2) _)
  have h₂ : Rests roster rt₂.lane := by
    rw [hl]
    exact h
  unfold Act.Ends
  rw [handleDeadlines_eq]
  by_cases hdown : rt.shutdownRequested = true
  · rw [if_pos hdown]
    exact h.1
  rw [if_neg hdown]
  show Act.Ends (serveRestarts rt₂) rt₂ (Tended roster) (fun rt' => Kept roster rt'.lane)
  unfold serveRestarts
  -- the first child that is due, under a strategy that restarts a group
  have hgroup : ∀ key rest, rt₂.dueRestarts = key :: rest → ∀ strategy, strategy = rt₂.cfg.strategy →
      Act.Ends (do
        Act.modify (·.editRuntime key fun r => { r with nextRestartDeadline := none })
        let rt ← Act.get
        pure (rt.restartScope key (strategy = .oneForAll)) : RuntimeM (Option (List ChildKey))) rt₂
        (Tended roster) (fun rt' => Kept roster rt'.lane) := by
    intro key rest hdue strategy hstr
    have hm : key ∈ rt₂.dueRestarts := by
      rw [hdue]
      exact List.mem_cons_self ..
    obtain ⟨hmem, hc⟩ := List.mem_filter.mp hm
    obtain ⟨e, he, hc⟩ := (Option.any_eq_true _ _).mp hc
    simp only [Bool.and_eq_true, decide_eq_true_eq] at hc
    obtain ⟨⟨hact, -⟩, hd⟩ := hc
    have hd' : e.post.due = true := by
      obtain ⟨d, hd, -⟩ := (Option.any_eq_true _ _).mp hd
      simp [ChildEntry.post, hd]
    let rt₃ := rt₂.editRuntime key fun r => { r with nextRestartDeadline := none }
    have hl₃ : rt₃.lane = rt₂.lane.put key (e.post.setDue false) := lane_edit he
    have he₃ : rt₃.children.get key = some { e with runtime := { e.runtime with nextRestartDeadline := none } } := get_edit he
    obtain ⟨keys, pre, hscope, ho, hkey, hpre⟩ := restartScope_suffix (decide (strategy = .oneForAll)) he₃ hact hmem
    obtain ⟨hk₃, hheld⟩ := h₂.2.hold h₂.1 (lane_get he) hd' (ho : rt₂.lane.order = pre ++ keys) hkey
    refine Act.ends_ok (?_ : _ = (Except.ok (some keys), rt₃)) ?_
    · show (Except.ok (rt₃.restartScope key _), rt₃) = _
      rw [hscope]
    · refine ⟨hl₃ ▸ hk₃, pre, hl₃ ▸ hheld, fun hs => hpre ?_⟩
      rw [hstr]
      exact decide_eq_true hs
  split
  · refine Act.ends_bind (restartAll_ends _ h₂) ?_
    intro _ rt' h'
    exact Act.ends_ok rfl ⟨h'.1, h'.2⟩
  · exact Act.ends_ok rfl ⟨h₂.1, h₂.2⟩
  · rename_i key rest hdue _
    exact hgroup key rest hdue _ rfl

/-- A drain of a restart begins with the children it restarts held. -/
theorem startDrain_orderly {reason : DrainReason} {freshGroupToken : Bool} (scope : DrainScope) (hb : rt.ledger.Books)
    (ho : rt.ledger.Open) (hs : rt.ledger.Settled) (hr : reason ≠ .shutdown) (hn : keys.Nodup)
    (hin : ∀ k ∈ keys, scope.contains k = true) (hscope : scope = if freshGroupToken then .all else .subset keys)
    (hk : Kept roster rt.lane) (h : Held roster pre keys [] rt.lane) (hfresh : freshGroupToken = true → pre = []) :
    (resumeRestart keys freshGroupToken (rt.startDrain reason scope)).Orderly roster := by
  obtain ⟨-, ho', -⟩ := startDrain_restart scope hb ho hs hr
  have hhalt := @startDrain_halts rt reason scope
  exact resumeRestart_orderly ho' hn hin hscope (startDrain_good hb hr) (hk.halts hhalt) (h.halts hhalt) hfresh

/-- Nobody submits commands to an ordered scope. -/
theorem deadlineCommands_ends (h : Rests roster rt.lane) :
    Act.Ends (drainDeadlineCommandBatch rt.commandRx >>= fun _ => handleDeadlines) rt
      (Tended roster) (fun rt' => Kept roster rt'.lane) := by
  rw [show rt.commandRx = [] from h.1.commands_eq]
  refine Act.ends_bind (Q := fun _ rt' => Rests roster rt'.lane) ?_ fun _ rt₁ h₁ => handleDeadlines_ends h₁
  unfold drainDeadlineCommandBatch
  refine Act.ends_get ?_
  split
  · exact Act.ends_error rfl h.1
  · refine Act.ends_ok rfl ?_
    simp only
    split
    · exact h
    · exact h

theorem deadlineBatch_orderly (hb : rt.ledger.Books) (ho : rt.ledger.Open) (hs : rt.ledger.Settled)
    (h : Rests roster rt.lane) : (deadlineBatch rt).Orderly roster := by
  obtain ⟨hlead, hkeys⟩ := deadlineBatch_runs ho
  have hends := deadlineCommands_ends h
  unfold deadlineBatch
  simp only
  obtain ⟨r, rt₁, hrun, hk₁, hr⟩ | ⟨e, rt₁, hrun, he⟩ := hends.cases
  · rw [hrun] at hlead hkeys ⊢
    obtain ⟨hb₁, ho₁, hs₁⟩ := path_main (fun _ k hl => Commands.quiet hl k) hlead hb ho hs
    cases r with
    | none => exact ⟨hk₁, hr⟩
    | some keys =>
      obtain ⟨pre, hheld, hpre⟩ := hr
      have hn : keys.Nodup := (hkeys _ _ rfl keys rfl).nodup hb₁.order_nodup
      simp only
      split
      · rename_i hall
        exact startDrain_orderly .all hb₁ ho₁ hs₁ (by decide) hn (fun _ _ => rfl) rfl hk₁ hheld fun _ => hpre hall
      · exact startDrain_orderly (.subset keys) hb₁ ho₁ hs₁ (by decide) hn (fun _ => subset_contains) rfl hk₁ hheld nofun
  · rw [hrun]
    exact exitWith_orderly e he

/-! ## Wakes -/

theorem wakeMain_orderly (w : Wake) (hb : rt.ledger.Books) (ho : rt.ledger.Open) (h : Rests roster rt.lane) :
    (wakeMain rt w).Orderly roster := by
  have hstay : ∀ rt₁ : SupervisorRuntime, rt₁.lane = rt.lane → (⟨rt₁, .main⟩ : Machine).Orderly roster := by
    intro rt₁ h₁
    rw [← h₁] at h
    exact ⟨h.1, h.2⟩
  cases w with
  | shutdown =>
    unfold wakeMain
    simp only
    split
    · exact exitWith_orderly .shutdown h.1
    · exact hstay rt rfl
  | command =>
    unfold wakeMain
    simp only
    split
    · rename_i hc
      rw [show rt.commandRx = [] from h.1.commands_eq] at hc
      cases hc
    · refine hstay _ ?_
      split <;> rfl
    · exact hstay rt rfl
  | ready =>
    unfold wakeMain
    simp only
    split
    · rename_i ready rest _
      have h' : Rests roster ({ rt with readyRx := rest } : SupervisorRuntime).lane := h
      obtain ⟨rt₁, hrun, hl⟩ := handleChildReady_lane ready h'.1.willing
      refine continueMain_orderly (Act.ends_ok hrun ?_)
      rw [hl]
      exact h'.2.readyAt h'.1 ready
    · exact hstay rt rfl
  | nestedSnapshot =>
    unfold wakeMain
    simp only
    split
    · rename_i n rest _
      refine hstay _ ?_
      rw [lane_handleNestedSnapshot]
      rfl
    · exact hstay rt rfl
  | deadline =>
    unfold wakeMain
    simp only
    split
    · exact ⟨h.1, h.2⟩
    · exact hstay rt rfl
  | joined task =>
    unfold wakeMain
    simp only
    split
    · rename_i c _
      refine continueMain_orderly ((handleJoinedChild_lane task c hb).weaken ?_ ?_)
      · rintro _ rt₁ (hl | ⟨key, p, status, hget, hact, hl⟩)
        · rw [hl]
          exact h
        · rw [hl]
          exact h.2.exits ho.running h.1 hget hact status
      · rintro rt₁ (hl | ⟨key, p, kind, hget, hact, hl | ⟨-, hl⟩⟩)
        · rw [hl]
          exact h.1
        · rw [hl]
          exact h.1.exit hget hact kind
        · rw [hl]
          exact (h.1.exit hget hact kind).fallen key (p.exit kind)
    · exact hstay rt rfl
  | timer => exact hstay rt rfl
  | resumed => exact hstay rt rfl
  | noJoin => exact hstay rt rfl

/-- Whatever a join in a drain does, the lane is kept. -/
theorem handleJoinForScope_kept (task : TaskId) (c : Conclusion) (scope : DrainScope) (cursor : Option ChildKey)
    (hb : rt.ledger.Books) (hk : Kept roster rt.lane) :
    Kept roster (handleJoinForScope task c scope cursor rt).2.lane := by
  rcases handleJoinForScope_lane task c scope cursor hb with
    ⟨hl, -⟩ | ⟨key, p, status, hget, hact, ⟨-, -, hl⟩ | ⟨-, hl, -⟩⟩
  · rw [hl]
    exact hk
  · rw [hl]
    exact (hk.exit hget hact _).drop key
  · rw [hl]
    exact hk.exit hget hact _

theorem drainJoined_kept {p : DrainPhase} {task : TaskId} (c : Conclusion) (hb : rt.ledger.Books)
    (hk : Kept roster rt.lane) : Kept roster (drainJoined p task c rt).2.lane := by
  obtain ⟨cursor, hok, herr⟩ := @drainJoined_cases rt p task c
  have hk' := handleJoinForScope_kept task c p.scope cursor hb hk
  cases hr : (handleJoinForScope task c p.scope cursor rt).1 with
  | ok exits =>
    rw [hok exits hr]
    exact hk'.halts (rejoined_halts (deferring_stopping p.stopping_all) _)
  | error err =>
    rw [(herr err hr).1]
    exact hk'

theorem wakeDrain_kept {p : DrainPhase} {after : ExitReason} (w : Wake) (hb : rt.ledger.Books) (hk : Kept roster rt.lane) :
    (wakeDrain rt p (.shutdown after) w).Orderly roster := by
  have hstay : (⟨rt, .drain p (.shutdown after)⟩ : Machine).Orderly roster := ⟨hk, trivial⟩
  cases w with
  | joined task =>
    unfold wakeDrain
    simp only
    split
    · exact hstay
    · exact hstay
    · exact hstay
    · exact resumeShutdown_orderly after _ (drainJoined_kept _ hb hk)
    · exact hstay
  | timer => exact resumeShutdown_orderly after _ (hk.halts (drainTimer_halts p.stopping_all))
  | resumed => exact resumeShutdown_orderly after _ (hk.halts (drainResumed_halts p.stopping_all))
  | noJoin => exact resumeShutdown_orderly after _ (hk.halts (drainNoJoin_halts p.stopping_all))
  | _ => exact hstay

/-- A join in the drain of a restart: the exit is handed back, or the child is restarted with the group. -/
theorem handleJoinForScope_held {p : DrainPhase} {freshGroupToken : Bool} {task : TaskId} (c : Conclusion)
    (cursor : Option ChildKey) (hb : rt.ledger.Books) (hk : Kept roster rt.lane)
    (hscope : p.scope = if freshGroupToken then .all else .subset keys) (hfresh : freshGroupToken = true → pre = [])
    (h : Held roster pre keys p.deferred rt.lane) {exits : List ClassifiedExit}
    (hr : (handleJoinForScope task c p.scope cursor rt).1 = .ok exits) :
    Held roster pre keys (p.deferred ++ exits) (handleJoinForScope task c p.scope cursor rt).2.lane := by
  rcases handleJoinForScope_lane task c p.scope cursor hb with
    ⟨hl, hout⟩ | ⟨key, q, status, hget, hact, ⟨hm, -, -⟩ | ⟨-, hl, hout⟩⟩
  · rw [hr] at hout
    rcases hout with hout | ⟨err, hout⟩
    · cases hout
      rw [hl, List.append_nil]
      exact h
    · cases hout
  · rw [hk.active key q hget] at hm
    cases hm
  · rw [hr] at hout
    rw [hl]
    refine h.exit hk hget hact status ?_
    rcases hout with ⟨hout, hin⟩ | hout
    · cases hout
      refine .inl ⟨rfl, ?_⟩
      cases freshGroupToken with
      | true =>
        have hmem : key ∈ rt.lane.order := hk.mem_order.mpr (by rw [hget]; rfl)
        rwa [h.order_eq, hfresh rfl, List.nil_append] at hmem
      | false =>
        rw [hscope] at hin
        simpa [DrainScope.contains] using hin
    · cases hout
      exact .inr rfl

/-- A join in a drain leads to an exit at most. -/
theorem handleJoinForScope_path {task : TaskId} (c : Conclusion) (scope : DrainScope) (cursor : Option ChildKey)
    (hj : task ∈ rt.joinSet.map (·.id)) (hb : rt.ledger.Books) :
    Ledger.Path (fun l => l = .other ∨ ∃ t failed, l = .exited t failed) rt.ledger (handleJoinForScope task c scope cursor rt).2.ledger := by
  rcases handleJoinForScope_leads c scope cursor hj hb with ⟨hlead, -⟩ | ⟨t, -, ⟨L, hstep, hpath⟩, -⟩
  · exact leads_mono (fun _ => .inl) hlead
  · exact .trans (.single hstep (.inr ⟨t, _, rfl⟩)) (hpath.mono fun _ => .inl)

theorem drainJoined_orderly {p : DrainPhase} {freshGroupToken : Bool} {task : TaskId} (c : Conclusion)
    (hj : task ∈ rt.joinSet.map (·.id)) (hb : rt.ledger.Books)
    (hinv : (Continuation.restart keys freshGroupToken).Inv p rt.ledger) (hk : Kept roster rt.lane)
    (hscope : p.scope = if freshGroupToken then .all else .subset keys) (h : Held roster pre keys p.deferred rt.lane)
    (hfresh : freshGroupToken = true → pre = []) :
    (resumeRestart keys freshGroupToken (drainJoined p task c rt)).Orderly roster := by
  obtain ⟨-, ho₁, -⟩ := restartDrain_joined (c := c) hb hinv hj
  obtain ⟨cursor, hok, herr⟩ := @drainJoined_cases rt p task c
  have hpath := handleJoinForScope_path c p.scope cursor hj hb
  have hk₁ := handleJoinForScope_kept task c p.scope cursor hb hk
  cases hr : (handleJoinForScope task c p.scope cursor rt).1 with
  | ok exits =>
    have hh := handleJoinForScope_held c cursor hb hk hscope hfresh h hr
    have hprog : (deferring p exits).Progress (handleJoinForScope task c p.scope cursor rt).2.ledger := by
      refine progress_path exits ?_ hpath hinv.2.1.progress
      rintro l k (rfl | ⟨t, failed, rfl⟩)
      · exact nofun
      · exact nofun
    have hgood := rejoined_good (Ledger.path_books hpath hb) hprog
    have hhalt := rejoined_halts hprog.stopping (handleJoinForScope task c p.scope cursor rt).2
    rw [deferring_scope, deferring_deferred] at hgood
    rw [hok exits hr] at ho₁ ⊢
    exact resumeRestart_orderly ho₁ hinv.2.2.1 hinv.2.2.2 hscope hgood (hk₁.halts hhalt) (hh.halts hhalt) hfresh
  | error err =>
    obtain ⟨h2, h1⟩ := herr err hr
    generalize drainJoined p task c rt = out at h1 h2
    obtain ⟨out, rt₂⟩ := out
    have h2 : rt₂ = (handleJoinForScope task c p.scope cursor rt).2 := h2
    subst h2
    rcases h1 with ⟨e, h1⟩ | h1
    · have h1 : out = .done (.error e) := h1
      rw [h1]
      exact exitWith_orderly _ hk₁
    · have h1 : out = .await p := h1
      rw [h1]
      refine ⟨hk₁, hscope, pre, ?_, hfresh⟩
      rcases handleJoinForScope_lane task c p.scope cursor hb with
        ⟨hl, -⟩ | ⟨key, q, status, -, -, ⟨-, hok, -⟩ | ⟨-, -, ⟨hok, -⟩ | hok⟩⟩
      · show Held roster pre keys p.deferred (handleJoinForScope task c p.scope cursor rt).2.lane
        rw [hl]
        exact h
      · rw [hr] at hok
        cases hok
      · rw [hr] at hok
        cases hok
      · rw [hr] at hok
        cases hok

theorem restartDrain_orderly {p : DrainPhase} {freshGroupToken : Bool} (w : Wake) (hb : rt.ledger.Books)
    (hinv : (Continuation.restart keys freshGroupToken).Inv p rt.ledger) (hk : Kept roster rt.lane)
    (hscope : p.scope = if freshGroupToken then .all else .subset keys) (h : Held roster pre keys p.deferred rt.lane)
    (hfresh : freshGroupToken = true → pre = []) :
    (wakeDrain rt p (.restart keys freshGroupToken) w).Orderly roster := by
  have hprog := hinv.2.1.progress
  have hstay : (⟨rt, .drain p (.restart keys freshGroupToken)⟩ : Machine).Orderly roster := ⟨hk, hscope, pre, h, hfresh⟩
  have hout : ∀ {out : DrainOut × SupervisorRuntime}, Leads (Stops p.scope) rt out.2 →
      out.1.Good p.scope p.deferred out.2.ledger → Halts p.scope rt.lane out.2.lane →
      (resumeRestart keys freshGroupToken out).Orderly roster := by
    intro out hlead hgood hhalt
    obtain ⟨-, ho₁, -⟩ := restartDrain_out hb hinv hlead hgood
    exact resumeRestart_orderly ho₁ hinv.2.2.1 hinv.2.2.2 hscope hgood (hk.halts hhalt) (h.halts hhalt) hfresh
  cases w with
  | joined task =>
    unfold wakeDrain
    simp only
    split
    · exact hstay
    · exact hstay
    · exact hstay
    · rename_i hc
      exact drainJoined_orderly _ (mem_of_joinable hc) hb hinv hk hscope h hfresh
    · exact hstay
  | timer => exact hout (drainTimer_leads hprog.stopping) (drainTimer_good hb hprog) (drainTimer_halts hprog.stopping)
  | resumed => exact hout (drainResumed_leads hprog.stopping) (drainResumed_good hb hprog) (drainResumed_halts hprog.stopping)
  | noJoin => exact hout (drainNoJoin_leads hprog.stopping) (drainNoJoin_good hb hprog) (drainNoJoin_halts hprog.stopping)
  | _ => exact hstay

end Kokage.Supervisor
