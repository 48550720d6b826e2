/-
  Kokage.Actor.Streams — every call of the hub keeps the streams of its watches, and
  every run reports its exit once (`actor/graph.rs`: `ActorExitReporter`).

  `Kept` is what the calls preserve: the history is a chronicle, the hub's books agree
  with it, and each live watch was told its part of it. Where a watch sits follows from
  its epoch (`seat_iff`), so an exit reaches exactly the watches of the epoch of its run.
-/

import Mathlib.Data.List.Pairwise
import Kokage.Actor.Monitor

namespace Kokage.Actor

open Kokage.Lib
open Kokage.Supervisor

/-! ## The hub keeps it -/

namespace Lifecycle

@[simp] theorem leave_isRemoved (runId : Nat) (l : Lifecycle) : (l.leave runId).isRemoved = l.isRemoved := by
  cases l with
  | running current generation =>
    simp only [leave]
    split <;> rfl
  | _ => rfl

theorem leave_eq_running {l : Lifecycle} {left runId generation : Nat} (h : l.leave left = .running runId generation) :
    l = .running runId generation ∧ runId ≠ left := by
  cases l with
  | running current generation' =>
    simp only [leave] at h
    split at h
    · cases h
    · rename_i hne
      cases h
      exact ⟨rfl, hne⟩
  | _ => cases h

theorem leave_eq_removed {l : Lifecycle} {left : Nat} {generation : Option Nat}
    (h : l.leave left = .removed generation) : l = .removed generation := by
  cases l with
  | running current generation' =>
    simp only [leave] at h
    split at h <;> cases h
  | _ => exact h

end Lifecycle

namespace MonitorHub

theorem hasActive_eq_false {h : MonitorHub} {epoch : Nat} :
    h.hasActive epoch = false ↔ ∀ r ∈ h.activeRuns, r.epoch ≠ epoch := by
  simp [hasActive]

theorem mem_onSeat {h : MonitorHub} {seat : Seat} {f : Watch → Watch} {w' : Watch} :
    w' ∈ (h.onSeat seat f).watches ↔ ∃ w ∈ h.watches, (if w.seat = seat then f w else w) = w' := by
  simp [onSeat]

end MonitorHub

namespace Watch

@[simp] theorem notify_live (event : MonitorEventKind) (w : Watch) : (w.notify event).live = w.live := by
  unfold notify
  split
  · rfl
  · split <;> rfl

theorem notify_of_live {w : Watch} (event : MonitorEventKind) (h : w.live = true) :
    w.notify event =
      { w with staged := w.staged ++ if event.before w.minGeneration = false then [event] else [] } := by
  unfold notify
  rw [if_neg (by simp [h])]
  split
  · rename_i hb
    simp [hb]
  · rename_i hb
    simp [Bool.eq_false_iff.mpr hb]

theorem finish_of_live {w : Watch} (event : MonitorEventKind) (h : w.live = true) :
    w.finish event = { w with seat := .gone, staged := w.staged ++ [event] } := by
  simp [finish, h]

end Watch

/-- What is kept by every call of the hub. -/
structure Kept (s : Watched) : Prop where
  chronicle : s.history.Chronicle
  below : ∀ epoch generation, (epoch, .started generation) ∈ s.history → generation < s.hub.nextGeneration
  epochs : ∀ entry ∈ s.history, entry.1 ≤ s.hub.currentEpoch
  last : s.hub.currentLastGeneration = s.history.last s.hub.currentEpoch
  active : ∀ r ∈ s.hub.activeRuns, (r.epoch, .started r.generation) ∈ s.history ∧
    ∀ epoch status, (epoch, .exited r.generation status) ∉ s.history
  distinct : s.hub.activeRuns.Pairwise fun r r' => r.runId ≠ r'.runId ∧ r.generation ≠ r'.generation
  tried : ∀ r ∈ s.hub.activeRuns, r.runId ∈ s.tried
  running : ∀ runId generation, s.hub.lifecycle = .running runId generation →
    ⟨runId, s.hub.currentEpoch, generation⟩ ∈ s.hub.activeRuns ∧ s.hub.nextGeneration = generation + 1
  removed : ∀ generation, s.hub.lifecycle = .removed generation →
    generation = s.hub.currentLastGeneration ∧ s.hub.hasActive s.hub.currentEpoch = false
  retiring : ∀ p ∈ s.hub.retiring, p.1 < s.hub.currentEpoch ∧ p.2 = s.history.last p.1
  told : ∀ w ∈ s.hub.watches, w.live = true → Told s w

namespace Kept

theorem new : Kept Watched.new where
  chronicle := .nil
  below := by simp [Watched.new]
  epochs := by simp [Watched.new]
  last := rfl
  active := by simp [Watched.new, MonitorHub.new]
  distinct := by simp [Watched.new, MonitorHub.new]
  tried := by simp [Watched.new, MonitorHub.new]
  running := by simp [Watched.new, MonitorHub.new]
  removed := by simp [Watched.new, MonitorHub.new]
  retiring := by simp [Watched.new, MonitorHub.new]
  told := by simp [Watched.new, MonitorHub.new]

variable {s : Watched}

theorem beginEpoch (h : Kept s) : Kept { s with hub := s.hub.beginEpoch } := by
  have hnone : s.history.last (s.hub.currentEpoch + 1) = none := by
    unfold History.last
    rw [List.getLast?_eq_none_iff, List.filterMap_eq_nil_iff]
    intro entry hm
    have := h.epochs entry hm
    rw [if_neg (by omega)]
  have hretiring : ∀ p ∈ s.hub.retiring, p.1 < s.hub.currentEpoch + 1 ∧ p.2 = s.history.last p.1 := by
    intro p hp
    obtain ⟨hlt, hlast⟩ := h.retiring p hp
    exact ⟨by omega, hlast⟩
  unfold MonitorHub.beginEpoch
  by_cases hremoved : s.hub.lifecycle.isRemoved = true
  · have hret : s.hub.retireEpoch = s.hub := by simp [MonitorHub.retireEpoch, hremoved]
    rw [hret]
    refine ⟨h.chronicle, h.below, fun e hm => Nat.le_succ_of_le (h.epochs e hm), hnone.symm, h.active, h.distinct,
      h.tried, nofun, nofun, hretiring, ?_⟩
    intro w hw hl
    have ht := h.told w hw hl
    unfold Told at ht ⊢
    split at ht
    · simp_all
    · exact ⟨ht.1, Nat.lt_succ_of_lt ht.2.1, ht.2.2⟩
    · exact ⟨.inl (by simp only; omega), ht.2⟩
  by_cases hactive : s.hub.hasActive s.hub.currentEpoch = true
  · have hret : s.hub.retireEpoch =
        { s.hub.onSeat .current (fun w => { w with seat := .retiring s.hub.currentEpoch }) with
          retiring := s.hub.retiring ++ [(s.hub.currentEpoch, s.hub.currentLastGeneration)] } := by
      simp [MonitorHub.retireEpoch, hremoved, hactive]
    rw [hret]
    refine ⟨h.chronicle, h.below, fun e hm => Nat.le_succ_of_le (h.epochs e hm), hnone.symm, h.active, h.distinct,
      h.tried, nofun, nofun, ?_, ?_⟩
    · intro p hp
      rcases List.mem_append.mp hp with hp | hp
      · exact hretiring p hp
      · rw [List.mem_singleton.mp hp]
        exact ⟨Nat.lt_succ_self _, h.last⟩
    · intro w' hw' hl
      obtain ⟨w, hw, rfl⟩ := MonitorHub.mem_onSeat.mp hw'
      by_cases hseat : w.seat = .current
      · simp only [hseat, if_true] at hl ⊢
        have ht := h.told w hw hl
        simp only [Told, hseat] at ht ⊢
        exact ⟨ht.1, Nat.lt_succ_self _, by simp, ht.2.2⟩
      · simp only [hseat, if_false] at hl ⊢
        have ht := h.told w hw hl
        unfold Told at ht ⊢
        split at ht
        · contradiction
        · exact ⟨ht.1, Nat.lt_succ_of_lt ht.2.1, by simp [ht.2.2.1], ht.2.2.2⟩
        · exact ⟨.inl (by simp only; omega), ht.2⟩
  · have hret : s.hub.retireEpoch = s.hub.onSeat .current (·.finish (.removed s.hub.currentLastGeneration)) := by
      simp [MonitorHub.retireEpoch, hremoved, hactive]
    rw [hret]
    refine ⟨h.chronicle, h.below, fun e hm => Nat.le_succ_of_le (h.epochs e hm), hnone.symm, h.active, h.distinct,
      h.tried, nofun, nofun, hretiring, ?_⟩
    intro w' hw' hl
    obtain ⟨w, hw, rfl⟩ := MonitorHub.mem_onSeat.mp hw'
    by_cases hseat : w.seat = .current
    · simp only [hseat, if_true] at hl ⊢
      have hl : w.live = true := hl
      have ht := h.told w hw hl
      rw [Watch.finish_of_live _ hl]
      simp only [Told, hseat] at ht ⊢
      refine ⟨.inl (by omega), ?_, ?_⟩
      · rw [ht.1]
        exact Bool.eq_false_iff.mpr hactive
      · rw [ht.2.2, h.last, ht.1]
    · simp only [hseat, if_false] at hl ⊢
      have ht := h.told w hw hl
      unfold Told at ht ⊢
      split at ht
      · contradiction
      · exact ⟨ht.1, Nat.lt_succ_of_lt ht.2.1, ht.2.2⟩
      · exact ⟨.inl (by simp only; omega), ht.2⟩

theorem startRun (h : Kept s) {runId : Nat} (hopen : s.hub.lifecycle.isRemoved = false) (hnew : runId ∉ s.tried) :
    Kept { s with
      hub := s.hub.startRun runId
      tried := s.tried ++ [runId]
      history := s.history ++ [(s.hub.currentEpoch, .started s.hub.nextGeneration)] } := by
  have hothers : ∀ r ∈ s.hub.activeRuns, r.runId ≠ runId := by
    rintro r hr rfl
    exact hnew (h.tried r hr)
  have hfilter : s.hub.activeRuns.filter (·.runId ≠ runId) = s.hub.activeRuns := by
    rw [List.filter_eq_self]
    intro r hr
    simpa using hothers r hr
  have hgeneration : ∀ r ∈ s.hub.activeRuns, r.generation < s.hub.nextGeneration := fun r hr =>
    h.below _ _ (h.active r hr).1
  refine ⟨?_, ?_, ?_, ?_, ?_, ?_, ?_, ?_, nofun, ?_, ?_⟩
  · exact .started h.chronicle h.below
  · intro epoch generation hm
    simp only [List.mem_append, List.mem_singleton, Prod.mk.injEq, MonitorEventKind.started.injEq] at hm
    rcases hm with hm | ⟨_, rfl⟩
    · exact Nat.lt_succ_of_lt (h.below _ _ hm)
    · exact Nat.lt_succ_self _
  · intro entry hm
    rcases List.mem_append.mp hm with hm | hm
    · exact h.epochs entry hm
    · rw [List.mem_singleton.mp hm]
      exact Nat.le_refl _
  · exact (History.last_started _ _ _).symm
  · intro r hr
    simp only [MonitorHub.startRun, hfilter] at hr
    rcases List.mem_append.mp hr with hr | hr
    · obtain ⟨hs, hx⟩ := h.active r hr
      exact ⟨List.mem_append_left _ hs, fun e st => by simp [hx e st]⟩
    · rw [List.mem_singleton.mp hr]
      refine ⟨by simp, ?_⟩
      intro epoch status hm
      simp only [List.mem_append, List.mem_singleton, Prod.mk.injEq, reduceCtorEq, and_false, or_false] at hm
      exact Nat.lt_irrefl _ (h.below _ _ (h.chronicle.started_of_exited hm))
  · simp only [MonitorHub.startRun, hfilter]
    rw [List.pairwise_append]
    refine ⟨h.distinct, List.pairwise_singleton _ _, ?_⟩
    intro r hr r' hr'
    rw [List.mem_singleton.mp hr']
    exact ⟨hothers r hr, Nat.ne_of_lt (hgeneration r hr)⟩
  · intro r hr
    simp only [MonitorHub.startRun, hfilter] at hr
    rcases List.mem_append.mp hr with hr | hr
    · exact List.mem_append_left _ (h.tried r hr)
    · rw [List.mem_singleton.mp hr]
      simp
  · intro runId' generation heq
    cases heq
    exact ⟨by simp [MonitorHub.startRun, MonitorHub.onSeat], rfl⟩
  · intro p hp
    obtain ⟨hlt, hlast⟩ := h.retiring p hp
    refine ⟨hlt, ?_⟩
    rw [hlast, History.last_started_ne _ _ (by omega)]
  · intro w' hw' hl
    obtain ⟨w, hw, rfl⟩ := MonitorHub.mem_onSeat.mp hw'
    by_cases hseat : w.seat = .current
    · simp only [hseat, if_true, Watch.notify_live] at hl ⊢
      have ht := h.told w hw hl
      rw [Watch.notify_of_live _ hl]
      simp only [Told, hseat] at ht ⊢
      refine ⟨ht.1, rfl, ?_⟩
      rw [History.tell_append, ht.2.2]
      simp [ht.1]
    · simp only [hseat, if_false] at hl ⊢
      have ht := h.told w hw hl
      unfold Told at ht ⊢
      split at ht
      · contradiction
      · refine ⟨ht.1, ht.2.1, ht.2.2.1, ?_⟩
        rw [History.tell_append_ne _ _ (by simp only; omega)]
        exact ht.2.2.2
      · have hlt : w.epoch < s.hub.currentEpoch := by simpa [hopen] using ht.1
        refine ⟨.inl hlt, ?_, ?_⟩
        · rw [MonitorHub.hasActive_eq_false] at ht ⊢
          simp only [MonitorHub.startRun, hfilter]
          intro r hr
          rcases List.mem_append.mp hr with hr | hr
          · exact ht.2.1 r hr
          · rw [List.mem_singleton.mp hr]
            simp only
            omega
        · rw [History.tell_append_ne _ _ (by simp only; omega), History.last_started_ne _ _ (by omega)]
          exact ht.2.2

theorem started (h : Kept s) {run : MonitorRun} {hub : MonitorHub} {reopened : Bool} (hnew : run.runId ∉ s.tried)
    (hstarted : s.hub.started run = some (hub, reopened)) :
    Kept { s with
      hub := hub
      tried := s.tried ++ [run.runId]
      history := s.history ++ [(hub.currentEpoch, .started s.hub.nextGeneration)] } := by
  unfold MonitorHub.started at hstarted
  simp only at hstarted
  split at hstarted
  · cases hstarted
  split at hstarted
  · cases hstarted
  · rename_i hopen
    by_cases hbegins : run.reopensEpoch = some s.hub.currentEpoch
    · simp only [hbegins, decide_true, if_true, Option.some.injEq, Prod.mk.injEq] at hstarted
      obtain ⟨rfl, _⟩ := hstarted
      have hnext : s.hub.beginEpoch.nextGeneration = s.hub.nextGeneration := by
        unfold MonitorHub.beginEpoch MonitorHub.retireEpoch
        split
        · rfl
        split <;> rfl
      have hkept := h.beginEpoch.startRun rfl hnew
      simp only [hnext] at hkept
      exact hkept
    · simp only [hbegins, decide_false, if_false, Option.some.injEq, Prod.mk.injEq] at hstarted
      obtain ⟨rfl, _⟩ := hstarted
      exact h.startRun (by simpa [hbegins] using hopen) hnew

theorem remove (h : Kept s) (epoch : Nat) : Kept { s with hub := s.hub.removed epoch } := by
  unfold MonitorHub.removed
  split
  · exact h
  split
  · exact h
  split
  · exact ⟨h.chronicle, h.below, h.epochs, h.last, h.active, h.distinct, h.tried, h.running, h.removed, h.retiring,
      h.told⟩
  · rename_i hopen hactive
    have hactive : s.hub.hasActive s.hub.currentEpoch = false := Bool.eq_false_iff.mpr hactive
    refine ⟨h.chronicle, h.below, h.epochs, h.last, h.active, h.distinct, h.tried, nofun, ?_, h.retiring, ?_⟩
    · intro generation heq
      cases heq
      exact ⟨rfl, hactive⟩
    · intro w' hw' hl
      obtain ⟨w, hw, rfl⟩ := MonitorHub.mem_onSeat.mp hw'
      by_cases hseat : w.seat = .current
      · simp only [hseat, if_true] at hl ⊢
        have hl : w.live = true := hl
        have ht := h.told w hw hl
        rw [Watch.finish_of_live _ hl]
        simp only [Told, hseat] at ht ⊢
        refine ⟨.inr ⟨ht.1, rfl⟩, ?_, ?_⟩
        · rw [ht.1]
          exact hactive
        · rw [ht.2.2, h.last, ht.1]
      · simp only [hseat, if_false] at hl ⊢
        have ht := h.told w hw hl
        unfold Told at ht ⊢
        split at ht
        · contradiction
        · exact ht
        · refine ⟨?_, ht.2⟩
          rcases ht.1 with hlt | ⟨heq, _⟩
          · exact .inl hlt
          · exact .inr ⟨heq, rfl⟩

theorem newWatch (h : Kept s) : Told s s.hub.newWatch := by
  have hnil : ∀ epoch, s.history.tell epoch s.hub.nextGeneration = [] := by
    intro epoch
    rw [List.eq_nil_iff_forall_not_mem]
    intro event hevent
    obtain ⟨hm, hb⟩ := History.mem_tell.mp hevent
    cases event with
    | started g =>
      have := h.below _ _ hm
      simp only [MonitorEventKind.before, decide_eq_false_iff_not] at hb
      omega
    | exited g status =>
      have := h.below _ _ (h.chronicle.started_of_exited hm)
      simp only [MonitorEventKind.before, decide_eq_false_iff_not] at hb
      omega
    | removed g => exact h.chronicle.not_removed hm
  unfold MonitorHub.newWatch
  split
  · rename_i generation hl
    obtain ⟨rfl, hactive⟩ := h.removed generation hl
    exact ⟨.inr ⟨rfl, by rw [hl]; rfl⟩, hactive, by simp [hnil, h.last]⟩
  · rename_i runId generation hl
    obtain ⟨hm, hnext⟩ := h.running runId generation hl
    obtain ⟨hs, hx⟩ := h.active _ hm
    refine ⟨rfl, by rw [hl]; rfl, ?_⟩
    refine (h.chronicle.tell_running hs hx ?_).symm
    intro epoch generation' hm'
    have : generation' < generation + 1 := hnext ▸ h.below _ _ hm'
    exact Nat.le_of_lt_succ this
  · rename_i hl
    exact ⟨rfl, by rw [hl]; rfl, (hnil _).symm⟩
  · rename_i hl
    exact ⟨rfl, by rw [hl]; rfl, (hnil _).symm⟩

theorem registerWatch (h : Kept s) : Kept { s with hub := s.hub.registerWatch } := by
  refine ⟨h.chronicle, h.below, h.epochs, h.last, h.active, h.distinct, h.tried, h.running, h.removed, h.retiring, ?_⟩
  intro w' hw' hl
  rcases List.mem_append.mp hw' with hw' | hw'
  · obtain ⟨w, hw, rfl⟩ := MonitorHub.mem_onSeat.mp hw'
    have hlive : (if w.seat = .current then if w.live then w else { w with seat := .gone } else w) = w := by
      split
      · split
        · rfl
        · rename_i hseat hdead
          simp [hseat, hdead] at hl
      · rfl
    rw [hlive] at hl ⊢
    exact h.told w hw hl
  · rw [List.mem_singleton.mp hw']
    exact h.newWatch

theorem exitWith (h : Kept s) {run : ActiveRun} {hub : MonitorHub} {status : ExitStatus} (hr : run ∈ s.hub.activeRuns)
    (hactive : hub.activeRuns = s.hub.activeRuns.filter (·.runId ≠ run.runId))
    (hepoch : hub.currentEpoch = s.hub.currentEpoch)
    (hlast : hub.currentLastGeneration = s.hub.currentLastGeneration)
    (hnext : hub.nextGeneration = s.hub.nextGeneration)
    (hrunning : ∀ runId generation, hub.lifecycle = .running runId generation →
      s.hub.lifecycle = .running runId generation ∧ runId ≠ run.runId)
    (hremoved : ∀ generation, hub.lifecycle = .removed generation →
      generation = s.hub.currentLastGeneration ∧ hub.hasActive s.hub.currentEpoch = false)
    (hretiring : hub.retiring ⊆ s.hub.retiring)
    (htold : ∀ w ∈ hub.watches, w.live = true →
      Told { s with hub := hub, history := s.history ++ [(run.epoch, .exited run.generation status)] } w) :
    Kept { s with hub := hub, history := s.history ++ [(run.epoch, .exited run.generation status)] } := by
  obtain ⟨hs, hx⟩ := h.active run hr
  have hother : ∀ r ∈ hub.activeRuns, r ∈ s.hub.activeRuns ∧ r.generation ≠ run.generation := by
    intro r hr'
    rw [hactive] at hr'
    obtain ⟨hm, hne⟩ := List.mem_filter.mp hr'
    refine ⟨hm, ?_⟩
    have hne : r ≠ run := by
      rintro rfl
      simp at hne
    have : Std.Symm fun r r' : ActiveRun => r.runId ≠ r'.runId ∧ r.generation ≠ r'.generation :=
      ⟨fun _ _ h => ⟨h.1.symm, h.2.symm⟩⟩
    exact (h.distinct.forall hm hr hne).2
  refine ⟨.exited h.chronicle hs hx, ?_, ?_, ?_, ?_, ?_, ?_, ?_, ?_, ?_, htold⟩
  · intro epoch generation hm
    simp only [List.mem_append, List.mem_singleton, Prod.mk.injEq, reduceCtorEq, and_false, or_false] at hm
    simp only [hnext]
    exact h.below _ _ hm
  · intro entry hm
    simp only [hepoch]
    rcases List.mem_append.mp hm with hm | hm
    · exact h.epochs entry hm
    · rw [List.mem_singleton.mp hm]
      exact h.epochs (run.epoch, .started run.generation) hs
  · simp only [hlast, hepoch, History.last_exited]
    exact h.last
  · intro r hr'
    obtain ⟨hm, hne⟩ := hother r hr'
    obtain ⟨hs', hx'⟩ := h.active r hm
    refine ⟨List.mem_append_left _ hs', ?_⟩
    intro epoch status' hm'
    simp only [List.mem_append, List.mem_singleton, Prod.mk.injEq, MonitorEventKind.exited.injEq] at hm'
    rcases hm' with hm' | ⟨_, heq, _⟩
    · exact hx' _ _ hm'
    · exact hne heq
  · simp only [hactive]
    exact h.distinct.filter _
  · intro r hr'
    exact h.tried r (hother r hr').1
  · intro runId generation heq
    obtain ⟨hl, hne⟩ := hrunning runId generation heq
    obtain ⟨hm, hg⟩ := h.running runId generation hl
    refine ⟨?_, hnext ▸ hg⟩
    simp only [hactive, hepoch]
    exact List.mem_filter.mpr ⟨hm, by simpa using hne⟩
  · intro generation heq
    simp only [hlast, hepoch]
    exact hremoved generation heq
  · intro p hp
    simp only [hepoch, History.last_exited]
    exact h.retiring p (hretiring hp)

/-- A watch that is not of the epoch of an exit is told nothing by it. -/
theorem told_exit_ne (h : Kept s) {run : ActiveRun} {hub : MonitorHub} {status : ExitStatus} {w : Watch}
    (hw : w ∈ s.hub.watches) (hl : w.live = true) (hne : w.epoch ≠ run.epoch)
    (hactive : hub.activeRuns = s.hub.activeRuns.filter (·.runId ≠ run.runId))
    (hepoch : hub.currentEpoch = s.hub.currentEpoch)
    (hlifecycle : hub.lifecycle.isRemoved = s.hub.lifecycle.isRemoved ∨ run.epoch = s.hub.currentEpoch)
    (hretiring : ∀ p ∈ s.hub.retiring, p.1 ≠ run.epoch → p ∈ hub.retiring) :
    Told { s with hub := hub, history := s.history ++ [(run.epoch, .exited run.generation status)] } w := by
  have ht := h.told w hw hl
  have htell : History.tell (s.history ++ [(run.epoch, .exited run.generation status)]) w.epoch w.minGeneration =
      s.history.tell w.epoch w.minGeneration := History.tell_append_ne _ _ fun heq => hne heq.symm
  unfold Told at ht ⊢
  simp only [htell, hepoch, History.last_exited]
  split at ht
  · refine ⟨ht.1, ?_, ht.2.2⟩
    rcases hlifecycle with heq | heq
    · exact heq ▸ ht.2.1
    · exact absurd (ht.1.trans heq.symm) hne
  · refine ⟨ht.1, ht.2.1, ?_, ht.2.2.2⟩
    obtain ⟨p, hp, heq⟩ := List.mem_map.mp ht.2.2.1
    exact List.mem_map.mpr ⟨p, hretiring p hp (by rw [heq, ← ht.1]; exact hne), heq⟩
  · refine ⟨?_, ?_, ht.2.2⟩
    · rcases ht.1 with hlt | ⟨heq, hr⟩
      · exact .inl hlt
      · rcases hlifecycle with hl | hl
        · exact .inr ⟨heq, hl ▸ hr⟩
        · exact absurd (heq.trans hl.symm) hne
    · rw [MonitorHub.hasActive_eq_false] at ht ⊢
      simp only [hactive]
      intro r hr
      exact ht.2.1 r (List.mem_of_mem_filter hr)

/-- A watch of the epoch of an exit is told of it, and of the removal where that follows. -/
theorem told_exit_eq (h : Kept s) {run : ActiveRun} {w : Watch} (hr : run ∈ s.hub.activeRuns)
    (hw : w ∈ s.hub.watches) (hl : w.live = true) (heq : w.epoch = run.epoch) (status : ExitStatus) :
    w.seat ≠ .gone ∧ (w.notify (.exited run.generation status)).staged =
      History.tell (s.history ++ [(run.epoch, .exited run.generation status)]) w.epoch w.minGeneration := by
  have ht := h.told w hw hl
  have hstaged : w.seat ≠ .gone ∧ w.staged = s.history.tell w.epoch w.minGeneration := by
    unfold Told at ht
    split at ht
    · rename_i hseat
      exact ⟨by simp [hseat], ht.2.2⟩
    · rename_i hseat
      exact ⟨by simp [hseat], ht.2.2.2⟩
    · exact absurd heq.symm (MonitorHub.hasActive_eq_false.mp ht.2.1 run hr)
  refine ⟨hstaged.1, ?_⟩
  rw [Watch.notify_of_live _ hl, History.tell_append, hstaged.2]
  simp [heq]

/-- The watches of an epoch with an active run are in one list of the hub. -/
theorem seat_iff (h : Kept s) {run : ActiveRun} {w : Watch} (hr : run ∈ s.hub.activeRuns) (hw : w ∈ s.hub.watches)
    (hl : w.live = true) :
    w.seat = (if run.epoch = s.hub.currentEpoch then .current else .retiring run.epoch) ↔ w.epoch = run.epoch := by
  have ht := h.told w hw hl
  unfold Told at ht
  split at ht
  · rename_i hseat
    rw [hseat, ht.1]
    split
    · rename_i heq
      simp [heq]
    · rename_i hne
      simp [Ne.symm hne]
  · rename_i epoch hseat
    rw [hseat, ht.1]
    split
    · simp only [reduceCtorEq, false_iff]
      omega
    · simp
  · rename_i hseat
    have hne := MonitorHub.hasActive_eq_false.mp ht.2.1 run hr
    rw [hseat]
    split <;> simp [hne.symm]

/-- An exit that leaves a run of its epoch active, or no removal due. -/
theorem told_notified (h : Kept s) {run : ActiveRun} {hub : MonitorHub} {status : ExitStatus} {seat : Seat}
    (hr : run ∈ s.hub.activeRuns)
    (hseat : seat = if run.epoch = s.hub.currentEpoch then .current else .retiring run.epoch)
    (hactive : hub.activeRuns = s.hub.activeRuns.filter (·.runId ≠ run.runId))
    (hepoch : hub.currentEpoch = s.hub.currentEpoch)
    (hlifecycle : hub.lifecycle.isRemoved = s.hub.lifecycle.isRemoved)
    (hretiring : hub.retiring = s.hub.retiring)
    (hwatches : hub.watches = (s.hub.onSeat seat (·.notify (.exited run.generation status))).watches) :
    ∀ w ∈ hub.watches, w.live = true →
      Told { s with hub := hub, history := s.history ++ [(run.epoch, .exited run.generation status)] } w := by
  intro w' hw' hl
  rw [hwatches] at hw'
  obtain ⟨w, hw, rfl⟩ := MonitorHub.mem_onSeat.mp hw'
  by_cases hs : w.seat = seat
  · rw [if_pos hs, Watch.notify_live] at hl
    have heq := (h.seat_iff hr hw hl).mp (hs.trans hseat)
    have hstaged := (h.told_exit_eq hr hw hl heq status).2
    have ht := h.told w hw hl
    rw [if_pos hs]
    rw [Watch.notify_of_live _ hl] at hstaged ⊢
    simp only at hstaged
    unfold Told at ht ⊢
    simp only [hepoch, hlifecycle, hretiring, hstaged]
    split at ht
    · exact ⟨ht.1, ht.2.1, trivial⟩
    · exact ⟨ht.1, ht.2.1, ht.2.2.1, trivial⟩
    · exact absurd heq.symm (MonitorHub.hasActive_eq_false.mp ht.2.1 run hr)
  · rw [if_neg hs] at hl ⊢
    have hne : w.epoch ≠ run.epoch := fun heq => hs (((h.seat_iff hr hw hl).mpr heq).trans hseat.symm)
    exact h.told_exit_ne hw hl hne hactive hepoch (.inl hlifecycle) fun p hp _ => hretiring ▸ hp

/-- The last exit of an epoch that is over. -/
theorem told_last (h : Kept s) {run : ActiveRun} {hub : MonitorHub} {status : ExitStatus} {seat : Seat}
    {last : Option Nat} (hr : run ∈ s.hub.activeRuns)
    (hseat : seat = if run.epoch = s.hub.currentEpoch then .current else .retiring run.epoch)
    (hactive : hub.activeRuns = s.hub.activeRuns.filter (·.runId ≠ run.runId))
    (hepoch : hub.currentEpoch = s.hub.currentEpoch)
    (hover : if run.epoch = s.hub.currentEpoch then hub.lifecycle.isRemoved = true
      else hub.lifecycle.isRemoved = s.hub.lifecycle.isRemoved)
    (hretiring : ∀ p ∈ s.hub.retiring, p.1 ≠ run.epoch → p ∈ hub.retiring)
    (hnone : hub.hasActive run.epoch = false) (hlast : last = s.history.last run.epoch)
    (hwatches : hub.watches =
      (s.hub.onSeat seat fun w => (w.notify (.exited run.generation status)).finish (.removed last)).watches) :
    ∀ w ∈ hub.watches, w.live = true →
      Told { s with hub := hub, history := s.history ++ [(run.epoch, .exited run.generation status)] } w := by
  intro w' hw' hl
  rw [hwatches] at hw'
  obtain ⟨w, hw, rfl⟩ := MonitorHub.mem_onSeat.mp hw'
  by_cases hs : w.seat = seat
  · rw [if_pos hs] at hl
    have hl : w.live = true := (Watch.notify_live (.exited run.generation status) w).symm.trans hl
    have heq := (h.seat_iff hr hw hl).mp (hs.trans hseat)
    have hstaged := (h.told_exit_eq hr hw hl heq status).2
    rw [if_pos hs, Watch.finish_of_live _ ((Watch.notify_live _ w).trans hl), hstaged]
    rw [Watch.notify_of_live _ hl]
    have hle := h.epochs _ (h.active run hr).1
    refine ⟨?_, ?_, ?_⟩
    · simp only [heq, hepoch]
      split at hover
      · exact .inr ⟨‹_›, hover⟩
      · exact .inl (by simp only at hle; omega)
    · simp only [heq]
      exact hnone
    · simp only [heq, hlast, History.last_exited]
  · rw [if_neg hs] at hl ⊢
    have hne : w.epoch ≠ run.epoch := fun heq => hs (((h.seat_iff hr hw hl).mpr heq).trans hseat.symm)
    refine h.told_exit_ne hw hl hne hactive hepoch ?_ hretiring
    split at hover
    · exact .inr ‹_›
    · exact .inl hover

theorem exitedCurrent (h : Kept s) {run : ActiveRun} (hr : run ∈ s.hub.activeRuns)
    (hcurrent : run.epoch = s.hub.currentEpoch) (status : ExitStatus) :
    Kept { s with
      hub := MonitorHub.exitedCurrent
        { s.hub with activeRuns := s.hub.activeRuns.filter (·.runId ≠ run.runId) } run status
      history := s.history ++ [(run.epoch, .exited run.generation status)] } := by
  have hseat : Seat.current = if run.epoch = s.hub.currentEpoch then .current else .retiring run.epoch := by
    rw [if_pos hcurrent]
  unfold MonitorHub.exitedCurrent
  simp only
  split
  · rename_i hend
    simp only [Bool.and_eq_true, Bool.not_eq_eq_eq_not, Bool.not_true] at hend
    refine h.exitWith hr rfl rfl rfl rfl nofun ?_ (List.Subset.refl _) ?_
    · intro generation heq
      cases heq
      exact ⟨rfl, hcurrent ▸ hend.2⟩
    · exact h.told_last hr hseat rfl rfl (by rw [if_pos hcurrent]; rfl) (fun p hp _ => hp) hend.2
        (by rw [h.last, hcurrent]) rfl
  · refine h.exitWith hr rfl rfl rfl rfl ?_ ?_ (List.Subset.refl _) ?_
    · intro runId generation heq
      exact Lifecycle.leave_eq_running heq
    · intro generation heq
      obtain ⟨hlast, hnone⟩ := h.removed generation (Lifecycle.leave_eq_removed heq)
      refine ⟨hlast, ?_⟩
      exact absurd hcurrent (MonitorHub.hasActive_eq_false.mp hnone run hr)
    · exact h.told_notified hr hseat rfl rfl (Lifecycle.leave_isRemoved _ _) rfl rfl

theorem exitedRetiring (h : Kept s) {run : ActiveRun} (hr : run ∈ s.hub.activeRuns)
    (hold : run.epoch ≠ s.hub.currentEpoch) (status : ExitStatus) :
    Kept { s with
      hub := MonitorHub.exitedRetiring
        { s.hub with activeRuns := s.hub.activeRuns.filter (·.runId ≠ run.runId) } run status
      history := s.history ++ [(run.epoch, .exited run.generation status)] } := by
  have hseat : Seat.retiring run.epoch = if run.epoch = s.hub.currentEpoch then .current else .retiring run.epoch := by
    rw [if_neg hold]
  have hrunning : ∀ runId generation, s.hub.lifecycle = .running runId generation →
      s.hub.lifecycle = .running runId generation ∧ runId ≠ run.runId := by
    intro runId generation heq
    refine ⟨heq, ?_⟩
    rintro rfl
    have hm := (h.running _ _ heq).1
    have : Std.Symm fun r r' : ActiveRun => r.runId ≠ r'.runId ∧ r.generation ≠ r'.generation :=
      ⟨fun _ _ h => ⟨h.1.symm, h.2.symm⟩⟩
    have hne : run ≠ ⟨run.runId, s.hub.currentEpoch, generation⟩ := fun heq => hold (by rw [heq])
    exact (h.distinct.forall hr hm hne).1 rfl
  have hremoved : ∀ generation, s.hub.lifecycle = .removed generation →
      generation = s.hub.currentLastGeneration ∧
        MonitorHub.hasActive { s.hub with activeRuns := s.hub.activeRuns.filter (·.runId ≠ run.runId) }
          s.hub.currentEpoch = false := by
    intro generation heq
    obtain ⟨hlast, hnone⟩ := h.removed generation heq
    refine ⟨hlast, ?_⟩
    rw [MonitorHub.hasActive_eq_false] at hnone ⊢
    intro r hr'
    exact hnone r (List.mem_of_mem_filter hr')
  unfold MonitorHub.exitedRetiring
  simp only
  split
  · rename_i hfind
    refine h.exitWith hr rfl rfl rfl rfl hrunning hremoved (List.Subset.refl _) ?_
    intro w hw hl
    have hne : w.epoch ≠ run.epoch := by
      intro heq
      have ht := h.told w hw hl
      have hs := (h.seat_iff hr hw hl).mpr heq
      rw [← hseat] at hs
      simp only [Told, hs] at ht
      obtain ⟨p, hp, heq⟩ := List.mem_map.mp ht.2.2.1
      simpa [heq] using List.find?_eq_none.mp hfind p hp
    exact h.told_exit_ne hw hl hne rfl rfl (.inl rfl) fun p hp _ => hp
  · rename_i epoch last hfind
    have hepoch : epoch = run.epoch := by simpa using List.find?_some hfind
    have hlast := (h.retiring _ (List.mem_of_find?_eq_some hfind)).2
    split
    · refine h.exitWith hr rfl rfl rfl rfl hrunning hremoved (List.Subset.refl _) ?_
      exact h.told_notified hr hseat rfl rfl rfl rfl rfl
    · rename_i hnone
      refine h.exitWith hr rfl rfl rfl rfl hrunning hremoved List.eraseP_subset ?_
      refine h.told_last hr hseat rfl rfl (by rw [if_neg hold]; rfl) ?_ (Bool.eq_false_iff.mpr hnone) (hepoch ▸ hlast) rfl
      intro p hp hne
      exact (List.mem_eraseP_of_neg (by simpa using hne)).mpr hp

theorem exit (h : Kept s) {run : ActiveRun} {runId : Nat}
    (hfind : s.hub.activeRuns.find? (·.runId = runId) = some run) (status : ExitStatus) :
    Kept { s with
      hub := s.hub.exited runId status
      history := s.history ++ [(run.epoch, .exited run.generation status)] } := by
  have hid : run.runId = runId := by simpa using List.find?_some hfind
  have hr := List.mem_of_find?_eq_some hfind
  subst hid
  unfold MonitorHub.exited
  rw [hfind]
  simp only
  split
  · exact h.exitedCurrent hr ‹_› status
  · exact h.exitedRetiring hr ‹_› status

theorem step (h : Kept s) {s' : Watched} {a : MonitorAction} (hs : s.step a = some s') : Kept s' := by
  cases a with
  | newRun reopens =>
    cases hs
    exact ⟨h.chronicle, h.below, h.epochs, h.last, h.active, h.distinct, h.tried, h.running, h.removed, h.retiring,
      h.told⟩
  | started run =>
    simp only [Watched.step] at hs
    split at hs
    · rename_i hrun
      split at hs
      · rename_i hub _ hstarted
        cases hs
        exact h.started hrun.2 hstarted
      · cases hs
        exact ⟨h.chronicle, h.below, h.epochs, h.last, h.active, h.distinct,
          fun r hr => List.mem_append_left _ (h.tried r hr), h.running, h.removed, h.retiring, h.told⟩
    · cases hs
  | exited runId status =>
    simp only [Watched.step] at hs
    split at hs
    · rename_i run hfind
      cases hs
      exact h.exit hfind status
    · rename_i hfind
      cases hs
      have : s.hub.exited runId status = s.hub := by simp [MonitorHub.exited, hfind]
      rw [this]
      exact h
  | removed epoch =>
    cases hs
    exact h.remove epoch
  | registerWatch =>
    cases hs
    exact h.registerWatch
  | cancelWatch index =>
    cases hs
    refine ⟨h.chronicle, h.below, h.epochs, h.last, h.active, h.distinct, h.tried, h.running, h.removed, h.retiring,
      ?_⟩
    intro w hw hl
    obtain ⟨j, hj⟩ := List.mem_iff_getElem?.mp hw
    rw [List.getElem?_modify] at hj
    obtain ⟨w₀, hw₀, heq⟩ := Option.map_eq_some_iff.mp hj
    split at heq
    · subst heq
      cases hl
    · cases heq
      exact h.told w (List.mem_of_getElem? hw₀) hl

end Kept

/-! ## Reporting an exit -/

structure ExitReporter where
  fallback : ExitStatus
  shutdownRequested : Bool
  reported : Bool
  deriving DecidableEq, Repr

inductive ReporterCall where
  | shutdownRequested
  | aborted (afterGrace : Bool)
  /-- With the message of the error, if there is one. -/
  | reportResult (message : Option String)
  | reportPanicked
  | reportFallback
  deriving DecidableEq, Repr

namespace ReporterCall

def isReport : ReporterCall → Bool
  | reportResult _ | reportPanicked | reportFallback => true
  | _ => false

end ReporterCall

namespace ExitReporter

def new (droppedIsCancelled : Bool) : ExitReporter := ⟨⟨.aborted false, droppedIsCancelled⟩, false, false⟩

/-- The fallback of a run that was asked to stop. -/
def cancelled (fallback : ExitStatus) : ExitStatus :=
  match fallback.kind with
  | .aborted _ => { fallback with cancelled := true }
  | _ => fallback

/-- A call, and the status it passes to `exited` if it claims the report. -/
def call (r : ExitReporter) : ReporterCall → ExitReporter × Option ExitStatus
  | .shutdownRequested =>
    if r.reported then (r, none)
    else ({ r with shutdownRequested := true, fallback := cancelled r.fallback }, none)
  | .aborted afterGrace =>
    if r.reported then (r, none)
    else ({ r with shutdownRequested := true, fallback := ⟨.aborted afterGrace, true⟩ }, none)
  | .reportResult message =>
    if r.reported then (r, none)
    else
      let kind := match message with
        | some message => ExitKind.failed message
        | none => .completed
      ({ r with reported := true }, some ⟨kind, r.shutdownRequested⟩)
  | .reportPanicked =>
    if r.reported then (r, none) else ({ r with reported := true }, some ⟨.panicked, r.shutdownRequested⟩)
  | .reportFallback => if r.reported then (r, none) else ({ r with reported := true }, some r.fallback)

/-- What `exited` is called with, over a sequence of calls. -/
def exits : ExitReporter → List ReporterCall → List ExitStatus
  | _, [] => []
  | r, c :: calls => (r.call c).2.toList ++ exits (r.call c).1 calls

theorem exits_of_reported {r : ExitReporter} (h : r.reported = true) (calls : List ReporterCall) :
    r.exits calls = [] := by
  induction calls with
  | nil => rfl
  | cons c calls ih =>
    have hcall : r.call c = (r, none) := by
      cases c <;> simp [call, h]
    simp [exits, hcall, ih]

theorem exits_length {r : ExitReporter} (h : r.reported = false) (calls : List ReporterCall) :
    (r.exits calls).length = if calls.any (·.isReport) then 1 else 0 := by
  induction calls generalizing r with
  | nil => rfl
  | cons c calls ih =>
    cases hc : c.isReport with
    | true =>
      have hclaim : (r.call c).2.isSome ∧ (r.call c).1.reported = true := by
        cases c <;> simp_all [call, ReporterCall.isReport]
      obtain ⟨status, hstatus⟩ := Option.isSome_iff_exists.mp hclaim.1
      simp [exits, hstatus, exits_of_reported hclaim.2, hc]
    | false =>
      have hquiet : (r.call c).2 = none ∧ (r.call c).1.reported = false := by
        cases c <;> simp_all [call, ReporterCall.isReport]
      simp [exits, hquiet.1, ih hquiet.2, hc]

end ExitReporter

/-- How the task of an actor's run ends. It holds an `ActorTaskExitGuard` from before it
    binds until its very end. -/
inductive TaskEnd where
  | returned (message : Option String)
  /-- It was superseded before it could bind. -/
  | superseded
  | panicked
  /-- Its future is dropped: it was aborted. -/
  | dropped
  deriving DecidableEq, Repr

/-- The calls of the task; the last is the guard's `drop`. -/
def TaskEnd.calls : TaskEnd → List ReporterCall
  | returned message => [.reportResult message, .reportFallback]
  | superseded => [.reportFallback]
  | panicked => [.reportPanicked]
  | dropped => [.reportFallback]

/-! ## The contract is kept -/

/-- In every sequence of calls of the hub every live watch gets what the contract says.
    The reporter calls `exited` once if any report is made and never otherwise, and
    whatever the controller calls in between, the task of a run makes one. -/
theorem monitor_contract :
    (∀ s, Reach Watched.step Watched.new s → ∀ w ∈ s.hub.watches, w.live = true → Contract s w) ∧
    (∀ cancelled calls, ((ExitReporter.new cancelled).exits calls).length =
      if calls.any (·.isReport) then 1 else 0) ∧
    (∀ cancelled calls (e : TaskEnd), calls.filter (·.isReport) = e.calls →
      ((ExitReporter.new cancelled).exits calls).length = 1) := by
  refine ⟨?_, ?_, ?_⟩
  · intro s h w hw hl
    have hkept := h.invariant Kept.new fun _ _ _ hk hs => hk.step hs
    exact contract_of_told hkept.chronicle (hkept.told w hw hl)
  · intro cancelled calls
    exact ExitReporter.exits_length rfl calls
  · intro cancelled calls e he
    rw [ExitReporter.exits_length rfl, if_pos]
    have hne : calls.filter (·.isReport) ≠ [] := by
      rw [he]
      cases e <;> simp [TaskEnd.calls]
    obtain ⟨c, hc⟩ := List.exists_mem_of_ne_nil _ hne
    obtain ⟨hm, hreport⟩ := List.mem_filter.mp hc
    exact List.any_eq_true.mpr ⟨c, hm, hreport⟩

end Kokage.Actor
