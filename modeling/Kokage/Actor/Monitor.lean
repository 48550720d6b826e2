/-
  Kokage.Actor.Monitor — what a watch on an actor is told (`actor/monitor.rs`).

  `Watched` is a hub with the history of its runs: each start and each exit, in order,
  with the epoch of the run. Runs may overlap, and a run may begin a new epoch while
  those of the old one are still active. The stream of a live watch is a function of the
  history: the starts and exits of the watch's epoch from its floor on, and the removal
  after them if the epoch is over (`Told`). What the contract says of the stream is then
  read off the history (`Chronicle`, `contract_of_told`). That every call of the hub keeps
  `Told` is in `Kokage.Actor.Streams`.
-/

import Kokage.Lib.Steps
import Kokage.Actor.Binding

namespace Kokage.Actor

open Kokage.Lib
open Kokage.Supervisor

/-! ## The hub and its history -/

abbrev History := List (Nat × MonitorEventKind)

structure Watched where
  hub : MonitorHub
  minted : List MonitorRun
  /-- The runs that have called `started`. -/
  tried : List Nat
  history : History
  deriving DecidableEq, Repr

inductive MonitorAction where
  | newRun (reopensTerminal : Bool)
  | started (run : MonitorRun)
  | exited (runId : Nat) (status : ExitStatus)
  | removed (epoch : Nat)
  | registerWatch
  | cancelWatch (index : Nat)
  deriving DecidableEq, Repr

namespace Watched

def new : Watched := ⟨.new, [], [], []⟩

/-- Each run calls `started` once. An exit of a run that is not active is ignored. -/
def step (s : Watched) : MonitorAction → Option Watched
  | .newRun reopens =>
    let (hub, run) := s.hub.newRun reopens
    some { s with hub := hub, minted := s.minted ++ [run] }
  | .started run =>
    if run ∈ s.minted ∧ run.runId ∉ s.tried then
      match s.hub.started run with
      | some (hub, _) =>
        some { s with
          hub := hub
          tried := s.tried ++ [run.runId]
          history := s.history ++ [(hub.currentEpoch, .started s.hub.nextGeneration)] }
      | none => some { s with tried := s.tried ++ [run.runId] }
    else none
  | .exited runId status =>
    match s.hub.activeRuns.find? (·.runId = runId) with
    | some run =>
      some { s with
        hub := s.hub.exited runId status
        history := s.history ++ [(run.epoch, .exited run.generation status)] }
    | none => some { s with hub := s.hub.exited runId status }
  | .removed epoch => some { s with hub := s.hub.removed epoch }
  | .registerWatch => some { s with hub := s.hub.registerWatch }
  | .cancelWatch index =>
    some { s with
      hub := { s.hub with watches := s.hub.watches.modify index fun w => { w with live := false } } }

end Watched

/-! ## Histories -/

namespace History

/-- The part of a history that a watch of an epoch, with its floor, is told. -/
def tell (H : History) (epoch floor : Nat) : List MonitorEventKind :=
  H.filterMap fun entry => if entry.1 = epoch ∧ entry.2.before floor = false then some entry.2 else none

def generation? : MonitorEventKind → Option Nat
  | .started g => some g
  | _ => none

/-- The last generation of an epoch. -/
def last (H : History) (epoch : Nat) : Option Nat :=
  (H.filterMap fun entry => if entry.1 = epoch then generation? entry.2 else none).getLast?

@[simp] theorem tell_nil (epoch floor : Nat) : tell [] epoch floor = [] := rfl

theorem tell_append (H : History) (entry : Nat × MonitorEventKind) (epoch floor : Nat) :
    tell (H ++ [entry]) epoch floor =
      tell H epoch floor ++ if entry.1 = epoch ∧ entry.2.before floor = false then [entry.2] else [] := by
  unfold tell
  rw [List.filterMap_append]
  congr 1
  by_cases h : entry.1 = epoch ∧ entry.2.before floor = false <;> simp [h]

theorem tell_append_ne {entry : Nat × MonitorEventKind} {epoch : Nat} (H : History) (floor : Nat)
    (h : entry.1 ≠ epoch) : tell (H ++ [entry]) epoch floor = tell H epoch floor := by
  simp [tell_append, h]

theorem last_started (H : History) (epoch generation : Nat) :
    last (H ++ [(epoch, .started generation)]) epoch = some generation := by
  simp [last, List.filterMap_append, generation?]

theorem last_started_ne {epoch epoch' : Nat} (H : History) (generation : Nat) (h : epoch' ≠ epoch) :
    last (H ++ [(epoch', .started generation)]) epoch = last H epoch := by
  simp [last, List.filterMap_append, h]

theorem last_exited (H : History) (epoch epoch' generation : Nat) (status : ExitStatus) :
    last (H ++ [(epoch', .exited generation status)]) epoch = last H epoch := by
  simp only [last, List.filterMap_append, List.filterMap_cons, List.filterMap_nil, generation?]
  split <;> simp_all

theorem mem_tell {H : History} {epoch floor : Nat} {event : MonitorEventKind} :
    event ∈ tell H epoch floor ↔ (epoch, event) ∈ H ∧ event.before floor = false := by
  unfold tell
  rw [List.mem_filterMap]
  constructor
  · rintro ⟨⟨epoch', event'⟩, hm, heq⟩
    simp only at heq
    split at heq
    · rename_i hcond
      cases heq
      exact ⟨hcond.1 ▸ hm, hcond.2⟩
    · cases heq
  · rintro ⟨hm, hb⟩
    exact ⟨(epoch, event), hm, by simp [hb]⟩

/-- A history that runs can leave: each start takes a new generation, and an exit follows
    the start of its own generation, once. -/
inductive Chronicle : History → Prop
  | nil : Chronicle []
  | started {H : History} {epoch generation : Nat} : Chronicle H →
      (∀ epoch' generation', (epoch', .started generation') ∈ H → generation' < generation) →
      Chronicle (H ++ [(epoch, .started generation)])
  | exited {H : History} {epoch generation : Nat} {status : ExitStatus} : Chronicle H →
      (epoch, .started generation) ∈ H →
      (∀ epoch' status', (epoch', .exited generation status') ∉ H) →
      Chronicle (H ++ [(epoch, .exited generation status)])

theorem Chronicle.not_removed {H : History} (h : Chronicle H) {epoch : Nat} {generation : Option Nat} :
    (epoch, .removed generation) ∉ H := by
  induction h with
  | nil => simp
  | started _ _ ih => simpa using ih
  | exited _ _ _ ih => simpa using ih

theorem Chronicle.epoch_unique {H : History} (h : Chronicle H) {epoch epoch' generation : Nat}
    (h1 : (epoch, .started generation) ∈ H) (h2 : (epoch', .started generation) ∈ H) : epoch = epoch' := by
  induction h with
  | nil => cases h1
  | started _ hlt ih =>
    simp only [List.mem_append, List.mem_singleton, Prod.mk.injEq, MonitorEventKind.started.injEq] at h1 h2
    rcases h1 with h1 | ⟨he1, hg1⟩ <;> rcases h2 with h2 | ⟨he2, hg2⟩
    · exact ih h1 h2
    · exact absurd (hlt _ _ h1) (by omega)
    · exact absurd (hlt _ _ h2) (by omega)
    · exact he1.trans he2.symm
  | exited _ _ _ ih =>
    simp only [List.mem_append, List.mem_singleton, Prod.mk.injEq, reduceCtorEq, and_false, or_false] at h1 h2
    exact ih h1 h2

theorem Chronicle.started_of_exited {H : History} (h : Chronicle H) {epoch generation : Nat} {status : ExitStatus}
    (hm : (epoch, .exited generation status) ∈ H) : (epoch, .started generation) ∈ H := by
  induction h with
  | nil => cases hm
  | started _ _ ih =>
    simp only [List.mem_append, List.mem_singleton, Prod.mk.injEq, reduceCtorEq, and_false, or_false] at hm
    exact List.mem_append_left _ (ih hm)
  | exited _ hs _ ih =>
    simp only [List.mem_append, List.mem_singleton, Prod.mk.injEq, MonitorEventKind.exited.injEq] at hm
    rcases hm with hm | ⟨rfl, rfl, rfl⟩
    · exact List.mem_append_left _ (ih hm)
    · exact List.mem_append_left _ hs

/-- A generation that was just started and has not exited is all that a watch with this
    floor is told. -/
theorem Chronicle.tell_running {H : History} (h : Chronicle H) {epoch generation : Nat}
    (hs : (epoch, .started generation) ∈ H) (hx : ∀ epoch' status, (epoch', .exited generation status) ∉ H)
    (hmax : ∀ epoch' generation', (epoch', .started generation') ∈ H → generation' ≤ generation) :
    tell H epoch generation = [.started generation] := by
  induction h with
  | nil => cases hs
  | @started H epoch' generation' h hlt ih =>
    rw [tell_append]
    simp only [List.mem_append, List.mem_singleton, Prod.mk.injEq, MonitorEventKind.started.injEq] at hs
    rcases hs with hs | ⟨rfl, rfl⟩
    · have h1 := hlt _ _ hs
      have h2 := hmax epoch' generation' (by simp)
      omega
    · have hnil : tell H epoch generation = [] := by
        rw [List.eq_nil_iff_forall_not_mem]
        intro event hevent
        obtain ⟨hm, hb⟩ := mem_tell.mp hevent
        cases event with
        | started g =>
          have := hlt _ _ hm
          simp only [MonitorEventKind.before, decide_eq_false_iff_not] at hb
          omega
        | exited g status =>
          have := hlt _ _ (h.started_of_exited hm)
          simp only [MonitorEventKind.before, decide_eq_false_iff_not] at hb
          omega
        | removed g => exact h.not_removed hm
      simp [hnil, MonitorEventKind.before]
  | @exited H epoch' generation' status h hstarted hnone ih =>
    simp only [List.mem_append, List.mem_singleton, Prod.mk.injEq, reduceCtorEq, and_false, or_false] at hs
    have hne : generation' ≠ generation := by
      rintro rfl
      exact hx epoch' status (by simp)
    have hle := hmax epoch' generation' (by simp [hstarted])
    have htell := ih hs (fun e st hm => hx e st (by simp [hm])) (fun e g hm => hmax e g (by simp [hm]))
    rw [tell_append, htell]
    have : generation' < generation := by omega
    simp [MonitorEventKind.before, this]

/-- A stream of starts and exits in which each start takes a new generation, and an exit
    follows the start of its own generation, once. -/
inductive Coherent : List MonitorEventKind → Prop
  | nil : Coherent []
  | started {T : List MonitorEventKind} {generation : Nat} : Coherent T →
      (∀ generation', .started generation' ∈ T → generation' < generation) → Coherent (T ++ [.started generation])
  | exited {T : List MonitorEventKind} {generation : Nat} {status : ExitStatus} : Coherent T →
      .started generation ∈ T → (∀ status', .exited generation status' ∉ T) →
      Coherent (T ++ [.exited generation status])

theorem Chronicle.coherent {H : History} (h : Chronicle H) (epoch floor : Nat) : Coherent (tell H epoch floor) := by
  induction h with
  | nil => exact .nil
  | started _ hlt ih =>
    rw [tell_append]
    split
    · refine .started ih ?_
      intro generation' hm
      exact hlt _ _ (mem_tell.mp hm).1
    · simpa using ih
  | exited _ hs hnone ih =>
    rw [tell_append]
    split
    · rename_i hcond
      obtain ⟨rfl, hb⟩ := hcond
      refine .exited ih (mem_tell.mpr ⟨hs, hb⟩) ?_
      intro status' hm
      exact hnone _ _ (mem_tell.mp hm).1
    · simpa using ih

theorem Coherent.increasing {T : List MonitorEventKind} (h : Coherent T) :
    (T.filterMap generation?).Pairwise (· < ·) := by
  induction h with
  | nil => simp
  | @started T generation _ hlt ih =>
    rw [List.filterMap_append, List.pairwise_append]
    refine ⟨ih, by simp [generation?], ?_⟩
    intro g hg g' hg'
    obtain ⟨event, hm, heq⟩ := List.mem_filterMap.mp hg
    have hg' : g' = generation := by simpa [generation?] using hg'
    cases event with
    | started _ =>
      cases heq
      exact hg' ▸ hlt _ hm
    | _ => cases heq
  | exited _ _ _ ih => simpa [List.filterMap_append, List.filterMap_cons, generation?] using ih

theorem Coherent.exit_once {T : List MonitorEventKind} (h : Coherent T) {before after : List MonitorEventKind}
    {generation : Nat} {status : ExitStatus} (heq : T = before ++ .exited generation status :: after) :
    .started generation ∈ before ∧
      ∀ status', .exited generation status' ∉ before ∧ .exited generation status' ∉ after := by
  induction h generalizing after with
  | nil => simp at heq
  | started h hlt ih =>
    rcases List.eq_nil_or_concat after with rfl | ⟨after', event, rfl⟩
    · have := List.append_inj_right' heq rfl
      simp at this
    · rw [List.concat_eq_append, ← List.cons_append, ← List.append_assoc] at heq
      have hlast := List.append_inj_right' heq rfl
      obtain ⟨hs, hnone⟩ := ih (List.append_inj_left' heq rfl)
      refine ⟨hs, fun status' => ⟨(hnone status').1, ?_⟩⟩
      simp only [List.cons.injEq, and_true] at hlast
      simp [← hlast, (hnone status').2]
  | @exited T g st h hstarted hnone ih =>
    rcases List.eq_nil_or_concat after with rfl | ⟨after', event, rfl⟩
    · have hinit := List.append_inj_left' heq rfl
      have hlast := List.append_inj_right' heq rfl
      simp only [List.cons.injEq, MonitorEventKind.exited.injEq, and_true] at hlast
      obtain ⟨rfl, rfl⟩ := hlast
      subst hinit
      exact ⟨hstarted, fun status' => ⟨hnone status', by simp⟩⟩
    · rw [List.concat_eq_append, ← List.cons_append, ← List.append_assoc] at heq
      have hlast := List.append_inj_right' heq rfl
      have hinit := List.append_inj_left' heq rfl
      obtain ⟨hs, hother⟩ := ih hinit
      refine ⟨hs, fun status' => ⟨(hother status').1, ?_⟩⟩
      simp only [List.cons.injEq, and_true] at hlast
      subst hlast
      simp only [List.concat_eq_append, List.mem_append, List.mem_singleton, MonitorEventKind.exited.injEq, not_or]
      refine ⟨(hother status').2, ?_⟩
      rintro ⟨rfl, _⟩
      exact hnone status (hinit ▸ by simp)

theorem Coherent.not_removed {T : List MonitorEventKind} (h : Coherent T) (generation : Option Nat) :
    .removed generation ∉ T := by
  induction h with
  | nil => simp
  | started _ _ ih => simpa using ih
  | exited _ _ _ ih => simpa using ih

end History

/-! ## The contract -/

/-- What a watch is promised about its stream. -/
structure Contract (s : Watched) (w : Watch) : Prop where
  increasing : (w.staged.filterMap History.generation?).Pairwise (· < ·)
  exit_once : ∀ before after generation status, w.staged = before ++ .exited generation status :: after →
    .started generation ∈ before ∧
      ∀ status', .exited generation status' ∉ before ∧ .exited generation status' ∉ after
  exit_told : ∀ generation status, .started generation ∈ w.staged →
    (.exited generation status ∈ w.staged ↔ (w.epoch, .exited generation status) ∈ s.history)
  removed_last : ∀ before after generation, w.staged = before ++ .removed generation :: after →
    after = [] ∧ (∀ generation', .removed generation' ∉ before) ∧
      generation = s.history.last w.epoch ∧ s.hub.hasActive w.epoch = false
  own_epoch : ∀ event ∈ w.staged, event.isRemoved ∨
    (w.epoch, event) ∈ s.history ∧ ∀ epoch, (epoch, event) ∈ s.history → epoch = w.epoch

/-- The stream of a watch, as the history has it. -/
def Told (s : Watched) (w : Watch) : Prop :=
  match w.seat with
  | .current =>
    w.epoch = s.hub.currentEpoch ∧ s.hub.lifecycle.isRemoved = false ∧
      w.staged = s.history.tell w.epoch w.minGeneration
  | .retiring epoch =>
    w.epoch = epoch ∧ epoch < s.hub.currentEpoch ∧ epoch ∈ s.hub.retiring.map (·.1) ∧
      w.staged = s.history.tell w.epoch w.minGeneration
  | .gone =>
    (w.epoch < s.hub.currentEpoch ∨ w.epoch = s.hub.currentEpoch ∧ s.hub.lifecycle.isRemoved = true) ∧
      s.hub.hasActive w.epoch = false ∧
      w.staged = s.history.tell w.epoch w.minGeneration ++ [.removed (s.history.last w.epoch)]

theorem contract_of_told {s : Watched} {w : Watch} (hc : s.history.Chronicle) (ht : Told s w) : Contract s w := by
  have hco := hc.coherent w.epoch w.minGeneration
  -- the stream without the removal, and the removal if there is one
  have hstaged : w.staged = s.history.tell w.epoch w.minGeneration ∨
      s.hub.hasActive w.epoch = false ∧
        w.staged = s.history.tell w.epoch w.minGeneration ++ [.removed (s.history.last w.epoch)] := by
    unfold Told at ht
    split at ht
    · exact .inl ht.2.2
    · exact .inl ht.2.2.2
    · exact .inr ht.2
  have hmem : ∀ event, event.isRemoved = false →
      (event ∈ w.staged ↔ event ∈ s.history.tell w.epoch w.minGeneration) := by
    intro event hevent
    rcases hstaged with h | ⟨_, h⟩
    · rw [h]
    · rw [h, List.mem_append, List.mem_singleton]
      constructor
      · rintro (hm | rfl)
        · exact hm
        · cases hevent
      · exact .inl
  refine ⟨?_, ?_, ?_, ?_, ?_⟩
  · rcases hstaged with h | ⟨_, h⟩
    · rw [h]
      exact hco.increasing
    · simpa [h, List.filterMap_append, List.filterMap_cons, History.generation?] using hco.increasing
  · intro before after generation status heq
    rcases hstaged with h | ⟨_, h⟩
    · exact hco.exit_once (h ▸ heq)
    · rw [h] at heq
      rcases List.eq_nil_or_concat after with rfl | ⟨after', event, rfl⟩
      · have := List.append_inj_right' heq rfl
        simp at this
      · rw [List.concat_eq_append, ← List.cons_append, ← List.append_assoc] at heq
        have hlast := List.append_inj_right' heq rfl
        obtain ⟨hs, hnone⟩ := hco.exit_once (List.append_inj_left' heq rfl)
        refine ⟨hs, fun status' => ⟨(hnone status').1, ?_⟩⟩
        simp only [List.cons.injEq, and_true] at hlast
        simp [← hlast, (hnone status').2]
  · intro generation status hs
    have hb := (History.mem_tell.mp ((hmem _ rfl).mp hs)).2
    rw [hmem _ rfl, History.mem_tell]
    exact ⟨fun h => h.1, fun h => ⟨h, hb⟩⟩
  · intro before after generation heq
    rcases hstaged with h | ⟨hactive, h⟩
    · exact absurd (by rw [← h, heq]; simp) (hco.not_removed generation)
    · rw [h] at heq
      rcases List.eq_nil_or_concat after with rfl | ⟨after', event, rfl⟩
      · have hinit := List.append_inj_left' heq rfl
        have hlast := List.append_inj_right' heq rfl
        simp only [List.cons.injEq, MonitorEventKind.removed.injEq, and_true] at hlast
        exact ⟨rfl, fun generation' => hinit ▸ hco.not_removed generation', hlast.symm, hactive⟩
      · rw [List.concat_eq_append, ← List.cons_append, ← List.append_assoc] at heq
        have hinit := List.append_inj_left' heq rfl
        exact absurd (by rw [hinit]; simp) (hco.not_removed generation)
  · intro event hevent
    cases hremoved : event.isRemoved with
    | true => exact .inl rfl
    | false =>
      have hm := (History.mem_tell.mp ((hmem _ hremoved).mp hevent)).1
      refine .inr ⟨hm, ?_⟩
      intro epoch hm'
      cases event with
      | started g => exact hc.epoch_unique hm' hm
      | exited g st => exact hc.epoch_unique (hc.started_of_exited hm') (hc.started_of_exited hm)
      | removed g => cases hremoved

end Kokage.Actor
