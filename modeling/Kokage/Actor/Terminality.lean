/-
  Kokage.Actor.Terminality — a binding that was terminated stays terminated.

  A terminated binding tells every sender that no mailbox will come; an unbound one makes
  them wait. So nothing but a bind that succeeds may take a binding out of `Terminated`.
  `bind` publishes its mailbox first and asks the hub second. If the hub refuses the run,
  the binding is rolled back, provided the mailbox is still there. `unbind` names no
  mailbox and takes no lock: between the two writes it clears what the rollback looks for.

  - `binding_settled`: in every run where that does not happen, a binding that was
    terminated and not bound since is `Terminated` whenever no bind is in progress. In
    every run at all, binds succeed in the order of their runs, and a guard that was
    displaced leaves the newer binding alone.
  - `unbind_strands_senders`: it can happen, and the binding is left `Unbound`.
-/

import Kokage.Lib.Steps
import Kokage.Actor.Streams

namespace Kokage.Actor

open Kokage.Lib
open Kokage.Supervisor

/-! ## The end of an epoch -/

namespace MonitorHub

/-- The end of the current epoch was announced. -/
def closing (h : MonitorHub) : Bool := h.removalRequested || h.lifecycle.isRemoved

@[simp] theorem onSeat_currentEpoch (h : MonitorHub) (seat : Seat) (f : Watch → Watch) :
    (h.onSeat seat f).currentEpoch = h.currentEpoch := rfl

@[simp] theorem onSeat_closing (h : MonitorHub) (seat : Seat) (f : Watch → Watch) :
    (h.onSeat seat f).closing = h.closing := rfl

@[simp] theorem newRun_currentEpoch (h : MonitorHub) (reopens : Bool) :
    (h.newRun reopens).1.currentEpoch = h.currentEpoch := rfl

@[simp] theorem newRun_closing (h : MonitorHub) (reopens : Bool) : (h.newRun reopens).1.closing = h.closing := rfl

@[simp] theorem registerWatch_currentEpoch (h : MonitorHub) : h.registerWatch.currentEpoch = h.currentEpoch := rfl

@[simp] theorem registerWatch_closing (h : MonitorHub) : h.registerWatch.closing = h.closing := rfl

@[simp] theorem removed_currentEpoch (h : MonitorHub) (epoch : Nat) :
    (h.removed epoch).currentEpoch = h.currentEpoch := by
  unfold removed
  split
  · rfl
  split
  · rfl
  split <;> rfl

theorem removed_closing (h : MonitorHub) : (h.removed h.currentEpoch).closing = true := by
  unfold removed
  simp only [ne_eq, not_true_eq_false, if_false]
  split
  · simp_all [closing]
  split
  · simp [closing]
  · simp [closing, Lifecycle.isRemoved]

@[simp] theorem exitedCurrent_currentEpoch (h : MonitorHub) (run : ActiveRun) (status : ExitStatus) :
    (h.exitedCurrent run status).currentEpoch = h.currentEpoch := by
  unfold exitedCurrent
  simp only
  split <;> rfl

theorem exitedCurrent_closing {h : MonitorHub} (run : ActiveRun) (status : ExitStatus) (hc : h.closing = true) :
    (h.exitedCurrent run status).closing = true := by
  unfold exitedCurrent
  simp only
  split
  · simp [closing, Lifecycle.isRemoved]
  · rw [onSeat_closing]
    simpa [closing] using hc

@[simp] theorem exitedRetiring_currentEpoch (h : MonitorHub) (run : ActiveRun) (status : ExitStatus) :
    (h.exitedRetiring run status).currentEpoch = h.currentEpoch := by
  unfold exitedRetiring
  split
  · rfl
  · split <;> rfl

@[simp] theorem exitedRetiring_closing (h : MonitorHub) (run : ActiveRun) (status : ExitStatus) :
    (h.exitedRetiring run status).closing = h.closing := by
  unfold exitedRetiring
  split
  · rfl
  · split <;> rfl

@[simp] theorem exited_currentEpoch (h : MonitorHub) (runId : Nat) (status : ExitStatus) :
    (h.exited runId status).currentEpoch = h.currentEpoch := by
  unfold exited
  split
  · rfl
  · simp only
    split <;> simp

theorem exited_closing {h : MonitorHub} (runId : Nat) (status : ExitStatus) (hc : h.closing = true) :
    (h.exited runId status).closing = true := by
  unfold exited
  split
  · exact hc
  · simp only
    split
    · exact exitedCurrent_closing _ _ hc
    · rw [exitedRetiring_closing]
      exact hc

/-- A run that was minted with the binding terminated joins an epoch whose end was
    announced only by beginning the next one. -/
theorem started_eq_none_of_closing {h : MonitorHub} {run : MonitorRun} (hc : h.closing = true)
    (hr : run.reopensEpoch.isSome) : h.started run = none ↔ run.reopensEpoch ≠ some h.currentEpoch := by
  obtain ⟨epoch, he⟩ := Option.isSome_iff_exists.mp hr
  have hjoins : (!h.lifecycle.isRemoved && !h.removalRequested) = false := by
    simp only [closing, Bool.or_eq_true] at hc
    rcases hc with hc | hc <;> simp [hc]
  by_cases hepoch : epoch = h.currentEpoch
  · simp [started, he, hepoch]
  · simp only [started, he, Option.isSome_some, Option.some.injEq, hepoch, decide_false, Option.any_some,
      Bool.and_assoc, hjoins, Bool.and_false, Bool.not_false, Bool.and_self, if_true, ne_eq, not_false_eq_true]

end MonitorHub

namespace BindingCore

theorem unbind_latest (c : BindingCore) : c.unbind.latestBindRun = c.latestBindRun := by
  unfold unbind
  split <;> rfl

theorem unbindMailbox_latest (c : BindingCore) (mailbox : Nat) :
    (c.unbindMailbox mailbox).latestBindRun = c.latestBindRun := by
  unfold unbindMailbox
  split <;> rfl

theorem rollBack_latest (c : BindingCore) (mailbox : Nat) :
    (c.rollBack mailbox).latestBindRun = c.latestBindRun := by
  unfold rollBack
  split <;> rfl

end BindingCore

/-! ## What holds while the binding is over -/

namespace Cell

/-- A binding that was terminated and not bound since is `Terminated` when no bind is in
    progress. -/
def Settled (s : Cell) : Prop := s.holder.binds = false → s.ended = true → s.core.current = .terminated

/-- A bind in progress, on a binding that was terminated, whose run has no authority over
    the current epoch. -/
def Doomed (s : Cell) : Prop :=
  s.ended = true ∧
    match s.holder with
    | .published run _ | .refused run _ => run.reopensEpoch ≠ some s.core.monitors.currentEpoch
    | _ => False

instance (s : Cell) : Decidable s.Doomed := by
  unfold Doomed
  split <;> infer_instance

/-- The condition on a step: no `unbind` in the middle of such a bind. -/
def Clear (s : Cell) (a : CellAction) : Prop := a = .unbind → ¬s.Doomed

instance (s : Cell) (a : CellAction) : Decidable (s.Clear a) := inferInstanceAs (Decidable (_ → _))

/-- Where the binding is while it is over, for each point the lock's holder can be at. -/
def Over (s : Cell) : Prop :=
  match s.holder with
  | .closed _ => s.core.current = .terminated
  | .published run mailbox =>
    s.core.monitors.closing = true ∧ run.reopensEpoch.isSome ∧
      (s.core.current = .bound mailbox ∨
        s.core.current = .unbound ∧ run.reopensEpoch = some s.core.monitors.currentEpoch)
  | .refused run mailbox =>
    s.core.monitors.closing = true ∧ s.core.current = .bound mailbox ∧
      run.reopensEpoch ≠ some s.core.monitors.currentEpoch
  | _ => s.core.monitors.closing = true ∧ s.core.current = .terminated

/-- The mailbox of a bind in progress has no guard yet, and an ending is of the current
    epoch. -/
def Placed (s : Cell) : Prop :=
  match s.holder with
  | .published _ mailbox | .refused _ mailbox => mailbox ∉ s.guards ∧ mailbox < s.nextMailbox
  | .ending _ epoch | .closed epoch => epoch = s.core.monitors.currentEpoch
  | _ => True

structure Fenced (s : Cell) : Prop where
  guards : ∀ mailbox ∈ s.guards, mailbox < s.nextMailbox
  placed : s.Placed
  ended : s.ended = true → s.Over

theorem Fenced.new : Fenced Cell.new := ⟨by simp [Cell.new], by simp [Placed, Cell.new], by simp [Cell.new]⟩

theorem Fenced.settled {s : Cell} (h : s.Fenced) : s.Settled := by
  intro hb ho
  have := h.ended ho
  unfold Over at this
  split at this <;> simp_all [Holder.binds]

/-! ### Steps that leave the lock alone -/

theorem Fenced.onHub {s : Cell} (h : s.Fenced) {f : MonitorHub → MonitorHub}
    (hepoch : (f s.core.monitors).currentEpoch = s.core.monitors.currentEpoch)
    (hclosing : s.core.monitors.closing = true → (f s.core.monitors).closing = true) : (s.onHub f).Fenced := by
  refine ⟨h.guards, ?_, ?_⟩
  · have := h.placed
    unfold Placed at this ⊢
    simp only [Cell.onHub, Cell.onCore, hepoch]
    exact this
  · intro ho
    have := h.ended ho
    unfold Over at this ⊢
    simp only [Cell.onHub, Cell.onCore, hepoch]
    split
    · simp_all
    · simp_all
    · simp_all
    · simp_all

theorem Fenced.unbind {s : Cell} (h : s.Fenced) (hclear : ¬s.Doomed) : (s.onCore (·.unbind)).Fenced := by
  by_cases hb : ∃ mailbox, s.core.current = .bound mailbox
  · obtain ⟨mailbox, hb⟩ := hb
    refine ⟨h.guards, ?_, ?_⟩
    · have := h.placed
      unfold Placed at this ⊢
      simp only [Cell.onCore, BindingCore.unbind, hb]
      exact this
    · intro ho
      have hover := h.ended ho
      have hdoomed : ¬s.Doomed := hclear
      unfold Over at hover ⊢
      unfold Doomed at hdoomed
      simp only [Cell.onCore, BindingCore.unbind, hb] at hover ho ⊢
      simp only [ho, true_and] at hdoomed
      cases hholder : s.holder <;> simp_all
  · have : s.core.unbind = s.core := by
      unfold BindingCore.unbind
      split
      · simp_all
      · rfl
    simpa [Cell.onCore, this] using h

theorem Fenced.unbindMailbox {s : Cell} (h : s.Fenced) {mailbox : Nat} (hm : mailbox ∈ s.guards) :
    Fenced { s.onCore (·.unbindMailbox mailbox) with guards := s.guards.erase mailbox } := by
  have hcore : s.core.unbindMailbox mailbox = s.core ∨
      s.core.current = .bound mailbox ∧ s.core.unbindMailbox mailbox = { s.core with current := .unbound } := by
    unfold BindingCore.unbindMailbox
    split <;> simp_all
  refine ⟨fun m hm => h.guards m (List.mem_of_mem_erase hm), ?_, ?_⟩
  · have := h.placed
    unfold Placed at this ⊢
    cases hholder : s.holder <;> rcases hcore with hcore | ⟨_, hcore⟩ <;>
      simp_all [Cell.onCore] <;> exact fun hmem => this.1 (List.mem_of_mem_erase hmem)
  · intro ho
    have hover := h.ended ho
    have hplaced := h.placed
    unfold Over at hover ⊢
    unfold Placed at hplaced
    cases hholder : s.holder <;> rcases hcore with hcore | ⟨_, hcore⟩ <;> simp_all [Cell.onCore]

/-! ### Steps of the lock's holder -/

theorem Fenced.publish {s : Cell} (h : s.Fenced) (hfree : s.holder = .free) {run : MonitorRun} {core : BindingCore}
    (hp : s.core.publish run s.nextMailbox = some core) :
    Fenced { s with
      core := core
      holder := .published run s.nextMailbox
      nextMailbox := s.nextMailbox + 1 } := by
  unfold BindingCore.publish at hp
  split at hp
  · cases hp
  split at hp
  · cases hp
  · rename_i hopen
    cases hp
    refine ⟨?_, ?_, ?_⟩
    · intro mailbox hm
      exact Nat.lt_succ_of_lt (h.guards mailbox hm)
    · exact ⟨fun hm => Nat.lt_irrefl _ (h.guards _ hm), Nat.lt_succ_self _⟩
    · intro ho
      have hover := h.ended ho
      simp only [Over, hfree] at hover
      refine ⟨hover.1, ?_, .inl rfl⟩
      simpa [hover.2, ← Option.isSome_iff_ne_none] using hopen

theorem Fenced.registered {s : Cell} (h : s.Fenced) {run : MonitorRun} {mailbox : Nat}
    (hholder : s.holder = .published run mailbox) : (s.registered run mailbox).Fenced := by
  have hplaced := h.placed
  simp only [Placed, hholder] at hplaced
  unfold Cell.registered BindingCore.register
  simp only
  cases hstarted : s.core.monitors.started run with
  | some p =>
    refine ⟨?_, trivial, nofun⟩
    intro m hm
    rcases List.mem_append.mp hm with hm | hm
    · exact h.guards m hm
    · rw [List.mem_singleton.mp hm]
      exact hplaced.2
  | none =>
    refine ⟨h.guards, hplaced, ?_⟩
    intro ho
    have hover := h.ended ho
    simp only [Over, hholder] at hover
    obtain ⟨hclosing, hsome, hcurrent⟩ := hover
    have hne := (MonitorHub.started_eq_none_of_closing hclosing hsome).mp hstarted
    refine ⟨hclosing, ?_, hne⟩
    rcases hcurrent with hcurrent | ⟨_, heq⟩
    · exact hcurrent
    · exact absurd heq hne

theorem Fenced.rollBack {s : Cell} (h : s.Fenced) {run : MonitorRun} {mailbox : Nat}
    (hholder : s.holder = .refused run mailbox) :
    Fenced { s.onCore (·.rollBack mailbox) with holder := .free } := by
  refine ⟨h.guards, trivial, ?_⟩
  intro ho
  have hover := h.ended ho
  simp only [Over, hholder] at hover
  obtain ⟨hclosing, hcurrent, _⟩ := hover
  simp [Over, Cell.onCore, BindingCore.rollBack, hcurrent, hclosing]

theorem Fenced.ending {s : Cell} (h : s.Fenced) (hfree : s.holder = .free) (mailbox : Option Nat) {guards : List Nat}
    (hg : guards ⊆ s.guards) :
    Fenced { s with holder := .ending mailbox s.core.monitors.currentEpoch, guards := guards } := by
  refine ⟨fun m hm => h.guards m (hg hm), rfl, ?_⟩
  intro ho
  have hover := h.ended ho
  simpa only [Over, hfree] using hover

theorem Fenced.closed {s : Cell} (h : s.Fenced) {mailbox : Option Nat} {epoch : Nat}
    (hholder : s.holder = .ending mailbox epoch) {core : BindingCore} (hcore : core = s.core.close) :
    Fenced { s with core := core, holder := .closed epoch, ended := true } := by
  have hplaced := h.placed
  simp only [Placed, hholder] at hplaced
  subst hcore
  exact ⟨h.guards, hplaced, fun _ => rfl⟩

theorem Fenced.closedMailbox {s : Cell} (h : s.Fenced) {mailbox epoch : Nat}
    (hholder : s.holder = .ending (some mailbox) epoch) : (s.closedMailbox mailbox epoch).Fenced := by
  unfold Cell.closedMailbox BindingCore.closeMailbox
  split
  · rename_i core hcore
    split at hcore
    · cases hcore
      exact h.closed hholder rfl
    · cases hcore
  · refine ⟨h.guards, trivial, ?_⟩
    intro ho
    have hover := h.ended ho
    simpa only [Over, hholder] using hover

theorem Fenced.tellRemoved {s : Cell} (h : s.Fenced) {epoch : Nat} (hholder : s.holder = .closed epoch) :
    Fenced { s.onCore (·.tellRemoved epoch) with holder := .free } := by
  have hplaced := h.placed
  simp only [Placed, hholder] at hplaced
  refine ⟨h.guards, trivial, ?_⟩
  intro ho
  have hover := h.ended ho
  simp only [Over, hholder] at hover
  subst hplaced
  exact ⟨MonitorHub.removed_closing _, hover⟩

theorem Fenced.freed {s : Cell} (h : s.Fenced) {reopens : Bool} (hholder : s.holder = .observed reopens)
    (minted : List MonitorRun) : Fenced { s with holder := .free, minted := minted } := by
  refine ⟨h.guards, trivial, ?_⟩
  intro ho
  have hover := h.ended ho
  simpa only [Over, hholder] using hover

theorem Fenced.step {s s' : Cell} {a : CellAction} (h : s.Fenced) (hclear : s.Clear a) (hs : s.step a = some s') :
    s'.Fenced := by
  cases a with
  | observe =>
    simp only [Cell.step] at hs
    split at hs
    · rename_i hfree
      cases hs
      refine ⟨h.guards, trivial, ?_⟩
      intro ho
      have hover := h.ended ho
      simpa only [Over, hfree] using hover
    · cases hs
  | mint =>
    simp only [Cell.step] at hs
    split at hs
    · rename_i reopens hholder
      cases hs
      have hhub := h.onHub (f := fun hub => (hub.newRun reopens).1) (by simp) (by simp)
      exact hhub.freed hholder _
    · cases hs
  | publish run =>
    simp only [Cell.step] at hs
    split at hs
    · rename_i hfree
      split at hs
      · obtain ⟨core, hp, rfl⟩ := Option.map_eq_some_iff.mp hs
        exact h.publish hfree hp
      · cases hs
    · cases hs
  | register =>
    simp only [Cell.step] at hs
    split at hs
    · rename_i hholder
      cases hs
      exact h.registered hholder
    · cases hs
  | rollBack =>
    simp only [Cell.step] at hs
    split at hs
    · rename_i hholder
      cases hs
      exact h.rollBack hholder
    · cases hs
  | terminate =>
    simp only [Cell.step] at hs
    split at hs
    · rename_i hfree
      cases hs
      exact h.ending hfree none (List.Subset.refl _)
    · cases hs
  | terminateMailbox mailbox =>
    simp only [Cell.step] at hs
    split at hs
    · rename_i hfree
      split at hs
      · cases hs
        exact h.ending hfree _ List.erase_subset
      · cases hs
    · cases hs
  | close =>
    simp only [Cell.step] at hs
    split at hs
    · rename_i hholder
      cases hs
      exact h.closed hholder rfl
    · rename_i hholder
      cases hs
      exact h.closedMailbox hholder
    · cases hs
  | tellRemoved =>
    simp only [Cell.step] at hs
    split at hs
    · rename_i hholder
      cases hs
      exact h.tellRemoved hholder
    · cases hs
  | unbind =>
    cases hs
    exact h.unbind (hclear rfl)
  | unbindMailbox mailbox =>
    simp only [Cell.step] at hs
    split at hs
    · rename_i hm
      cases hs
      exact h.unbindMailbox hm
    · cases hs
  | exited runId status =>
    cases hs
    exact h.onHub (by simp) (MonitorHub.exited_closing _ _)
  | registerWatch =>
    cases hs
    exact h.onHub (by simp) (by simp)
  | cancelWatch index =>
    cases hs
    exact h.onHub rfl id

/-! ## The order of the binds -/

/-- The runs of the binds that succeeded never go back, and none is later than the latest. -/
structure Ordered (s : Cell) : Prop where
  sorted : s.bound.Pairwise (· ≤ ·)
  latest : ∀ r ∈ s.bound, ∃ latest, s.core.latestBindRun = some latest ∧ r ≤ latest
  next : ∀ run mailbox, s.holder = .published run mailbox →
    ∀ latest, s.core.latestBindRun = some latest → latest ≤ run.runId

theorem Ordered.new : Ordered Cell.new := ⟨by simp [Cell.new], by simp [Cell.new], by simp [Cell.new]⟩

theorem Ordered.frame {s s' : Cell} (h : s.Ordered) (hbound : s'.bound = s.bound)
    (hlatest : s'.core.latestBindRun = s.core.latestBindRun)
    (hholder : ∀ run mailbox, s'.holder = .published run mailbox → s.holder = .published run mailbox) : s'.Ordered := by
  refine ⟨hbound ▸ h.sorted, ?_, ?_⟩
  · rw [hbound, hlatest]
    exact h.latest
  · intro run mailbox hp
    rw [hlatest]
    exact h.next run mailbox (hholder run mailbox hp)

theorem Ordered.publish {s : Cell} (h : s.Ordered) {run : MonitorRun} {core : BindingCore}
    (hp : s.core.publish run s.nextMailbox = some core) :
    Ordered { s with
      core := core
      holder := .published run s.nextMailbox
      nextMailbox := s.nextMailbox + 1 } := by
  unfold BindingCore.publish at hp
  split at hp
  · cases hp
  split at hp
  · cases hp
  · rename_i hlate _
    cases hp
    refine ⟨h.sorted, h.latest, ?_⟩
    intro run' mailbox hholder latest hl
    cases hholder
    simp only [Option.any_eq_true, decide_eq_true_eq, not_exists, not_and] at hlate
    exact Nat.le_of_not_lt (hlate latest hl)

theorem Ordered.registered {s : Cell} (h : s.Ordered) {run : MonitorRun} {mailbox : Nat}
    (hholder : s.holder = .published run mailbox) : (s.registered run mailbox).Ordered := by
  have hle : ∀ r ∈ s.bound, r ≤ run.runId := by
    intro r hr
    obtain ⟨latest, hlatest, hrl⟩ := h.latest r hr
    exact Nat.le_trans hrl (h.next run mailbox hholder latest hlatest)
  unfold Cell.registered BindingCore.register
  simp only
  cases s.core.monitors.started run with
  | some p =>
    refine ⟨?_, ?_, nofun⟩
    · rw [List.pairwise_append]
      refine ⟨h.sorted, List.pairwise_singleton _ _, ?_⟩
      intro r hr r' hr'
      rw [List.mem_singleton.mp hr']
      exact hle r hr
    · intro r hr
      refine ⟨run.runId, rfl, ?_⟩
      rcases List.mem_append.mp hr with hr | hr
      · exact hle r hr
      · exact Nat.le_of_eq (List.mem_singleton.mp hr)
  | none => exact ⟨h.sorted, fun r hr => ⟨run.runId, rfl, hle r hr⟩, nofun⟩

theorem Ordered.closedMailbox {s : Cell} (h : s.Ordered) (mailbox epoch : Nat) :
    (s.closedMailbox mailbox epoch).Ordered := by
  unfold Cell.closedMailbox BindingCore.closeMailbox
  split
  · rename_i core hcore
    split at hcore
    · cases hcore
      exact h.frame rfl rfl nofun
    · cases hcore
  · exact h.frame rfl rfl nofun

theorem Ordered.step {s s' : Cell} {a : CellAction} (h : s.Ordered) (hs : s.step a = some s') : s'.Ordered := by
  cases a with
  | publish run =>
    simp only [Cell.step] at hs
    split at hs
    · split at hs
      · obtain ⟨core, hp, rfl⟩ := Option.map_eq_some_iff.mp hs
        exact h.publish hp
      · cases hs
    · cases hs
  | register =>
    simp only [Cell.step] at hs
    split at hs
    · rename_i hholder
      cases hs
      exact h.registered hholder
    · cases hs
  | close =>
    simp only [Cell.step] at hs
    split at hs
    · cases hs
      exact h.frame rfl rfl nofun
    · cases hs
      exact h.closedMailbox _ _
    · cases hs
  | rollBack =>
    simp only [Cell.step] at hs
    split at hs
    · cases hs
      exact h.frame rfl (BindingCore.rollBack_latest _ _) nofun
    · cases hs
  | unbind =>
    cases hs
    exact h.frame rfl (BindingCore.unbind_latest _) fun _ _ => id
  | unbindMailbox mailbox =>
    simp only [Cell.step] at hs
    split at hs
    · cases hs
      exact h.frame rfl (BindingCore.unbindMailbox_latest _ _) fun _ _ => id
    · cases hs
  | terminateMailbox mailbox =>
    simp only [Cell.step] at hs
    split at hs
    · split at hs
      · cases hs
        exact h.frame rfl rfl nofun
      · cases hs
    · cases hs
  | observe | mint | terminate | tellRemoved =>
    simp only [Cell.step] at hs
    split at hs
    · cases hs
      exact h.frame rfl rfl nofun
    · cases hs
  | exited | registerWatch | cancelWatch =>
    cases hs
    exact h.frame rfl rfl fun _ _ => id

/-! ## A displaced guard -/

/-- The steps of dropping the guard of a mailbox. -/
def Drops (s : Cell) (mailbox : Nat) : CellAction → Prop
  | .unbindMailbox m | .terminateMailbox m => m = mailbox
  | .close => ∃ epoch, s.holder = .ending (some mailbox) epoch
  | _ => False

theorem drops_displaced {s s' : Cell} {a : CellAction} {mailbox newer : Nat} (hd : s.Drops mailbox a)
    (hcurrent : s.core.current = .bound newer) (hne : newer ≠ mailbox) (hs : s.step a = some s') :
    s'.core = s.core := by
  cases a with
  | unbindMailbox m =>
    cases hd
    simp only [Cell.step] at hs
    split at hs
    · cases hs
      simp [Cell.onCore, BindingCore.unbindMailbox, hcurrent, hne]
    · cases hs
  | terminateMailbox m =>
    simp only [Cell.step] at hs
    split at hs
    · split at hs
      · cases hs
        rfl
      · cases hs
    · cases hs
  | close =>
    obtain ⟨epoch, hholder⟩ := hd
    simp only [Cell.step, hholder, Option.some.injEq] at hs
    subst hs
    simp [Cell.closedMailbox, BindingCore.closeMailbox, hcurrent, hne]
  | _ => cases hd

end Cell

/-! ## The binding is settled -/

/-- In every run without an `unbind` inside a doomed bind the binding is settled in every
    state. In every run binds succeed in the order of their runs, and dropping the guard
    of a displaced mailbox changes neither the newer binding nor the hub. -/
theorem binding_settled (s : Cell) :
    (Reach (within Cell.Clear Cell.step) Cell.new s → s.Settled) ∧
    (Reach Cell.step Cell.new s → s.bound.Pairwise (· ≤ ·) ∧
      ∀ mailbox newer a s', s.Drops mailbox a → s.core.current = .bound newer → newer ≠ mailbox →
        s.step a = some s' → s'.core = s.core) := by
  refine ⟨?_, ?_⟩
  · intro h
    refine (h.invariant Cell.Fenced.new ?_).settled
    intro s a s' hf hs
    obtain ⟨hclear, hs⟩ := within_eq_some.mp hs
    exact hf.step hclear hs
  · intro h
    refine ⟨(h.invariant Cell.Ordered.new fun _ _ _ ho hs => ho.step hs).sorted, ?_⟩
    intro mailbox newer a s' hd hcurrent hne hs
    exact Cell.drops_displaced hd hcurrent hne hs

/-- A run that the hub refuses is rolled back to the terminated binding; and a run bound
    after another keeps its mailbox when the guard of that one is dropped. -/
theorem binding_settled_refused :
    (∃ s, Reach (within Cell.Clear Cell.step) Cell.new s ∧ s.bound = [0] ∧ s.ended = true ∧
      s.core.current = .terminated) ∧
    ∃ s s', Reach Cell.step Cell.new s ∧ s.bound = [0, 1] ∧ s.step (.unbindMailbox 0) = some s' ∧ s'.core = s.core := by
  constructor
  · have hrun : ∃ s, replay (within Cell.Clear Cell.step) Cell.new
        [.terminate, .close, .tellRemoved, .observe, .mint, .observe, .mint, .publish ⟨0, some 0⟩, .register,
          .terminate, .close, .tellRemoved, .publish ⟨1, some 0⟩, .register, .rollBack] = some s ∧
        s.bound = [0] ∧ s.holder = .free ∧ s.ended = true := by
      refine ⟨_, rfl, ?_⟩
      decide
    obtain ⟨s, hrun, hbound, hfree, hover⟩ := hrun
    have hreach := Reach.of_replay hrun
    exact ⟨s, hreach, hbound, hover, (binding_settled s).1 hreach (by rw [hfree]; rfl) hover⟩
  · have hrun : ∃ s s', replay Cell.step Cell.new
        [.observe, .mint, .observe, .mint, .publish ⟨0, none⟩, .register, .publish ⟨1, none⟩, .register] = some s ∧
        s.bound = [0, 1] ∧ s.core.current = .bound 1 ∧ s.step (.unbindMailbox 0) = some s' := by
      refine ⟨_, _, rfl, rfl, rfl, rfl⟩
    obtain ⟨s, s', hrun, hbound, hcurrent, hs⟩ := hrun
    have hreach := Reach.of_replay hrun
    exact ⟨s, s', hreach, hbound, hs, ((binding_settled s).2 hreach).2 0 1 (.unbindMailbox 0) s' rfl hcurrent (by decide) hs⟩

/-- Two runs are minted while the binding is terminated. The first reopens it, and it is
    terminated again before that run has exited. The second publishes its mailbox; a late
    `unbind` clears it before the hub refuses the run, and nothing is left to roll back. -/
theorem unbind_strands_senders :
    ∃ s, Reach Cell.step Cell.new s ∧ ¬s.Settled ∧ s.core.current = .unbound := by
  have hrun : ∃ s, replay Cell.step Cell.new
      [.terminate, .close, .tellRemoved, .observe, .mint, .observe, .mint, .publish ⟨0, some 0⟩, .register,
        .terminate, .close, .tellRemoved, .publish ⟨1, some 0⟩, .unbind, .register, .rollBack] = some s ∧
      s.holder = .free ∧ s.ended = true ∧ s.core.current = .unbound := by
    refine ⟨_, rfl, ?_⟩
    decide
  obtain ⟨s, hrun, hfree, hover, hcurrent⟩ := hrun
  refine ⟨s, .of_replay hrun, ?_, hcurrent⟩
  intro hsettled
  have := hsettled (by rw [hfree]; rfl) hover
  rw [hcurrent] at this
  cases this

end Kokage.Actor
